import Linux011.Fs.Whole

/-!
# Room for an entry

How many zones `create_block` needs (`Linux011.Fs.Names.missing`): one for the block, and one for
each table above it that is not there. It comes to nothing if and only if fewer are free
(`Linux011.Fs.Names.create_count`), and so it is known when `add_entry` finds no room for an entry
(`Linux011.Fs.Names.full_iff`).
-/

namespace Linux011.Fs.Names

open Bmap (State Place Spot Sound Grown)
open Directory (Pointer Dir slot)

variable {s t : State} {p q r : Spot} {used : ℕ → Bool} {j k z block : ℕ}

/-! ### Zones that are free -/

/-- **How many zones are free.** -/
def freeCount (used : ℕ → Bool) : ℕ := ((Finset.range 65536).filter fun z => used z = false).card

/-- **`new_block`** takes a zone, if one is free; zone 0 never is. -/
theorem newBlock_count (h0 : s.used 0 = true) :
    (freeCount s.used = 0 ∧ s.newBlock firstFree = (0, s)) ∨
    ∃ z, z ≠ 0 ∧ z < 65536 ∧ s.used z = false ∧ s.newBlock firstFree = (z, s.fresh z) ∧
      freeCount (s.fresh z).used + 1 = freeCount s.used := by
  rw [State.newBlock]
  cases hfirst : firstFree s.used with
  | none =>
    refine Or.inl ⟨?_, rfl⟩
    rw [firstFree, List.find?_range_eq_none] at hfirst
    rw [freeCount, Finset.card_eq_zero, Finset.filter_eq_empty_iff]
    intro z hz hfree
    have hno := hfirst z (Finset.mem_range.mp hz)
    rw [hfree] at hno
    cases hno
  | some z =>
    rw [firstFree, List.find?_range_eq_some] at hfirst
    obtain ⟨hfree, hmem, -⟩ := hfirst
    have hfree : s.used z = false := of_decide_eq_true hfree
    have hlt : z < 65536 := List.mem_range.mp hmem
    have hz : z ≠ 0 := by
      rintro rfl
      exact Bool.noConfusion (h0.symm.trans hfree)
    refine Or.inr ⟨z, hz, hlt, hfree, ?_, ?_⟩
    · dsimp only
      rw [if_neg]
      rintro (h | h | h)
      · exact hz h
      · omega
      · exact Bool.noConfusion (h.symm.trans hfree)
    · have herase : ((Finset.range 65536).filter fun x => (s.fresh z).used x = false) =
          ((Finset.range 65536).filter fun x => s.used x = false).erase z := by
        ext x
        rw [Finset.mem_filter, Finset.mem_erase, Finset.mem_filter]
        by_cases hx : x = z
        · rw [hx]
          refine iff_of_false (fun h => ?_) fun h => h.1 rfl
          have hused : (s.fresh z).used z = true := Function.update_self ..
          exact Bool.noConfusion (hused.symm.trans h.2)
        · have hused : (s.fresh z).used x = s.used x := Function.update_of_ne hx ..
          rw [hused]
          exact ⟨fun h => ⟨hx, h⟩, fun h => h.2⟩
      rw [freeCount, freeCount, herase]
      exact Finset.card_erase_add_one
        (Finset.mem_filter.mpr ⟨Finset.mem_range.mpr hlt, hfree⟩)

/-- **An empty spot is filled**, if a zone is free; and no other spot is. -/
theorem fill_count (h : Sound s) (h0 : s.used 0 = true) (hp : p.Ok) (hreach : s.Reached p)
    (hempty : s.at p = 0) :
    (freeCount s.used = 0 ∧ s.fill firstFree true (s.place p) = s) ∨
    ((s.fill firstFree true (s.place p)).at p ≠ 0 ∧
      (s.fill firstFree true (s.place p)).used 0 = true ∧
      freeCount (s.fill firstFree true (s.place p)).used + 1 = freeCount s.used ∧
      ∀ q, q.Ok → q ≠ p → (s.fill firstFree true (s.place p)).at q = s.at q) := by
  rw [State.fill, Bmap.get_place hreach, if_pos ⟨rfl, hempty⟩]
  rcases newBlock_count h0 with ⟨hnone, hnew⟩ | ⟨z, hz, hlt, hfree, hnew, hcount⟩
  · rw [hnew, if_neg fun h => h rfl]
    exact Or.inl ⟨hnone, rfl⟩
  · rw [hnew, if_pos hz]
    have hat := Bmap.at_set h hp hreach hempty hz hlt hfree
    have hused := used_set (z := z) (s.fresh z) (s.place p)
    refine Or.inr ⟨?_, ?_, ?_, fun q hq hne => ?_⟩
    · rw [hat p hp, if_pos rfl]
      exact hz
    · rw [hused]
      exact (Function.update_of_ne (Ne.symm hz) ..).trans h0
    · rw [hused, hcount]
    · rw [hat q hq, if_neg hne]

/-! ### Tables above a block -/

/-- How many tables are above a spot. -/
def depth : Spot → ℕ
  | .top _ => 0
  | .under r _ => depth r + 1

/-- **How many zones are missing**, from the inode down to a spot. -/
def missing (s : State) : Spot → ℕ
  | .top k => if s.at (.top k) = 0 then 1 else 0
  | .under r j => missing s r + if s.at (.under r j) = 0 then 1 else 0

theorem missing_eq_zero (h : s.at p ≠ 0) : missing s p = 0 := by
  induction p with
  | top k => exact if_neg h
  | under r j ih =>
    rw [missing, if_neg h, ih fun h0 => h (Bmap.at_under_eq_zero h0 j)]

/-- The spot and the tables above it are filled. -/
def fillSpot : Spot → State → State
  | .top k, s => s.fill firstFree true (.zone k)
  | .under r j, s =>
    if (fillSpot r s).at r = 0 then fillSpot r s
    else (fillSpot r s).fill firstFree true (.word ((fillSpot r s).at r) j)

/-- **A spot is filled** with the tables above it, if that many zones are free: the induction is on
the spot. -/
theorem fillSpot_count (h : Sound s) (h0 : s.used 0 = true) (hp : p.Ok) :
    Sound (fillSpot p s) ∧ (fillSpot p s).used 0 = true ∧
      (∀ q, q.Ok → depth p < depth q → (fillSpot p s).at q = s.at q) ∧
      ((fillSpot p s).at p = 0 ↔ freeCount s.used < missing s p) ∧
      ((fillSpot p s).at p ≠ 0 → freeCount (fillSpot p s).used + missing s p =
        freeCount s.used) := by
  induction p with
  | top k =>
    obtain ⟨hsound, -, hsame⟩ := @Sound.fill _ firstFree (.top k) h hp trivial
    rw [fillSpot]
    rw [State.place] at hsound hsame
    by_cases hempty : s.at (.top k) = 0
    · have hmissing : missing s (.top k) = 1 := if_pos hempty
      rw [hmissing]
      rcases fill_count h h0 hp (p := .top k) trivial hempty with ⟨hnone, hfill⟩ |
        ⟨hat, hused, hcount, hother⟩
      · rw [State.place] at hfill
        rw [hfill]
        exact ⟨h, h0, fun _ _ _ => rfl, iff_of_true hempty (by omega), fun hne => absurd hempty hne⟩
      · rw [State.place] at hat hused hcount hother
        refine ⟨hsound, hused, fun q hq hlt => hother q hq ?_, iff_of_false hat (by omega),
          fun _ => hcount⟩
        rintro rfl
        exact Nat.lt_irrefl _ hlt
    · rw [hsame hempty, missing_eq_zero hempty]
      exact ⟨h, h0, fun _ _ _ => rfl, iff_of_false hempty (by omega), fun _ => Nat.add_zero _⟩
  | under r j ih =>
    obtain ⟨hsound, hused, hdeep, hzero, hcount⟩ := ih hp.1.ok
    rw [fillSpot]
    by_cases hr : (fillSpot r s).at r = 0
    · have hunder : (fillSpot r s).at (.under r j) = 0 := Bmap.at_under_eq_zero hr j
      have hfew := hzero.mp hr
      rw [if_pos hr, missing]
      exact ⟨hsound, hused, fun q hq hlt => hdeep q hq (by rw [depth] at hlt; omega),
        iff_of_true hunder (by omega), fun hne => absurd hunder hne⟩
    rw [if_neg hr]
    have hcount := hcount hr
    have hself : (fillSpot r s).at (.under r j) = s.at (.under r j) :=
      hdeep _ hp (Nat.lt_succ_self _)
    obtain ⟨hsound', -, hsame⟩ := @Sound.fill _ firstFree (.under r j) hsound hp hr
    rw [State.place] at hsound' hsame
    by_cases hempty : s.at (.under r j) = 0
    · have hmissing : missing s (.under r j) = missing s r + 1 := by
        rw [missing, if_pos hempty]
      rw [hmissing]
      rcases fill_count hsound hused hp (p := .under r j) hr (hself.trans hempty) with
        ⟨hnone, hfill⟩ | ⟨hat, hused', hcount', hother⟩
      · rw [State.place] at hfill
        rw [hfill]
        exact ⟨hsound, hused, fun q hq hlt => hdeep q hq (by rw [depth] at hlt; omega),
          iff_of_true (hself.trans hempty) (by omega),
          fun hne => absurd (hself.trans hempty) hne⟩
      · rw [State.place] at hat hused' hcount' hother
        refine ⟨hsound', hused', fun q hq hlt => ?_, iff_of_false hat (by omega),
          fun _ => by omega⟩
        rw [hother q hq, hdeep q hq]
        · rw [depth] at hlt
          omega
        · rintro rfl
          exact Nat.lt_irrefl _ hlt
    · have hzero' : missing s r = 0 :=
        missing_eq_zero fun hr0 => hempty (Bmap.at_under_eq_zero hr0 j)
      rw [hsame (hself ▸ hempty), missing_eq_zero hempty]
      exact ⟨hsound, hused, fun q hq hlt => hdeep q hq (by rw [depth] at hlt; omega),
        iff_of_false (hself ▸ hempty) (by omega), fun _ => by omega⟩

/-- What a table has for a spot that has been filled. -/
theorem fillSpot_under (h : Sound (fillSpot r s)) (hp : (Spot.under r j).Ok) :
    (if (fillSpot r s).at r = 0 ∨ (fillSpot r s).readable ((fillSpot r s).at r) = false then
      Except.ok (0, fillSpot r s)
    else Except.ok
      (((fillSpot r s).fill firstFree true (.word ((fillSpot r s).at r) j)).word
        ((fillSpot r s).at r) j,
      (fillSpot r s).fill firstFree true (.word ((fillSpot r s).at r) j)) :
        Except String (ℕ × State)) =
      .ok ((fillSpot (.under r j) s).at (.under r j), fillSpot (.under r j) s) := by
  rw [fillSpot]
  by_cases hr : (fillSpot r s).at r = 0
  · rw [if_pos (Or.inl hr), if_pos hr, Bmap.at_under_eq_zero hr]
  · obtain ⟨t, ht, hword, -⟩ := Bmap.fill_under h firstFree hp hr
    rw [if_neg (h.not_missing hp.1.ok hr), if_neg hr, ht, hword]

/-- **`create_block`** fills a spot with the tables above it. -/
theorem create_eq (h : Sound s) (h0 : s.used 0 = true) (hlt : block < Bmap.maxBlock) :
    Bmap.bmap firstFree true block s =
      .ok ((fillSpot (.ofBlock block) s).at (.ofBlock block), fillSpot (.ofBlock block) s) := by
  have hok := (Spot.data_ofBlock hlt).1
  rw [Bmap.bmap, if_neg (by omega)]
  rw [Spot.ofBlock] at hok ⊢
  by_cases h7 : block < 7
  · rw [if_pos h7, if_pos h7]
    rfl
  rw [if_neg h7] at hok
  rw [if_neg h7, if_neg h7]
  by_cases h512 : block - 7 < 512
  · rw [if_pos h512] at hok
    rw [if_pos h512, if_pos h512]
    obtain ⟨hsound, -⟩ := fillSpot_count h h0 hok.1.ok
    exact fillSpot_under hsound hok
  rw [if_neg h512] at hok
  rw [if_neg h512, if_neg h512]
  dsimp only
  set n := block - 7 - 512
  have hmid : (Spot.under (.top 8) (n / 512)).Ok := hok.1.ok
  obtain ⟨hsound, -⟩ := fillSpot_count h h0 hmid.1.ok
  obtain ⟨hsound', -⟩ := fillSpot_count h h0 hmid
  rw [← fillSpot_under hsound' hok]
  change (if (fillSpot (.top 8) s).at (.top 8) = 0 ∨
    (fillSpot (.top 8) s).readable ((fillSpot (.top 8) s).at (.top 8)) = false then _ else _) = _
  by_cases h8 : (fillSpot (.top 8) s).at (.top 8) = 0
  · have hsame : fillSpot (.under (.top 8) (n / 512)) s = fillSpot (.top 8) s := if_pos h8
    rw [if_pos (Or.inl h8), hsame, if_pos (Or.inl (Bmap.at_under_eq_zero h8 _))]
    rfl
  · have hnext : fillSpot (.under (.top 8) (n / 512)) s = (fillSpot (.top 8) s).fill firstFree true
        (.word ((fillSpot (.top 8) s).at (.top 8)) (n / 512)) := if_neg h8
    obtain ⟨t, ht, hword, -⟩ := Bmap.fill_under hsound firstFree hmid h8
    rw [if_neg (hsound.not_missing hmid.1.ok h8), hnext, ht, ← hword, ← ht]
    rfl

/-- **`create_block` comes to nothing** if and only if too few zones are free. -/
theorem create_count (h : Sound s) (h0 : s.used 0 = true) (hlt : block < Bmap.maxBlock) :
    (∃ t, Bmap.bmap firstFree true block s = .ok (0, t)) ↔
      freeCount s.used < missing s (.ofBlock block) := by
  rw [create_eq h h0 hlt, ← (fillSpot_count h h0 (Spot.data_ofBlock hlt).1).2.2.2.1]
  constructor
  · rintro ⟨t, ht⟩
    exact (Prod.mk.inj (Except.ok.inj ht)).1
  · intro hzero
    rw [hzero]
    exact ⟨_, rfl⟩

/-- **When there is no room for an entry.** -/
theorem full_iff (h : Dir t) (h0 : t.used 0 = true) : (∃ u, Directory.Full firstFree t u) ↔
    (∀ j < t.size / 16, Directory.ino t (slot t j) ≠ 0) ∧ t.size % 1024 = 0 ∧
      freeCount t.used < missing t (.ofBlock (t.size / 1024)) := by
  rw [← create_count h.toSound h0 h.small]
  constructor
  · rintro ⟨u, hentries, hedge, hblock⟩
    exact ⟨hentries, hedge, u, hblock⟩
  · rintro ⟨hentries, hedge, u, hblock⟩
    exact ⟨u, hentries, hedge, hblock⟩

end Linux011.Fs.Names

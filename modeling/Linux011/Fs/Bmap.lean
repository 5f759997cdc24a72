import Mathlib.Data.Nat.Basic
import Mathlib.Logic.Function.Basic
import Mathlib.Tactic.Common

/-!
# The zones of a file

`bmap` and `create_block` of `fs/inode.c`. The zones of a file hang from the nine numbers in its
inode: seven of them are zones with data, the eighth is that of a table of zones, the ninth that of
a table of such tables. A spot (`Linux011.Fs.Bmap.Spot`) is one of the places where the number of a
zone is kept, and `Linux011.Fs.Bmap.State.at` is the number that is kept there.

All that creating a block does is to fill spots, one under the other: a spot that is filled changes
no other spot, and no data (`Linux011.Fs.Bmap.Sound.fill`).

What `new_block` does is left to `pick`: which zone it takes, and that it takes none that is in use.
-/

namespace Linux011.Fs.Bmap

/-! ### The device and the inode -/

/-- **The buffers of a device**, its map of zones, and an inode. -/
structure State where
  data : ℕ → ℕ → UInt8
  /-- `bread` succeeds. -/
  readable : ℕ → Bool
  used : ℕ → Bool
  /-- `i_zone` -/
  zone : ℕ → ℕ
  /-- `i_size` -/
  size : ℕ

/-- Where `new_block` finds a zone, when these are in use. -/
abbrev Pick := (ℕ → Bool) → Option ℕ

namespace State

variable (s : State)

/-- `((unsigned short *) bh->b_data)[i]` -/
def word (z i : ℕ) : ℕ := (s.data z (2 * i)).toNat + 256 * (s.data z (2 * i + 1)).toNat

/-- A store to it. -/
def setWord (z i v : ℕ) : State :=
  { s with
    data := Function.update s.data z fun x =>
      if x = 2 * i then UInt8.ofNat v
      else if x = 2 * i + 1 then UInt8.ofNat (v / 256)
      else s.data z x }

/-- A zone is taken, and its buffer is cleared. -/
def fresh (z : ℕ) : State :=
  { s with
    data := Function.update s.data z fun _ => 0
    readable := Function.update s.readable z true
    used := Function.update s.used z true }

/-- `new_block`. The number of a zone is a short. -/
def newBlock (pick : Pick) : ℕ × State :=
  match pick s.used with
  | none => (0, s)
  | some z => if z = 0 ∨ 65536 ≤ z ∨ s.used z = true then (0, s) else (z, s.fresh z)

end State

/-- Where the number of a zone is kept: in the inode, or in a block. -/
inductive Place
  | zone (k : ℕ)
  | word (z i : ℕ)

namespace State

variable (s : State)

/-- The number that is kept there. -/
def get : Place → ℕ
  | .zone k => s.zone k
  | .word z i => s.word z i

/-- Another number is kept there. -/
def set (v : ℕ) : Place → State
  | .zone k => { s with zone := Function.update s.zone k v }
  | .word z i => s.setWord z i v

/-- **A zone is created** where there is none, if that is asked for. -/
def fill (pick : Pick) (create : Bool) (p : Place) : State :=
  if create ∧ s.get p = 0 then
    if (s.newBlock pick).1 ≠ 0 then (s.newBlock pick).2.set (s.newBlock pick).1 p
    else (s.newBlock pick).2
  else s

end State

/-- How many blocks a file may have. -/
def maxBlock : ℕ := 7 + 512 + 512 * 512

/-- **`_bmap`.** -/
def bmap (pick : Pick) (create : Bool) (block : ℕ) (s : State) : Except String (ℕ × State) :=
  if maxBlock ≤ block then .error "_bmap: block>big"
  else if block < 7 then
    let s := s.fill pick create (.zone block)
    .ok (s.zone block, s)
  else if block - 7 < 512 then
    let s := s.fill pick create (.zone 7)
    if s.zone 7 = 0 ∨ s.readable (s.zone 7) = false then .ok (0, s)
    else
      let t := s.fill pick create (.word (s.zone 7) (block - 7))
      .ok (t.word (s.zone 7) (block - 7), t)
  else
    let block := block - 7 - 512
    let s := s.fill pick create (.zone 8)
    if s.zone 8 = 0 ∨ s.readable (s.zone 8) = false then .ok (0, s)
    else
      let t := s.fill pick create (.word (s.zone 8) (block / 512))
      let i := t.word (s.zone 8) (block / 512)
      if i = 0 ∨ t.readable i = false then .ok (0, t)
      else
        let u := t.fill pick create (.word i (block % 512))
        .ok (u.word i (block % 512), u)

/-! ### Spots -/

/-- **A spot**: a number in the inode, or in the table that hangs from another spot. -/
inductive Spot
  | top (k : ℕ)
  | under (r : Spot) (j : ℕ)
  deriving DecidableEq

namespace Spot

/-- A spot from which a table hangs. -/
def Table : Spot → Prop
  | top k => k = 7 ∨ k = 8
  | under r j => r = top 8 ∧ j < 512

/-- A spot that there is. -/
def Ok : Spot → Prop
  | top k => k < 9
  | under r j => r.Table ∧ j < 512

/-- A spot from which data hangs. -/
def Data (p : Spot) : Prop := p.Ok ∧ ¬p.Table

/-- The spot of a block. -/
def ofBlock (block : ℕ) : Spot :=
  if block < 7 then top block
  else if block - 7 < 512 then under (top 7) (block - 7)
  else under (under (top 8) ((block - 7 - 512) / 512)) ((block - 7 - 512) % 512)

end Spot

/-- **The zone that hangs from a spot**, or 0. -/
def State.at (s : State) : Spot → ℕ
  | .top k => s.zone k
  | .under r j => if s.at r = 0 then 0 else s.word (s.at r) j

/-- Where the number of a spot is kept. -/
def State.place (s : State) : Spot → Place
  | .top k => .zone k
  | .under r j => .word (s.at r) j

variable {s s' t : State} {pick : Pick} {p q r : Spot} {i j k z v x block : ℕ}

theorem Spot.Table.ok (h : p.Table) : p.Ok := by
  cases p with
  | top k =>
    rcases h with rfl | rfl
    · exact (by omega : 7 < 9)
    · exact (by omega : 8 < 9)
  | under r j =>
    obtain ⟨rfl, hj⟩ := h
    exact ⟨Or.inr rfl, hj⟩

theorem Spot.data_ofBlock (h : block < maxBlock) : (ofBlock block).Data := by
  rw [maxBlock] at h
  rw [ofBlock]
  split_ifs with h7 h512
  · refine ⟨by rw [Ok]; omega, ?_⟩
    rintro (h | h)
    · omega
    · omega
  · refine ⟨⟨Or.inl rfl, h512⟩, ?_⟩
    rintro ⟨h, -⟩
    cases h
  · refine ⟨⟨⟨rfl, ?_⟩, Nat.mod_lt _ (by decide)⟩, ?_⟩
    · rw [Nat.div_lt_iff_lt_mul (by decide)]
      omega
    · rintro ⟨h, -⟩
      cases h

/-- **Two blocks** have two spots. -/
theorem Spot.ofBlock_inj {block' : ℕ} (h : ofBlock block = ofBlock block') : block = block' := by
  rw [ofBlock, ofBlock] at h
  split_ifs at h with h1 h2 h3 h4 h5 h6
  all_goals
    try rw [top.injEq] at h
    try rw [under.injEq] at h
  · exact h
  · omega
  · cases h.1
  · cases h.1
  · rw [under.injEq] at h
    obtain ⟨⟨-, hdiv⟩, hmod⟩ := h
    omega

/-! ### Words -/

theorem word_setWord_self (s : State) (z i : ℕ) (hv : v < 65536) :
    (s.setWord z i v).word z i = v := by
  rw [State.word, State.setWord]
  dsimp only
  rw [Function.update_self, if_pos rfl, if_neg (by omega), if_pos rfl, UInt8.toNat_ofNat',
    UInt8.toNat_ofNat']
  omega

theorem word_setWord_of_ne (s : State) (z : ℕ) (h : j ≠ i) :
    (s.setWord z i v).word z j = s.word z j := by
  rw [State.word, State.word, State.setWord]
  dsimp only
  rw [Function.update_self, if_neg (by omega), if_neg (by omega), if_neg (by omega),
    if_neg (by omega)]

theorem data_setWord_of_ne (s : State) (i v : ℕ) (h : x ≠ z) :
    (s.setWord z i v).data x = s.data x := by
  rw [State.setWord]
  exact Function.update_of_ne h _ _

theorem word_congr (h : s'.data z = s.data z) (i : ℕ) : s'.word z i = s.word z i := by
  rw [State.word, State.word, h]

theorem word_fresh_self (s : State) (z i : ℕ) : (s.fresh z).word z i = 0 := by
  rw [State.word, State.fresh]
  dsimp only
  rw [Function.update_self]
  rfl

theorem word_fresh_of_ne (s : State) (i : ℕ) (h : x ≠ z) : (s.fresh z).word x i = s.word x i :=
  word_congr (Function.update_of_ne h _ _) i

/-! ### A spot is filled -/

/-- **The zones of a file**: no two spots have the same, and they are in use and can be read. -/
structure Sound (s : State) : Prop where
  inj : ∀ p q, p.Ok → q.Ok → s.at p ≠ 0 → s.at p = s.at q → p = q
  used : ∀ p, p.Ok → s.at p ≠ 0 → s.used (s.at p) = true
  readable : ∀ p, p.Ok → s.at p ≠ 0 → s.readable (s.at p) = true

/-- **No zone is another one, and no data has changed.** -/
structure Grown (s t : State) : Prop where
  kept : ∀ p, p.Ok → s.at p ≠ 0 → t.at p = s.at p
  data : ∀ p, p.Data → s.at p ≠ 0 → t.data (s.at p) = s.data (s.at p)
  size : t.size = s.size

/-- The table that a spot is in is there. -/
def State.Reached (s : State) : Spot → Prop
  | .top _ => True
  | .under r _ => s.at r ≠ 0

theorem Grown.refl (s : State) : Grown s s := ⟨fun _ _ _ => rfl, fun _ _ _ => rfl, rfl⟩

theorem Grown.trans {u : State} (h : Grown s t) (h' : Grown t u) : Grown s u := by
  refine ⟨fun p hp hne => ?_, fun p hp hne => ?_, h'.size.trans h.size⟩
  · have hkept := h.kept p hp hne
    rw [h'.kept p hp (hkept ▸ hne), hkept]
  · have hkept := h.kept p hp.1 hne
    have hdata := h'.data p hp (hkept ▸ hne)
    rw [hkept] at hdata
    rw [hdata, h.data p hp hne]

theorem newBlock_cases (s : State) (pick : Pick) : s.newBlock pick = (0, s) ∨
    ∃ z, z ≠ 0 ∧ z < 65536 ∧ s.used z = false ∧ s.newBlock pick = (z, s.fresh z) := by
  rw [State.newBlock]
  cases pick s.used with
  | none => exact Or.inl rfl
  | some z =>
    dsimp only
    by_cases h : z = 0 ∨ 65536 ≤ z ∨ s.used z = true
    · rw [if_pos h]
      exact Or.inl rfl
    · rw [if_neg h]
      rw [not_or, not_or, not_le, Bool.not_eq_true] at h
      exact Or.inr ⟨z, h.1, h.2.1, h.2.2, rfl⟩

theorem get_place (h : s.Reached p) : s.get (s.place p) = s.at p := by
  cases p with
  | top k => rfl
  | under r j =>
    rw [State.at, if_neg h]
    rfl

theorem under_ne (p : Spot) (j : ℕ) : Spot.under p j ≠ p := by
  intro h
  have hsize := congrArg sizeOf h
  rw [Spot.under.sizeOf_spec] at hsize
  omega

/-- **One spot has got a zone**, and the others have what they had: the induction is on the spot. -/
theorem at_set (h : Sound s) (hp : p.Ok) (hreach : s.Reached p) (h0 : s.at p = 0) (hz : z ≠ 0)
    (hlt : z < 65536) (hfree : s.used z = false) (q : Spot) (hq : q.Ok) :
    ((s.fresh z).set z (s.place p)).at q = if q = p then z else s.at q := by
  have hother : ∀ r, r.Ok → s.at r ≠ 0 → s.at r ≠ z := by
    intro r hr hne heq
    have hused := h.used r hr hne
    rw [heq, hfree] at hused
    cases hused
  induction q with
  | top k =>
    cases p with
    | top k' =>
      change Function.update s.zone k' z k = _
      by_cases hk : k = k'
      · rw [hk, Function.update_self, if_pos rfl]
      · rw [Function.update_of_ne hk, if_neg fun h => hk (Spot.top.inj h)]
        rfl
    | under r i =>
      rw [if_neg fun h => Spot.noConfusion h]
      rfl
  | under r' j ih =>
    have hr' := hq.1.ok
    have ih := ih hr'
    rw [State.at, ih]
    by_cases hrp : r' = p
    · -- the table is the new zone
      subst hrp
      rw [if_pos rfl, if_neg hz, if_neg (under_ne _ j), State.at, if_pos h0]
      cases r' with
      | top k => exact word_fresh_self s z j
      | under r i =>
        have hne := hother r hp.1.ok hreach
        exact (word_congr (data_setWord_of_ne _ i z (Ne.symm hne)) j).trans (word_fresh_self s z j)
    · rw [if_neg hrp]
      by_cases hr0 : s.at r' = 0
      · rw [if_pos hr0, if_neg fun h => ?_, State.at, if_pos hr0]
        rw [← h] at hreach
        exact hreach hr0
      · rw [if_neg hr0]
        have hne := hother r' hr' hr0
        cases p with
        | top k =>
          rw [if_neg fun h => Spot.noConfusion h, State.at, if_neg hr0]
          exact word_fresh_of_ne s j hne
        | under r i =>
          by_cases hrr : r' = r
          · subst hrr
            by_cases hj : j = i
            · subst hj
              rw [if_pos rfl]
              exact word_setWord_self _ _ _ hlt
            · rw [if_neg fun h => hj (Spot.under.inj h).2, State.at, if_neg hr0]
              exact (word_setWord_of_ne _ _ hj).trans (word_fresh_of_ne s j hne)
          · rw [if_neg fun h => hrr (Spot.under.inj h).1, State.at, if_neg hr0]
            have hrne : s.at r' ≠ s.at r := fun heq =>
              hrr (h.inj r' r hr' hp.1.ok hr0 heq)
            exact (word_congr (data_setWord_of_ne _ i z hrne) j).trans (word_fresh_of_ne s j hne)

/-- **A spot is filled**, if it is empty and there is a zone. -/
theorem Sound.fill (h : Sound s) (hp : p.Ok) (hreach : s.Reached p) :
    Sound (s.fill pick true (s.place p)) ∧ Grown s (s.fill pick true (s.place p)) ∧
      (s.at p ≠ 0 → s.fill pick true (s.place p) = s) := by
  rw [State.fill, get_place hreach]
  by_cases h0 : s.at p = 0
  · rw [if_pos ⟨rfl, h0⟩]
    rcases newBlock_cases s pick with hnew | ⟨z, hz, hlt, hfree, hnew⟩
    · rw [hnew, if_neg fun h => h rfl]
      exact ⟨h, Grown.refl s, fun _ => rfl⟩
    · rw [hnew, if_pos hz]
      have hat := at_set h hp hreach h0 hz hlt hfree
      have hother : ∀ q, q.Ok → s.at q ≠ 0 → s.at q ≠ z := by
        intro q hq hne heq
        have hused := h.used q hq hne
        rw [heq, hfree] at hused
        cases hused
      have hsize : ((s.fresh z).set z (s.place p)).size = s.size ∧
          ((s.fresh z).set z (s.place p)).used = (s.fresh z).used ∧
          ((s.fresh z).set z (s.place p)).readable = (s.fresh z).readable := by
        cases p with
        | top k => exact ⟨rfl, rfl, rfl⟩
        | under r i => exact ⟨rfl, rfl, rfl⟩
      obtain ⟨hsize, hused, hreadable⟩ := hsize
      refine ⟨⟨fun q q' hq hq' hne heq => ?_, fun q hq hne => ?_, fun q hq hne => ?_⟩,
        ⟨fun q hq hne => ?_, fun q hq hne => ?_, hsize⟩, fun hne => absurd h0 hne⟩
      · rw [hat q hq] at hne heq
        rw [hat q' hq'] at heq
        split_ifs at hne heq with h1 h2 h2
        · rw [h1, h2]
        · exact absurd heq.symm (hother q' hq' (heq ▸ hne))
        · exact absurd heq (hother q hq hne)
        · exact h.inj q q' hq hq' hne heq
      · rw [hat q hq] at hne ⊢
        rw [hused, State.fresh]
        dsimp only
        split_ifs at hne ⊢ with h1
        · exact Function.update_self _ _ _
        · rw [Function.update_of_ne (hother q hq hne)]
          exact h.used q hq hne
      · rw [hat q hq] at hne ⊢
        rw [hreadable, State.fresh]
        dsimp only
        split_ifs at hne ⊢ with h1
        · exact Function.update_self _ _ _
        · rw [Function.update_of_ne (hother q hq hne)]
          exact h.readable q hq hne
      · rw [hat q hq, if_neg]
        rintro rfl
        exact hne h0
      · have hz := hother q hq.1 hne
        cases p with
        | top k => exact Function.update_of_ne hz _ _
        | under r i =>
          -- a table is no data
          have hr : s.at q ≠ s.at r := by
            intro heq
            obtain rfl := h.inj q r hq.1 hp.1.ok hne heq
            exact hq.2 hp.1
          exact (data_setWord_of_ne _ i z hr).trans (Function.update_of_ne hz _ _)
  · rw [if_neg fun h => h0 h.2]
    exact ⟨h, Grown.refl s, fun _ => rfl⟩

/-! ### What is outside a file -/

/-- **Nothing outside a file has changed**, and nothing that was in use outside has come into it. -/
structure Outside (s t : State) : Prop where
  data : ∀ x, s.used x = true → (∀ p : Spot, p.Ok → s.at p ≠ x) → t.data x = s.data x
  readable : ∀ x, s.used x = true → t.readable x = s.readable x
  used : ∀ x, s.used x = true → t.used x = true
  apart : ∀ x, s.used x = true → (∀ p : Spot, p.Ok → s.at p ≠ x) →
    ∀ p : Spot, p.Ok → t.at p ≠ x

theorem Outside.refl (s : State) : Outside s s :=
  ⟨fun _ _ _ => rfl, fun _ _ => rfl, fun _ h => h, fun _ _ h => h⟩

theorem Outside.trans {u : State} (h : Outside s t) (h' : Outside t u) : Outside s u :=
  ⟨fun x hx hno => (h'.data x (h.used x hx) (h.apart x hx hno)).trans (h.data x hx hno),
    fun x hx => (h'.readable x (h.used x hx)).trans (h.readable x hx),
    fun x hx => h'.used x (h.used x hx),
    fun x hx hno => h'.apart x (h.used x hx) (h.apart x hx hno)⟩

/-- **A spot that is filled** takes a zone that was free. -/
theorem Sound.fill_outside (h : Sound s) (hp : p.Ok) (hreach : s.Reached p) :
    Outside s (s.fill pick true (s.place p)) := by
  rw [State.fill, get_place hreach]
  by_cases h0 : s.at p = 0
  · rw [if_pos ⟨rfl, h0⟩]
    rcases newBlock_cases s pick with hnew | ⟨z, hz, hlt, hfree, hnew⟩
    · rw [hnew, if_neg fun h => h rfl]
      exact Outside.refl s
    · rw [hnew, if_pos hz]
      have hat := at_set h hp hreach h0 hz hlt hfree
      have hne : ∀ x, s.used x = true → x ≠ z := by
        rintro x hx rfl
        exact Bool.noConfusion (hx.symm.trans hfree)
      have hsame : ((s.fresh z).set z (s.place p)).used = (s.fresh z).used ∧
          ((s.fresh z).set z (s.place p)).readable = (s.fresh z).readable := by
        cases p with
        | top k => exact ⟨rfl, rfl⟩
        | under r i => exact ⟨rfl, rfl⟩
      refine ⟨fun x hx hno => ?_, fun x hx => ?_, fun x hx => ?_, fun x hx hno q hq => ?_⟩
      · have hfresh : (s.fresh z).data x = s.data x := Function.update_of_ne (hne x hx) _ _
        cases p with
        | top k => exact hfresh
        | under r i => exact (data_setWord_of_ne _ i z (hno r hp.1.ok).symm).trans hfresh
      · rw [hsame.2]
        exact Function.update_of_ne (hne x hx) _ _
      · rw [hsame.1]
        exact (Function.update_of_ne (hne x hx) _ _).trans hx
      · rw [hat q hq]
        split_ifs
        · exact (hne x hx).symm
        · exact hno q hq
  · rw [if_neg fun h => h0 h.2]
    exact Outside.refl s

/-! ### `bmap` and `create_block` -/

/-- The zone that hangs from a spot whose table is there. -/
theorem at_under (h : s.at r ≠ 0) (j : ℕ) : s.at (.under r j) = s.word (s.at r) j := by
  rw [State.at, if_neg h]

theorem at_under_eq_zero (h : s.at r = 0) (j : ℕ) : s.at (.under r j) = 0 := by
  rw [State.at, if_pos h]

/-- A number in the inode. -/
theorem fill_top (h : Sound s) (pick : Pick) (hk : k < 9) : ∃ t,
    s.fill pick true (.zone k) = t ∧ Sound t ∧ Grown s t ∧ (s.at (.top k) ≠ 0 → t = s) := by
  obtain ⟨hsound, hgrown, hsame⟩ := @Sound.fill s pick (.top k) h hk trivial
  exact ⟨_, rfl, hsound, hgrown, hsame⟩

/-- A number in a table. -/
theorem fill_under (h : Sound s) (pick : Pick) (hp : (Spot.under r j).Ok) (hr : s.at r ≠ 0) :
    ∃ t, s.fill pick true (.word (s.at r) j) = t ∧ t.word (s.at r) j = t.at (.under r j) ∧
      Sound t ∧ Grown s t ∧ (s.at (.under r j) ≠ 0 → t = s) := by
  obtain ⟨hsound, hgrown, hsame⟩ := @Sound.fill s pick (.under r j) h hp hr
  have hkept := hgrown.kept r hp.1.ok hr
  refine ⟨_, rfl, ?_, hsound, hgrown, hsame⟩
  have hunder := at_under (j := j) (hkept.symm ▸ hr)
  rw [hkept] at hunder
  exact hunder.symm

/-- The table that hangs from a spot can be read. -/
theorem Sound.not_missing (h : Sound s) (hr : r.Ok) (hne : s.at r ≠ 0) :
    ¬(s.at r = 0 ∨ s.readable (s.at r) = false) := by
  rintro (h0 | hbad)
  · exact hne h0
  · rw [h.readable r hr hne] at hbad
    cases hbad

/-- **`create_block`**: no zone becomes another one, and if there is a zone nothing happens. -/
theorem create_spec (h : Sound s) (pick : Pick) (hlt : block < maxBlock) : ∃ t,
    bmap pick true block s = .ok (t.at (.ofBlock block), t) ∧ Sound t ∧ Grown s t ∧
      (s.at (.ofBlock block) ≠ 0 → t = s) := by
  have hok := (Spot.data_ofBlock hlt).1
  have hzone : ∀ (t : State) k, t.zone k = t.at (.top k) := fun _ _ => rfl
  rw [bmap, if_neg (by omega)]
  rw [Spot.ofBlock] at hok ⊢
  by_cases h7 : block < 7
  · rw [if_pos h7] at hok
    rw [if_pos h7, if_pos h7]
    obtain ⟨t, ht, hsound, hgrown, hsame⟩ := fill_top h pick hok
    rw [ht]
    exact ⟨t, rfl, hsound, hgrown, hsame⟩
  rw [if_neg h7] at hok
  rw [if_neg h7, if_neg h7]
  by_cases h512 : block - 7 < 512
  · rw [if_pos h512] at hok
    rw [if_pos h512, if_pos h512]
    obtain ⟨t, ht, hsound, hgrown, hsame⟩ := fill_top h pick hok.1.ok
    rw [ht]
    dsimp only
    rw [hzone]
    by_cases h0 : t.at (.top 7) = 0
    · rw [if_pos (Or.inl h0)]
      refine ⟨t, ?_, hsound, hgrown, fun hne => hsame fun h0 => hne (at_under_eq_zero h0 _)⟩
      rw [at_under_eq_zero h0]
    · obtain ⟨u, hu, hword, hsound', hgrown', hsame'⟩ := fill_under hsound pick hok h0
      rw [if_neg (hsound.not_missing hok.1.ok h0), hu, hword]
      refine ⟨u, rfl, hsound', hgrown.trans hgrown', fun hne => ?_⟩
      obtain rfl := hsame fun h0 => hne (at_under_eq_zero h0 _)
      exact hsame' hne
  rw [if_neg h512] at hok
  rw [if_neg h512, if_neg h512]
  set n := block - 7 - 512
  have hmid : (Spot.under (.top 8) (n / 512)).Ok := hok.1.ok
  obtain ⟨t, ht, hsound, hgrown, hsame⟩ := fill_top h pick hmid.1.ok
  rw [ht]
  dsimp only
  rw [hzone]
  by_cases h0 : t.at (.top 8) = 0
  · rw [if_pos (Or.inl h0)]
    refine ⟨t, ?_, hsound, hgrown, fun hne => hsame fun h0 =>
      hne (at_under_eq_zero (at_under_eq_zero h0 _) _)⟩
    rw [at_under_eq_zero (at_under_eq_zero h0 _)]
  obtain ⟨u, hu, hword, hsound', hgrown', hsame'⟩ := fill_under hsound pick hmid h0
  rw [if_neg (hsound.not_missing hmid.1.ok h0), hu, hword]
  have hsame₁ : s.at (.under (.under (.top 8) (n / 512)) (n % 512)) ≠ 0 → u = s := by
    intro hne
    have hne' : s.at (.under (.top 8) (n / 512)) ≠ 0 := fun h0 => hne (at_under_eq_zero h0 _)
    obtain rfl := hsame fun h0 => hne' (at_under_eq_zero h0 _)
    exact hsame' hne'
  by_cases h1 : u.at (.under (.top 8) (n / 512)) = 0
  · rw [if_pos (Or.inl h1)]
    refine ⟨u, ?_, hsound', hgrown.trans hgrown', hsame₁⟩
    rw [at_under_eq_zero h1]
  obtain ⟨v, hv, hword', hsound'', hgrown'', hsame''⟩ := fill_under hsound' pick hok h1
  rw [if_neg (hsound'.not_missing hmid h1), hv, hword']
  refine ⟨v, rfl, hsound'', (hgrown.trans hgrown').trans hgrown'', fun hne => ?_⟩
  obtain rfl := hsame₁ hne
  exact hsame'' hne

/-- **`bmap`** finds the zone of a block, and changes nothing. -/
theorem bmap_spec (h : Sound s) (pick : Pick) (hlt : block < maxBlock) :
    bmap pick false block s = .ok (s.at (.ofBlock block), s) := by
  have hfill : ∀ (s : State) p, s.fill pick false p = s := by
    intro s p
    rw [State.fill, if_neg fun h => Bool.false_ne_true h.1]
  have hok := (Spot.data_ofBlock hlt).1
  have hzone : ∀ (t : State) k, t.zone k = t.at (.top k) := fun _ _ => rfl
  rw [bmap, if_neg (by omega)]
  rw [Spot.ofBlock] at hok ⊢
  by_cases h7 : block < 7
  · rw [if_pos h7, if_pos h7, hfill]
    rfl
  rw [if_neg h7] at hok
  rw [if_neg h7, if_neg h7]
  by_cases h512 : block - 7 < 512
  · rw [if_pos h512] at hok
    rw [if_pos h512, if_pos h512, hfill]
    dsimp only
    rw [hzone, hfill]
    by_cases h0 : s.at (.top 7) = 0
    · rw [if_pos (Or.inl h0), at_under_eq_zero h0]
    · rw [if_neg (h.not_missing hok.1.ok h0), at_under h0]
  rw [if_neg h512] at hok
  rw [if_neg h512, if_neg h512, hfill]
  set n := block - 7 - 512
  have hmid : (Spot.under (.top 8) (n / 512)).Ok := hok.1.ok
  dsimp only
  rw [hzone, hfill, hfill]
  by_cases h0 : s.at (.top 8) = 0
  · rw [if_pos (Or.inl h0), at_under_eq_zero (at_under_eq_zero h0 _)]
  rw [if_neg (h.not_missing hmid.1.ok h0), ← at_under h0]
  by_cases h1 : s.at (.under (.top 8) (n / 512)) = 0
  · rw [if_pos (Or.inl h1), at_under_eq_zero h1]
  · rw [if_neg (h.not_missing hmid h1), at_under h1]

end Linux011.Fs.Bmap

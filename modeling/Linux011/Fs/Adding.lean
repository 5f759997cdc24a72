import Linux011.Fs.Effects

/-!
# `add_entry` with counts

`create_block` and `add_entry` do to the blocks of a directory what they do without counts
(`Linux011.Fs.Directory.addEntry`), where `new_block` gives the first zone that is free; and but for
the buffer of the entry that is returned no count is another one (`Linux011.Fs.Names.addEntry_eq`).
The tables that are read in between are given back.
-/

namespace Linux011.Fs.Names

open Bmap (State Place Spot Outside)
open Directory (Pointer Dir slot)

variable {s s' s'' : Kernel} {id dir : Id} {k : ℕ × ℕ} {name : List UInt8}
  {e : Pointer} {dev i n b o z block : ℕ} {held : Bool} {t u : State} {p : Place}

/-! ### Zones that are in use -/

/-- What `new_block` looks for. -/
def firstFree (used : ℕ → Bool) : Option ℕ := (List.range 65536).find? fun z => used z = false

/-- The number of a zone is a short. -/
def Short (s : Kernel) : Prop := ∀ d sb, s.bitmap.super d = some sb → sb.nzones ≤ 65536

theorem Short.steady (h : Short s) (hs : Steady s s') : Short s' := by
  intro d sb hd
  have hshape := hs.shape d
  rw [hd] at hshape
  obtain ⟨sb₀, hsb₀, heq⟩ := Option.map_eq_some_iff.mp hshape.symm
  have hn : sb₀.nzones = sb.nzones := congrArg (fun x => x.2.1) heq
  exact hn ▸ h d sb₀ hsb₀

/-- **A zone that is free.** -/
theorem used_eq_false : s.used dev z = false ↔
    (dev, z) ∈ s.bitmap.allZones ∧ (dev, z) ∉ s.bitmap.zones := by
  rw [Kernel.used]
  cases hs : s.bitmap.super dev with
  | none =>
    refine ⟨fun h => absurd h.symm Bool.false_ne_true, fun h => ?_⟩
    obtain ⟨sb, hsb, -⟩ := h.1
    cases hs.symm.trans hsb
  | some sb =>
    have hzones : (dev, z) ∈ s.bitmap.zones ↔ sb.HasZone z ∧ sb.zoneBit z = true :=
      Bitmap.mem_such hs
    rw [show ((dev, z) ∈ s.bitmap.allZones) = _ from propext (Bitmap.mem_such hs), hzones]
    dsimp only
    rw [Bool.or_eq_false_iff, Bool.not_eq_false', decide_eq_true_eq, not_and, Bool.not_eq_true]
    exact and_congr_right fun hz => ⟨fun h _ => h, fun h => h hz⟩

theorem used_congr (hall : s'.bitmap.allZones = s.bitmap.allZones)
    (hz : (dev, z) ∈ s'.bitmap.zones ↔ (dev, z) ∈ s.bitmap.zones) :
    s'.used dev z = s.used dev z := by
  rw [Bool.eq_iff_iff, ← not_iff_not, Bool.not_eq_true, Bool.not_eq_true, used_eq_false,
    used_eq_false, hall, hz]

/-- **The zones that are in use**, after `new_block`. -/
theorem NewBlock.used (h : NewBlock s dev z s') : s'.used dev =
    if z = 0 then s.used dev else Function.update (s.used dev) z true := by
  have hall := h.shape.allZones
  have hzones := h.zones
  by_cases h0 : z = 0
  · rw [if_pos h0] at hzones ⊢
    funext z'
    exact used_congr hall (by rw [hzones])
  · rw [if_neg h0] at hzones ⊢
    funext z'
    by_cases hz : z' = z
    · rw [hz, Function.update_self, ← Bool.not_eq_false, used_eq_false, hzones]
      exact fun hfree => hfree.2 (Set.mem_insert _ _)
    · rw [Function.update_of_ne hz]
      refine used_congr hall ?_
      rw [hzones, Set.mem_insert_iff, or_iff_right]
      exact fun heq => hz (Prod.mk.inj heq).2

/-- **`new_block` is the one that is known without counts.** -/
theorem NewBlock.eq (h : NewBlock s id.dev z s') (hshort : Short s) :
    (s.file id).newBlock firstFree =
      (z, if z = 0 then s.file id else (s.file id).fresh z) := by
  rw [State.newBlock]
  by_cases h0 : z = 0
  · have hnone : firstFree (s.file id).used = none := by
      rw [firstFree, List.find?_range_eq_none]
      intro z' _
      rw [Bool.not_eq_true', decide_eq_false_iff_not]
      intro hfree
      obtain ⟨hall, hnot⟩ := used_eq_false.mp hfree
      exact hnot (h.full h0 z' hall)
    rw [hnone, h0, if_pos rfl]
  · obtain ⟨hall, hnot⟩ := h.mem h0
    have hfree : (s.file id).used z = false := used_eq_false.mpr ⟨hall, hnot⟩
    obtain ⟨sb, hsb, -, hhigh⟩ := hall
    have hlt : z < 65536 := lt_of_lt_of_le hhigh (hshort _ sb hsb)
    have hsome : firstFree (s.file id).used = some z := by
      rw [firstFree, List.find?_range_eq_some]
      refine ⟨decide_eq_true hfree, List.mem_range.mpr hlt, fun z' hz' => ?_⟩
      rw [Bool.not_eq_true', decide_eq_false_iff_not]
      intro hfree'
      obtain ⟨hall', hnot'⟩ := used_eq_false.mp hfree'
      exact hnot' (h.first z' hz' hall')
    rw [hsome]
    dsimp only
    rw [if_neg h0, if_neg]
    rintro (h | h | h)
    · exact h0 h
    · omega
    · exact Bool.noConfusion (hfree.symm.trans h)

/-! ### What follows a file -/

/-- **The file has become another one**, and no count has changed. -/
structure Follows (id : Id) (s s' : Kernel) (t : State) : Prop extends Steady s s' where
  file : s'.file id = t
  inode : s'.inode = Function.update s.inode id { s.inode id with zone := t.zone, size := t.size }
  iCount : s'.iCount = s.iCount
  bCount : s'.bCount = s.bCount
  inodes : s'.bitmap.inodes = s.bitmap.inodes
  zones : s.bitmap.zones ⊆ s'.bitmap.zones
  elsewhere : ∀ d ≠ id.dev, s'.data d = s.data d ∧ s'.readable d = s.readable d

theorem Follows.refl (h : Bitmap.Consistent s.bitmap) (id : Id) : Follows id s s (s.file id) :=
  ⟨Steady.refl h, rfl, (Function.update_eq_self id s.inode).symm, rfl, rfl, rfl, subset_rfl,
    fun _ _ => ⟨rfl, rfl⟩⟩

theorem Follows.trans (h : Follows id s s' t) (h' : Follows id s' s'' u) : Follows id s s'' u := by
  refine ⟨h.toSteady.trans h'.toSteady, h'.file, ?_, h'.iCount.trans h.iCount,
    h'.bCount.trans h.bCount, h'.inodes.trans h.inodes, h.zones.trans h'.zones, fun d hd => ?_⟩
  · rw [h'.inode, h.inode, Function.update_self, Function.update_idem]
  · obtain ⟨hdata, hread⟩ := h.elsewhere d hd
    obtain ⟨hdata', hread'⟩ := h'.elsewhere d hd
    exact ⟨hdata'.trans hdata, hread'.trans hread⟩

/-- **The file that has been stored**: what can be read, and what is in use, stay as they are. -/
theorem file_store (hread : t.readable = (s.file id).readable)
    (hused : t.used = (s.file id).used) : (s.store id t).file id = t := by
  obtain ⟨data, readable, used, zone, size⟩ := t
  obtain rfl : readable = s.readable id.dev := hread
  obtain rfl : used = s.used id.dev := hused
  change State.mk (Function.update s.data id.dev data id.dev) _ _
    (Function.update s.inode id _ id).zone (Function.update s.inode id _ id).size = _
  rw [Function.update_self, Function.update_self]
  rfl

theorem follows_store (h : Bitmap.Consistent s.bitmap) (hread : t.readable = (s.file id).readable)
    (hused : t.used = (s.file id).used) : Follows id s (s.store id t) t :=
  ⟨⟨rfl, rfl, rfl, fun _ => rfl, h⟩, file_store hread hused, rfl, rfl, rfl, rfl, subset_rfl,
    fun _ hd => ⟨Function.update_of_ne hd .., rfl⟩⟩

theorem readable_set (t : State) (p : Place) : (t.set z p).readable = t.readable := by
  cases p with
  | zone k => rfl
  | word z i => rfl

theorem used_set (t : State) (p : Place) : (t.set z p).used = t.used := by
  cases p with
  | zone k => rfl
  | word z i => rfl

/-- What `new_block` does to a file of the device. -/
theorem NewBlock.follows (h : NewBlock s id.dev z s') :
    Follows id s s' (if z = 0 then s.file id else (s.file id).fresh z) := by
  have hzone : ∀ t : State, (if z = 0 then s.file id else (s.file id).fresh z) = t →
      t.zone = (s.file id).zone ∧ t.size = (s.file id).size := by
    intro t ht
    rw [← ht]
    split_ifs
    · exact ⟨rfl, rfl⟩
    · exact ⟨rfl, rfl⟩
  obtain ⟨hz, hsize⟩ := hzone _ rfl
  refine ⟨h.toSteady, ?_, ?_, h.iCount, h.bCount, h.inodes, ?_, fun d hd => ?_⟩
  · have hdata := h.data
    have hread := h.readable
    have hused := h.used
    rw [Kernel.file, hdata, hread, hused, h.inode]
    split_ifs
    · rfl
    · rw [Function.update_self, Function.update_self]
      rfl
  · rw [hz, hsize, h.inode]
    exact (Function.update_eq_self id s.inode).symm
  · rw [h.zones]
    split_ifs
    · exact subset_rfl
    · exact Set.subset_insert _ _
  · rw [h.data, h.readable]
    split_ifs
    · exact ⟨rfl, rfl⟩
    · exact ⟨Function.update_of_ne hd .., Function.update_of_ne hd ..⟩

/-- The blocks of a file are in use. -/
def Kernel.Inside (s : Kernel) (id : Id) : Prop :=
  ∀ p : Spot, p.Ok → (s.file id).at p ≠ 0 → (id.dev, (s.file id).at p) ∈ s.bitmap.zones

/-- **The file has grown**: what hangs from none of its spots is as it was. -/
structure Grows (id : Id) (s s' : Kernel) (t : State) : Prop extends Follows id s s' t where
  outside : Outside (s.file id) t
  inside : s.Inside id → s'.Inside id

theorem Grows.refl (h : Bitmap.Consistent s.bitmap) (id : Id) : Grows id s s (s.file id) :=
  ⟨Follows.refl h id, Outside.refl _, fun h => h⟩

theorem Grows.trans (h : Grows id s s' t) (h' : Grows id s' s'' u) : Grows id s s'' u := by
  have houtside := h'.outside
  rw [h.file] at houtside
  exact ⟨h.toFollows.trans h'.toFollows, h.outside.trans houtside,
    fun hin => h'.inside (h.inside hin)⟩

theorem fill_follows (hc : Bitmap.Consistent s.bitmap) (hshort : Short s) {sb : Super}
    (hs : s.getSuper id.dev = some sb) (p : Place) : ∃ s', fill true id p s = .ok ⟨⟩ s' ∧
      Follows id s s' ((s.file id).fill firstFree true p) := by
  rw [fill, get_bind, State.fill]
  by_cases h0 : (s.file id).get p = 0
  · rw [if_pos ⟨rfl, h0⟩, if_pos ⟨rfl, h0⟩]
    obtain ⟨z, s₁, hrun, hnew⟩ := newBlock_spec hc hs
    have hfollows := hnew.follows
    rw [bind_ok hrun, hnew.eq hshort]
    dsimp only
    by_cases hz : z = 0
    · rw [if_pos hz, if_neg fun h => h hz]
      exact ⟨s₁, rfl, hfollows⟩
    · rw [if_neg hz, if_pos hz]
      have hstore : Follows id s₁ (s₁.store id ((s₁.file id).set z p)) ((s₁.file id).set z p) :=
        follows_store hfollows.maps (readable_set _ p) (used_set _ p)
      refine ⟨_, rfl, hfollows.trans ?_⟩
      rw [hfollows.file] at hstore
      change Follows id s₁ (s₁.store id ((s₁.file id).set z p)) _
      rw [hfollows.file]
      exact hstore
  · rw [if_neg fun h => h0 h.2, if_neg fun h => h0 h.2]
    exact ⟨s, rfl, Follows.refl hc id⟩

theorem not_free_of_used (h : s.used dev z = true) (hall : (dev, z) ∈ s.bitmap.allZones) :
    (dev, z) ∈ s.bitmap.zones := by
  by_contra hnot
  exact Bool.noConfusion (h.symm.trans (used_eq_false.mpr ⟨hall, hnot⟩))

/-- The zone of a spot that has been filled is in use. -/
theorem fill_inside {p : Spot} (hsound : Bmap.Sound (s.file id)) (hp : p.Ok)
    (hreach : (s.file id).Reached p)
    (h : Follows id s s' ((s.file id).fill firstFree true ((s.file id).place p)))
    (hin : s.Inside id) : s'.Inside id := by
  have hfile := h.file
  intro q hq hne
  rw [State.fill, Bmap.get_place hreach] at hfile
  by_cases h0 : (s.file id).at p = 0
  · rw [if_pos ⟨rfl, h0⟩] at hfile
    rcases Bmap.newBlock_cases (s.file id) firstFree with hnew | ⟨z, hz, hlt, hfree, hnew⟩
    · rw [hnew, if_neg fun h => h rfl] at hfile
      rw [hfile] at hne ⊢
      exact h.zones (hin q hq hne)
    · rw [hnew, if_pos hz] at hfile
      have hat := Bmap.at_set hsound hp hreach h0 hz hlt hfree q hq
      rw [hfile, hat] at hne ⊢
      split_ifs at hne ⊢
      · -- the new zone
        refine not_free_of_used ?_ ?_
        · have hused : (s'.file id).used z = true := by
            rw [hfile, used_set]
            exact Function.update_self ..
          exact hused
        · rw [h.shape.allZones]
          exact (used_eq_false.mp hfree).1
      · exact h.zones (hin q hq hne)
  · rw [if_neg fun h => h0 h.2] at hfile
    rw [hfile] at hne ⊢
    exact h.zones (hin q hq hne)

/-- **A spot is filled**, with counts. -/
theorem fill_spec (hc : Bitmap.Consistent s.bitmap) (hshort : Short s) {sb : Super}
    (hs : s.getSuper id.dev = some sb) (hsound : Bmap.Sound (s.file id)) {p : Spot} (hp : p.Ok)
    (hreach : (s.file id).Reached p) : ∃ s', fill true id ((s.file id).place p) s = .ok ⟨⟩ s' ∧
      Grows id s s' ((s.file id).fill firstFree true ((s.file id).place p)) := by
  obtain ⟨s', hrun, hfollows⟩ := fill_follows hc hshort hs ((s.file id).place p)
  exact ⟨s', hrun, hfollows, hsound.fill_outside hp hreach, fill_inside hsound hp hreach hfollows⟩

/-- **A table that has been read is given back.** -/
theorem Grows.ungrab (h : Grows id (s.grab k) s' t) :
    ∃ s'', brelse k s' = .ok ⟨⟩ s'' ∧ Grows id s s'' t := by
  have hcount : s'.bCount k = s.bCount k + 1 := by
    rw [h.bCount, grab_self]
  refine ⟨{ s' with bCount := Function.update s'.bCount k (s'.bCount k - 1) }, ?_,
    ⟨⟨⟨h.super, h.task, h.umask, h.shape, h.maps.cache rfl fun k' b hk' hfree hb => ?_⟩, h.file,
      h.inode, h.iCount, ?_, h.inodes, h.zones, h.elsewhere⟩, h.outside, h.inside⟩⟩
  · rw [brelse, get_bind, if_neg (by omega), set_run]
  · obtain rfl := Option.some.inj hb
    have hzero : s'.bCount k' = 0 := h.maps.unused k' _ hk' hfree rfl
    have hne : k' ≠ k := by
      rintro rfl
      omega
    exact (Function.update_of_ne hne ..).trans hzero
  · dsimp only
    rw [h.bCount, Kernel.grab]
    exact update_back s.bCount k

/-- **The number in a table**, where a zone may have been created. -/
theorem inTable_spec (hc : Bitmap.Consistent s.bitmap) (hshort : Short s) {sb : Super}
    (hs : s.getSuper id.dev = some sb) (hsound : Bmap.Sound (s.file id)) {r : Spot}
    (hp : (Spot.under r i).Ok) (hb : (s.file id).at r = b) :
    ∃ s', inTable true id b i s =
        .ok (if b = 0 ∨ (s.file id).readable b = false then 0
          else ((s.file id).fill firstFree true (.word b i)).word b i) s' ∧
      Grows id s s' (if b = 0 ∨ (s.file id).readable b = false then s.file id
        else (s.file id).fill firstFree true (.word b i)) := by
  rw [inTable]
  by_cases h0 : b = 0
  · rw [if_pos h0, if_pos (Or.inl h0), if_pos (Or.inl h0)]
    exact ⟨s, rfl, Grows.refl hc id⟩
  have hreach : (s.file id).at r ≠ 0 := hb.symm ▸ h0
  have hmiss := hsound.not_missing hp.1.ok hreach
  rw [hb] at hmiss
  have hread : s.readable id.dev b = true := hb ▸ hsound.readable r hp.1.ok hreach
  have hused : (s.file id).used b = true := hb ▸ hsound.used r hp.1.ok hreach
  have hfile : (s.grab (id.dev, b)).file id = s.file id := rfl
  rw [if_neg h0, if_neg hmiss, if_neg hmiss,
    bind_ok (bread_ok hread), if_pos rfl]
  obtain ⟨s₁, hrun, hgrows⟩ := @fill_spec (s.grab (id.dev, b)) id
    (consistent_grab hc (not_free_of_used hused)) hshort sb hs hsound (.under r i) hp hreach
  rw [hfile, State.place, hb] at hrun hgrows
  obtain ⟨s₂, hrelease, hgrows'⟩ := hgrows.ungrab
  refine ⟨s₂, ?_, hgrows'⟩
  rw [bind_ok hrun, get_bind, hgrows.file, bind_ok hrelease]
  rfl

theorem Follows.getSuper (h : Follows id s s' t) (d : ℕ) : s'.getSuper d = s.getSuper d := by
  rw [Kernel.getSuper, Kernel.getSuper, h.super]

/-- **The number in a table** of a file that has grown so far. -/
theorem Grows.inTable (h : Grows id s s' t) (hshort : Short s) {sb : Super}
    (hs : s.getSuper id.dev = some sb) (hsound : Bmap.Sound t) {r : Spot}
    (hp : (Spot.under r i).Ok) (hb : t.at r = b) :
    ∃ s'', inTable true id b i s' = .ok (if b = 0 ∨ t.readable b = false then 0
        else (t.fill firstFree true (.word b i)).word b i) s'' ∧
      Grows id s s'' (if b = 0 ∨ t.readable b = false then t
        else t.fill firstFree true (.word b i)) := by
  obtain rfl := h.file
  obtain ⟨s'', hrun, hgrows⟩ := inTable_spec h.maps (hshort.steady h.toSteady)
    ((h.getSuper _).trans hs) hsound hp hb
  exact ⟨s'', hrun, h.trans hgrows⟩

/-- **`create_block`** does to a file what it does without counts. -/
theorem bmap_spec (hc : Bitmap.Consistent s.bitmap) (hshort : Short s) {sb : Super}
    (hs : s.getSuper id.dev = some sb) (hsound : Bmap.Sound (s.file id))
    (h : Bmap.bmap firstFree true block (s.file id) = .ok (z, t)) :
    ∃ s', bmap true id block s = .ok z s' ∧ Grows id s s' t := by
  have hok : block < Bmap.maxBlock := by
    by_contra hge
    rw [Bmap.bmap, if_pos (by omega)] at h
    cases h
  have hspot := (Spot.data_ofBlock hok).1
  rw [Spot.ofBlock] at hspot
  rw [Bmap.bmap] at h
  rw [bmap]
  rw [if_neg (by omega)] at h ⊢
  by_cases h7 : block < 7
  · rw [if_pos h7] at h hspot ⊢
    obtain ⟨s₁, hrun, hgrows⟩ := fill_spec hc hshort hs hsound hspot trivial
    obtain ⟨rfl, rfl⟩ := Prod.mk.inj (Except.ok.inj h)
    refine ⟨s₁, ?_, hgrows⟩
    rw [State.place] at hrun hgrows
    rw [bind_ok hrun, get_bind, ← hgrows.file]
    rfl
  rw [if_neg h7] at h hspot ⊢
  by_cases h512 : block - 7 < 512
  · rw [if_pos h512] at h hspot ⊢
    obtain ⟨s₁, hrun₁, hgrows₁⟩ := fill_spec hc hshort hs hsound hspot.1.ok trivial
    obtain ⟨hsound₁, -, -⟩ := @Bmap.Sound.fill _ firstFree (.top 7) hsound hspot.1.ok trivial
    rw [State.place] at hrun₁ hgrows₁ hsound₁
    generalize (s.file id).fill firstFree true (.zone 7) = t₁ at h hgrows₁ hsound₁
    obtain ⟨s₂, hrun₂, hgrows₂⟩ := hgrows₁.inTable hshort hs hsound₁ hspot rfl
    have hzone : (s₁.inode id).zone 7 = t₁.at (.top 7) := by
      rw [← hgrows₁.file]
      rfl
    rw [bind_ok hrun₁, get_bind, hzone, hrun₂]
    change (if t₁.at (.top 7) = 0 ∨ t₁.readable (t₁.at (.top 7)) = false then _ else _) = _ at h
    split_ifs at h hgrows₂ ⊢
    · obtain ⟨rfl, rfl⟩ := Prod.mk.inj (Except.ok.inj h)
      exact ⟨s₂, rfl, hgrows₂⟩
    · obtain ⟨rfl, rfl⟩ := Prod.mk.inj (Except.ok.inj h)
      exact ⟨s₂, rfl, hgrows₂⟩
  · rw [if_neg h512] at h hspot ⊢
    dsimp only at h ⊢
    set n := block - 7 - 512
    have hmid : (Spot.under (.top 8) (n / 512)).Ok := hspot.1.ok
    obtain ⟨s₁, hrun₁, hgrows₁⟩ := fill_spec hc hshort hs hsound hmid.1.ok trivial
    obtain ⟨hsound₁, -, -⟩ := @Bmap.Sound.fill _ firstFree (.top 8) hsound hmid.1.ok trivial
    rw [State.place] at hrun₁ hgrows₁ hsound₁
    generalize (s.file id).fill firstFree true (.zone 8) = t₁ at h hgrows₁ hsound₁
    obtain ⟨s₂, hrun₂, hgrows₂⟩ := hgrows₁.inTable hshort hs hsound₁ hmid rfl
    have hzone : (s₁.inode id).zone 8 = t₁.at (.top 8) := by
      rw [← hgrows₁.file]
      rfl
    have htop : t₁.zone 8 = t₁.at (.top 8) := rfl
    rw [bind_ok hrun₁, get_bind, hzone, bind_ok hrun₂]
    rw [htop] at h
    by_cases hmiss : t₁.at (.top 8) = 0 ∨ t₁.readable (t₁.at (.top 8)) = false
    · rw [if_pos hmiss] at h hgrows₂ ⊢
      obtain ⟨rfl, rfl⟩ := Prod.mk.inj (Except.ok.inj h)
      exact ⟨s₂, congrFun (if_pos rfl) _, hgrows₂⟩
    rw [if_neg hmiss] at h hgrows₂ ⊢
    rw [not_or] at hmiss
    -- the table under the table
    obtain ⟨hsound₂, hgrown, -⟩ := @Bmap.Sound.fill _ firstFree (.under (.top 8) (n / 512)) hsound₁
      hmid hmiss.1
    have hkept := hgrown.kept (.top 8) hmid.1.ok hmiss.1
    change Bmap.Sound (t₁.fill firstFree true (.word (t₁.at (.top 8)) (n / 512))) at hsound₂
    change (t₁.fill firstFree true (.word (t₁.at (.top 8)) (n / 512))).at (.top 8) = _ at hkept
    generalize t₁.fill firstFree true (.word (t₁.at (.top 8)) (n / 512)) = t₂ at *
    have hat : t₂.word (t₁.at (.top 8)) (n / 512) = t₂.at (.under (.top 8) (n / 512)) := by
      rw [Bmap.at_under (hkept.symm ▸ hmiss.1), hkept]
    rw [hat] at h ⊢
    obtain ⟨s₃, hrun₃, hgrows₃⟩ := hgrows₂.inTable hshort hs hsound₂ hspot rfl
    rw [hrun₃]
    split_ifs at h hgrows₃ ⊢
    · obtain ⟨rfl, rfl⟩ := Prod.mk.inj (Except.ok.inj h)
      exact ⟨s₃, rfl, hgrows₃⟩
    · obtain ⟨rfl, rfl⟩ := Prod.mk.inj (Except.ok.inj h)
      exact ⟨s₃, rfl, hgrows₃⟩

/-! ### `add_entry` -/

theorem store_file (s : Kernel) (id : Id) : s.store id (s.file id) = s := by
  rw [Kernel.store]
  dsimp only [Kernel.file]
  rw [Function.update_eq_self, Function.update_eq_self]

theorem store_store (s : Kernel) (id : Id) (t u : State) :
    (s.store id t).store id u = s.store id u := by
  rw [Kernel.store, Kernel.store, Kernel.store]
  dsimp only
  rw [Function.update_idem, Function.update_idem, Function.update_self]

/-- An entry that is in use is none that has just been added. -/
theorem extend_of_ino (h : Directory.ino (Directory.extend i t e) e ≠ 0) :
    Directory.extend i t e = t := by
  rw [Directory.extend] at h ⊢
  split_ifs at h ⊢
  · exact absurd (Bmap.word_setWord_self t e.1 (8 * e.2) (by decide)) h
  · rfl

theorem readable_extend (i : ℕ) (t : State) (e : Pointer) :
    (Directory.extend i t e).readable = t.readable := (Directory.wrote_extend i t e).readable

theorem used_extend (i : ℕ) (t : State) (e : Pointer) :
    (Directory.extend i t e).used = t.used := (Directory.wrote_extend i t e).used

/-- **One entry**, in a buffer that is held. -/
theorem tryEntry_eq (s : Kernel) (k : ℕ × ℕ) (i : ℕ) (e : Pointer) (next : K (Option Pointer)) :
    tryEntry dir name i e next (s.grab k) =
      if Directory.ino (Directory.extend i (s.file dir) e) e = 0 then
        .ok (some e) ((s.store dir
          (Directory.setName name (Directory.extend i (s.file dir) e) e)).grab k)
      else next (s.grab k) := by
  have hread := readable_extend i (s.file dir) e
  have hused := used_extend i (s.file dir) e
  have hfile : ((s.grab k).store dir (Directory.extend i (s.file dir) e)).file dir =
      Directory.extend i (s.file dir) e := @file_store (s.grab k) dir _ hread hused
  rw [tryEntry, modify_bind, get_bind]
  have hgrab : (s.grab k).file dir = s.file dir := rfl
  rw [hgrab, hfile]
  by_cases h0 : Directory.ino (Directory.extend i (s.file dir) e) e = 0
  · rw [if_pos h0, if_pos h0]
    rw [store_store]
    rfl
  · rw [if_neg h0, if_neg h0, extend_of_ino h0]
    exact congrArg next (store_file (s.grab k) dir)

/-- An entry is where a block of the file is. -/
def Within (t : State) (e : Pointer) : Prop := e.1 ≠ 0 ∧ ∃ p : Spot, p.Data ∧ t.at p = e.1

/-- **A store to an entry** leaves what is in other blocks. -/
theorem store_grows (hc : Bitmap.Consistent s.bitmap) (hsound : Bmap.Sound (s.file dir))
    (he : Within (s.file dir) e) (h : Directory.Wrote (s.file dir) e t) :
    Grows dir s (s.store dir t) t := by
  obtain ⟨hne, p, hp, hat⟩ := he
  have hfollows : Follows dir s (s.store dir t) t := follows_store hc h.readable h.used
  refine ⟨hfollows, h.outside hsound hp hat (hat.symm ▸ hne), fun hin q hq hneq => ?_⟩
  rw [hfollows.file, h.at hsound hp hat (hat.symm ▸ hne) q hq] at hneq ⊢
  exact hin q hq hneq

/-- **The loop of `add_entry`** does to a directory what it does without counts: the induction is on
the rounds. -/
theorem addLoop_spec {r : Option Pointer} (hc : Bitmap.Consistent s.bitmap) (hshort : Short s)
    {sb : Super} (hs : s.getSuper dir.dev = some sb) (hsound : Bmap.Sound (s.file dir))
    (hheld : o < 64 → held = true ∧ Within (s.file dir) (b, o))
    (h : Directory.addLoop firstFree name n i b o (s.file dir) = .ok (r, t)) :
    ∃ s', addLoop dir name n i b held o (if held then s.grab (dir.dev, b) else s) =
        .ok r (s'.found dir r) ∧ Grows dir s s' t := by
  induction n generalizing s i b o held with
  | zero => cases h
  | succ n ih =>
    -- a round, when the loop is at an entry
    have hround : ∀ (s : Kernel) b o, Bitmap.Consistent s.bitmap → Short s →
        s.getSuper dir.dev = some sb → Bmap.Sound (s.file dir) → Within (s.file dir) (b, o) →
        (if Directory.ino (Directory.extend i (s.file dir) (b, o)) (b, o) = 0
          then Except.ok (some (b, o),
            Directory.setName name (Directory.extend i (s.file dir) (b, o)) (b, o))
          else Directory.addLoop firstFree name n (i + 1) b (o + 1)
            (Directory.extend i (s.file dir) (b, o))) = .ok (r, t) →
        ∃ s', tryEntry dir name i (b, o) (addLoop dir name n (i + 1) b true (o + 1))
            (s.grab (dir.dev, b)) = .ok r (s'.found dir r) ∧ Grows dir s s' t := by
      intro s b o hc hshort hs hsound hin h
      rw [tryEntry_eq]
      by_cases h0 : Directory.ino (Directory.extend i (s.file dir) (b, o)) (b, o) = 0
      · rw [if_pos h0] at h ⊢
        obtain ⟨rfl, rfl⟩ := Prod.mk.inj (Except.ok.inj h)
        exact ⟨_, rfl, store_grows hc hsound hin
          ((Directory.wrote_extend i _ _).trans (Directory.wrote_setName name _ _))⟩
      · rw [if_neg h0, extend_of_ino h0] at h
        rw [if_neg h0]
        exact ih hc hshort hs hsound (fun _ => ⟨(rfl : true = true), hin⟩) h
    rw [Directory.addLoop] at h
    rw [addLoop]
    by_cases ho : 64 ≤ o
    · rw [if_pos ho] at h ⊢
      rw [bind_ok (brelseIf_grab s held _)]
      by_cases hlt : i / 64 < Bmap.maxBlock
      · obtain ⟨u, hbmap, hu, -, -⟩ := Bmap.create_spec hsound firstFree hlt
        obtain ⟨s₁, hrun, hgrows⟩ := bmap_spec hc hshort hs hsound hbmap
        rw [hbmap] at h
        dsimp only at h
        obtain rfl := hgrows.file
        rw [bind_ok hrun]
        by_cases h0 : (s₁.file dir).at (.ofBlock (i / 64)) = 0
        · rw [if_pos h0] at h ⊢
          obtain ⟨rfl, rfl⟩ := Prod.mk.inj (Except.ok.inj h)
          exact ⟨s₁, rfl, hgrows⟩
        have hdata := Spot.data_ofBlock hlt
        have hread := hu.readable _ hdata.1 h0
        have hread' : s₁.readable dir.dev ((s₁.file dir).at (.ofBlock (i / 64))) = true := hread
        rw [if_neg h0, if_neg fun h => Bool.noConfusion (hread.symm.trans h)] at h
        rw [if_neg h0, bind_ok (bread_ok hread'),
          if_pos rfl]
        obtain ⟨s₂, hrun₂, hgrows₂⟩ := hround s₁ _ 0 hgrows.maps
          (hshort.steady hgrows.toSteady) ((hgrows.getSuper _).trans hs) hu ⟨h0, _, hdata, rfl⟩ h
        exact ⟨s₂, hrun₂, hgrows.trans hgrows₂⟩
      · rw [Bmap.bmap, if_pos (by omega)] at h
        cases h
    · rw [if_neg ho] at h ⊢
      obtain ⟨rfl, hin⟩ := hheld (by omega)
      exact hround s b o hc hshort hs hsound hin h

/-- **`add_entry`** does to a directory what it does without counts, and holds the buffer of the
entry. -/
theorem addEntry_eq {r : Option Pointer} (hc : Bitmap.Consistent s.bitmap) (hshort : Short s)
    {sb : Super} (hs : s.getSuper dir.dev = some sb) (hsound : Bmap.Sound (s.file dir))
    (h : Directory.addEntry firstFree name (s.file dir) = .ok (r, t)) :
    ∃ s', addEntry dir name s = .ok r (s'.found dir r) ∧ Grows dir s s' t := by
  rw [Directory.addEntry] at h
  rw [addEntry, get_bind]
  by_cases hlen : min name.length 14 = 0
  · rw [if_pos hlen] at h ⊢
    obtain ⟨rfl, rfl⟩ := Prod.mk.inj (Except.ok.inj h)
    exact ⟨s, rfl, Grows.refl hc dir⟩
  rw [if_neg hlen] at h ⊢
  have hzone : (s.inode dir).zone = (s.file dir).zone := rfl
  rw [hzone]
  by_cases h0 : (s.file dir).zone 0 = 0
  · rw [if_pos (Or.inl h0)] at h
    rw [if_pos h0]
    obtain ⟨rfl, rfl⟩ := Prod.mk.inj (Except.ok.inj h)
    exact ⟨s, rfl, Grows.refl hc dir⟩
  have hdata : (Spot.ofBlock 0).Data := Spot.data_ofBlock (by decide)
  have hread : s.readable dir.dev ((s.file dir).zone 0) = true :=
    hsound.readable (.ofBlock 0) hdata.1 h0
  have hmiss : ¬((s.file dir).zone 0 = 0 ∨ (s.file dir).readable ((s.file dir).zone 0) = false) :=
    hsound.not_missing (r := .ofBlock 0) hdata.1 h0
  rw [if_neg hmiss] at h
  rw [if_neg h0, bind_ok (bread_ok hread), if_pos rfl]
  exact addLoop_spec hc hshort hs hsound
    (fun _ => ⟨(rfl : true = true), h0, .ofBlock 0, hdata, rfl⟩) h

/-- **`add_entry` in a directory** returns, and finds an entry if there is room. -/
theorem addEntry_spec (hc : Bitmap.Consistent s.bitmap) (hshort : Short s)
    {sb : Super} (hs : s.getSuper dir.dev = some sb) (hdir : Dir (s.file dir))
    (h0 : (s.file dir).zone 0 ≠ 0) (hname : name ≠ []) :
    ∃ r s', addEntry dir name s = .ok r (s'.found dir r) ∧ Grows dir s s' (s'.file dir) ∧
      (∀ e, r = some e → Dir (s'.file dir) ∧ Within (s'.file dir) e) ∧
      (r = none ↔ ∃ t, Directory.Full firstFree (s.file dir) t) := by
  obtain ⟨r, t, hadd, hnone, hfull⟩ := @Directory.addEntry_total _ firstFree _ hdir hname h0
  obtain ⟨s', hrun, hgrows⟩ := addEntry_eq hc hshort hs hdir.toSound hadd
  obtain rfl := hgrows.file
  refine ⟨r, s', hrun, hgrows, fun e he => ?_, fun hr => ⟨_, hnone hr⟩, fun ⟨u, hu⟩ => hfull u hu⟩
  rw [he] at hadd
  obtain ⟨i, hadded⟩ := Directory.addEntry_spec hdir hadd
  have hlt : i < (s'.file dir).size / 16 := by
    have hsize := hadded.size
    omega
  obtain ⟨hblock, hne⟩ := hadded.dir.block hlt
  have hzone : (s'.file dir).at (.ofBlock (i / 64)) = e.1 := congrArg Prod.fst hadded.pointer
  exact ⟨hadded.dir, hzone ▸ hne, _, Spot.data_ofBlock hblock, hzone⟩

end Linux011.Fs.Names

import Linux011.Fs.Whole

/-!
# What `truncate` leaves

`free_block` takes a count of the buffer of its block. When somebody else has the buffer as well, it
returns at once, without giving the count back, and the bit of the block stays set
(`Linux011.Fs.Names.freeBlock_counts_iff`); and `truncate` forgets the block all the same. A table
that cannot be read is freed without what is in it.

So no count changes and no block is lost exactly if nobody else uses any of the blocks and all
tables with something in them can be read (`Linux011.Fs.Names.truncate_frees_iff`).
-/

namespace Linux011.Fs.Names

open Bmap (State Spot)

variable {s s' : Kernel} {id a : Id} {t t' : State} {dev z b : ℕ} {p r : Spot}

/-! ### The blocks that are freed -/

/-- **All tables on the way to a spot can be read.** -/
def Legible (t : State) : Spot → Prop
  | .top _ => True
  | .under r _ => t.readable (t.at r) = true ∧ Legible t r

theorem mem_freesTable_iff {g : ℕ → List ℕ} : z ∈ freesTable t g b ↔ b ≠ 0 ∧
    (z = b ∨ t.readable b = true ∧ ∃ i < 512, t.word b i ≠ 0 ∧ z ∈ g (t.word b i)) := by
  rw [freesTable]
  by_cases h0 : b = 0
  · rw [if_pos h0]
    exact iff_of_false List.not_mem_nil fun h => h.1 h0
  rw [if_neg h0, List.mem_append, List.mem_singleton, or_comm, and_iff_right h0]
  refine or_congr_right ?_
  by_cases hread : t.readable b = true
  · rw [if_pos hread, and_iff_right hread, List.mem_flatMap]
    refine exists_congr fun i => ?_
    rw [List.mem_range'_1, Nat.zero_add, and_iff_right (Nat.zero_le i)]
    refine and_congr_right fun _ => ?_
    by_cases hw : t.word b i = 0
    · rw [if_pos hw]
      exact iff_of_false List.not_mem_nil fun h => h.1 hw
    · rw [if_neg hw, and_iff_right hw]
  · rw [if_neg hread]
    exact iff_of_false List.not_mem_nil fun h => hread h.1

theorem at_under (h : t.at r ≠ 0) (i : ℕ) : t.at (.under r i) = t.word (t.at r) i := if_neg h

theorem at_of_under {i : ℕ} (h : t.at (.under r i) ≠ 0) : t.at r ≠ 0 := fun h0 => h (if_pos h0)

/-- The blocks that are freed with an indirect table. -/
theorem mem_freesInd_iff : z ∈ freesInd t (t.at r) ↔ t.at r ≠ 0 ∧ (z = t.at r ∨
    t.readable (t.at r) = true ∧ ∃ j < 512, t.at (.under r j) ≠ 0 ∧ z = t.at (.under r j)) := by
  rw [freesInd, mem_freesTable_iff]
  refine and_congr_right fun h0 => or_congr_right (and_congr_right fun _ => ?_)
  refine exists_congr fun j => and_congr_right fun _ => ?_
  rw [at_under h0, List.mem_singleton]

theorem mem_freesTop_iff : z ∈ freesTop t 7 ↔ z ≠ 0 ∧ ∃ k < 7, t.at (.top k) = z := by
  rw [freesTop, List.mem_flatMap]
  constructor
  · rintro ⟨i, hi, hz⟩
    rw [List.mem_range'_1] at hi
    split_ifs at hz with h0
    · cases hz
    · rw [List.mem_singleton] at hz
      exact ⟨hz ▸ h0, i, by omega, hz.symm⟩
  · rintro ⟨h0, k, hk, rfl⟩
    refine ⟨k, List.mem_range'_1.mpr (by omega), ?_⟩
    have hne : ¬t.zone k = 0 := h0
    rw [if_neg hne]
    exact List.mem_singleton_self _

/-- **The blocks that are freed**: those that hang from spots on whose way all tables can be
read. -/
theorem mem_frees_iff : z ∈ frees t ↔ z ≠ 0 ∧ ∃ p : Spot, p.Ok ∧ t.at p = z ∧ Legible t p := by
  have hind : z ∈ freesInd t (t.zone 7) ↔ _ := mem_freesInd_iff (r := .top 7)
  have hdind : z ∈ freesTable t (freesInd t) (t.zone 8) ↔ _ := mem_freesTable_iff
  rw [frees, List.mem_append, List.mem_append, mem_freesTop_iff, hind, hdind]
  constructor
  · rintro ((⟨h0, k, hk, hat⟩ | ⟨h0, rfl | ⟨hread, j, hj, hne, rfl⟩⟩) |
      ⟨h0, rfl | ⟨hread, i, hi, hne, hz⟩⟩)
    · exact ⟨h0, .top k, (by omega : k < 9), hat, trivial⟩
    · exact ⟨h0, .top 7, (by omega : 7 < 9), rfl, trivial⟩
    · exact ⟨hne, .under (.top 7) j, ⟨Or.inl rfl, hj⟩, rfl, hread, trivial⟩
    · exact ⟨h0, .top 8, (by omega : 8 < 9), rfl, trivial⟩
    · have hat : t.word (t.zone 8) i = t.at (.under (.top 8) i) :=
        (at_under (r := .top 8) h0 i).symm
      rw [hat, mem_freesInd_iff] at hz
      obtain ⟨h1, rfl | ⟨hread', j, hj, hne', rfl⟩⟩ := hz
      · exact ⟨h1, .under (.top 8) i, ⟨Or.inr rfl, hi⟩, rfl, hread, trivial⟩
      · exact ⟨hne', .under (.under (.top 8) i) j, ⟨⟨rfl, hi⟩, hj⟩, rfl, hread', hread, trivial⟩
  · rintro ⟨h0, p, hp, rfl, hleg⟩
    cases p with
    | top k =>
      have hk : k < 9 := hp
      by_cases h7 : k < 7
      · exact Or.inl (Or.inl ⟨h0, k, h7, rfl⟩)
      · obtain rfl | rfl : k = 7 ∨ k = 8 := by omega
        · exact Or.inl (Or.inr ⟨h0, Or.inl rfl⟩)
        · exact Or.inr ⟨h0, Or.inl rfl⟩
    | under r j =>
      obtain ⟨hr, hj⟩ := hp
      have hroot := at_of_under h0
      cases r with
      | top k =>
        obtain rfl | rfl : k = 7 ∨ k = 8 := hr
        · exact Or.inl (Or.inr ⟨hroot, Or.inr ⟨hleg.1, j, hj, h0, rfl⟩⟩)
        · have hat := at_under hroot j
          rw [hat] at h0
          refine Or.inr ⟨hroot, Or.inr ⟨hleg.1, j, hj, h0, ?_⟩⟩
          change _ ∈ freesInd t (t.word (t.at (.top 8)) j)
          rw [← hat] at h0 ⊢
          exact mem_freesInd_iff.mpr ⟨h0, Or.inl rfl⟩
      | under r i =>
        obtain ⟨rfl, hi⟩ := hr
        have htop := at_of_under hroot
        have hat := at_under htop i
        refine Or.inr ⟨htop, Or.inr ⟨hleg.2.1, i, hi, ?_, ?_⟩⟩
        · change t.word (t.at (.top 8)) i ≠ 0
          rw [← hat]
          exact hroot
        · change _ ∈ freesInd t (t.word (t.at (.top 8)) i)
          rw [← hat]
          exact mem_freesInd_iff.mpr ⟨hroot, Or.inr ⟨hleg.1, j, hj, h0, rfl⟩⟩

/-- **The tables with something in them** can be read. -/
def TablesLegible (t : State) : Prop :=
  ∀ r i, (Spot.under r i).Ok → t.at (.under r i) ≠ 0 → t.readable (t.at r) = true

theorem TablesLegible.legible (h : TablesLegible t) (hp : p.Ok) (hne : t.at p ≠ 0) :
    Legible t p := by
  induction p with
  | top k => trivial
  | under r i ih => exact ⟨h r i hp hne, ih hp.1.ok (at_of_under hne)⟩

/-- **Everything is freed** exactly if those tables can be read. -/
theorem frees_all_iff (hd : Distinct t) :
    (∀ p : Spot, p.Ok → t.at p ≠ 0 → t.at p ∈ frees t) ↔ TablesLegible t := by
  constructor
  · intro h r i hok hne
    obtain ⟨-, q, hq, hat, hleg⟩ := mem_frees_iff.mp (h _ hok hne)
    obtain rfl := hd _ _ hok hq hne hat.symm
    exact hleg.1
  · intro h p hp hne
    exact mem_frees_iff.mpr ⟨hne, p, hp, rfl, h.legible hp hne⟩

/-! ### The counts -/

/-- **`free_block` leaves the counts as they were**, when it returns, exactly if nobody has the
buffer of the block. -/
theorem freeBlock_counts_iff (h : freeBlock dev z s = .ok ⟨⟩ s') :
    s'.bCount = s.bCount ↔ s.bCount (dev, z) = 0 := by
  rcases hf : Bitmap.freeBlock dev z s.bitmap with e | v
  · rw [freeBlock, onMaps, get_bind, hf] at h
    cases h
  have hrun : freeBlock dev z s = .ok ⟨⟩ (s.withBitmap v) := onMaps_ok (by rw [hf]; rfl)
  obtain ⟨-, rfl⟩ := EStateM.Result.ok.inj (hrun.symm.trans h)
  have hcount (k : ℕ × ℕ) : (s.withBitmap v).bCount k =
      if k = (dev, z) ∧ s.bCount k ≠ 0 then s.bCount k + 1 else s.bCount k := by
    rw [withBitmap_bCount, (Bitmap.freeBlock_same hf).2]
    rfl
  constructor
  · intro heq
    by_contra hne
    have hself := hcount (dev, z)
    rw [if_pos ⟨rfl, hne⟩, heq] at hself
    omega
  · intro h0
    funext k
    rw [hcount, if_neg]
    rintro ⟨rfl, hne⟩
    exact hne h0

/-! ### What inodes reach -/

/-- **An inode reaches a block** of its device. -/
def Kernel.Reaches (s : Kernel) (a : Id) (z : ℕ) : Prop :=
  s.Stored a ∧ z ≠ 0 ∧ ∃ p : Spot, p.Ok ∧ (s.file a).at p = z

/-- **A block is lost**: it is marked as used, and no inode reaches it. -/
def Kernel.Lost (s : Kernel) (dev z : ℕ) : Prop :=
  (dev, z) ∈ s.bitmap.zones ∧ ∀ a : Id, a.dev = dev → ¬s.Reaches a z

/-- **The inode has blocks of its own**, which are all in use, and which no other inode has. -/
structure Owns (s : Kernel) (id : Id) : Prop where
  stored : s.Stored id
  inside : s.Inside id
  distinct : Distinct (s.file id)
  apart : ∀ a ≠ id, a.dev = id.dev → ∀ z, s.Reaches id z → ¬s.Reaches a z

theorem Whole.owns (h : Whole s) (hs : s.Stored id) : Owns s id := by
  refine ⟨hs, h.used id hs, h.distinct hs, ?_⟩
  rintro a hne hdev z ⟨-, h0, p, hp, rfl⟩ ⟨hs', -, q, hq, heq⟩
  exact hne (h.apart id a hs hs' hdev.symm p q hp hq h0 heq.symm).1.symm

theorem at_of_zone (hdata : t'.data = t.data) (hzone : ∀ k < 9, t'.zone k = t.zone k)
    (hp : p.Ok) : t'.at p = t.at p := by
  induction p with
  | top k => exact hzone k hp
  | under r i ih =>
    rw [State.at, State.at, ih hp.1.ok, Bmap.word_congr (congrFun hdata _)]

/-- Without zones there is nothing. -/
theorem at_eq_zero (hzone : ∀ k < 9, t.zone k = 0) (hp : p.Ok) : t.at p = 0 := by
  induction p with
  | top k => exact hzone k hp
  | under r i ih =>
    rw [State.at, if_pos (ih hp.1.ok)]

/-! ### `truncate` -/

/-- **`truncate` loses no block, and leaves the counts as they were**, exactly if nobody has the
buffer of a block of the inode, and the tables with something in them can be read. -/
theorem truncate_loses_iff (hc : Bitmap.Consistent s.bitmap) (ho : Owns s id) :
    ∃ t, truncate id s = .ok ⟨⟩ t ∧
      ((t.bCount = s.bCount ∧ ∀ z, s.Reaches id z → ¬t.Lost id.dev z) ↔
        (∀ z, s.Reaches id z → s.bCount (id.dev, z) = 0) ∧ TablesLegible (s.file id)) := by
  have hblocks : s.blocks id = keys id.dev (frees (s.file id)) := if_pos ho.stored.stored
  have hnodup : (s.blocks id).Nodup := Names.blocks_nodup fun _ => ho.distinct
  obtain ⟨t, hrun, hfreed, hinode, -, hzone⟩ :=
    truncate_spec hc hnodup (Names.blocks_mem fun _ => ho.inside)
  refine ⟨t, hrun, ?_⟩
  have hmem (z : ℕ) : (id.dev, z) ∈ s.blocks id ↔ z ∈ frees (s.file id) := by
    rw [hblocks, keys, List.mem_map]
    constructor
    · rintro ⟨z', hz', heq⟩
      exact (Prod.mk.inj heq).2 ▸ hz'
    · exact fun hz => ⟨z, hz, rfl⟩
  have hstored (a : Id) (ha : a ≠ id) (hs : t.Stored a) : s.Stored a := by
    have hmode : (t.disk.inode a).mode = (s.disk.inode a).mode :=
      congrArg Inode.mode (hinode a ha)
    refine ⟨by rw [Kernel.Allocated, ← hfreed.inodes]; exact hs.alloc, ?_⟩
    have hkind := hs.stored
    rw [isStored, isReg, isDir, hmode] at hkind
    exact hkind
  -- nobody reaches the blocks any more
  have hunreached (z : ℕ) (hz : s.Reaches id z) (a : Id) (ha : a.dev = id.dev) :
      ¬t.Reaches a z := by
    rintro ⟨hs, h0, p, hp, heq⟩
    by_cases haid : a = id
    · rw [haid, at_eq_zero (hzone ho.stored.stored) hp] at heq
      exact h0 heq.symm
    · refine ho.apart a haid ha z hz ⟨hstored a haid hs, h0, p, hp, ?_⟩
      rw [← heq]
      refine (at_of_zone (congrFun hfreed.data a.dev) (fun k _ => ?_) hp).symm
      exact congrFun (congrArg Inode.zone (hinode a haid)) k
  have hlost (z : ℕ) (hz : s.Reaches id z) : t.Lost id.dev z ↔ (id.dev, z) ∈ t.bitmap.zones :=
    and_iff_left (hunreached z hz)
  have hreach (z : ℕ) (hz : z ∈ frees (s.file id)) : s.Reaches id z := by
    obtain ⟨h0, p, hp, hat, -⟩ := mem_frees_iff.mp hz
    exact ⟨ho.stored, h0, p, hp, hat⟩
  rw [hfreed.balanced_iff]
  constructor
  · rintro ⟨hcounts, hnone⟩
    have hall (z : ℕ) (hz : s.Reaches id z) : z ∈ frees (s.file id) := by
      have hz' := hz
      obtain ⟨-, h0, p, hp, rfl⟩ := hz'
      by_contra hnot
      refine hnone _ hz ((hlost _ hz).mpr (hfreed.zones _ (ho.inside p hp h0) ?_))
      rwa [hmem]
    refine ⟨fun z hz => hcounts _ ((hmem z).mpr (hall z hz)), (frees_all_iff ho.distinct).mp ?_⟩
    exact fun p hp hne => hall _ ⟨ho.stored, hne, p, hp, rfl⟩
  · rintro ⟨hcounts, hlegible⟩
    constructor
    · intro k hk
      rw [hblocks] at hk
      obtain ⟨z, hz, rfl⟩ := List.mem_map.mp hk
      exact hcounts z (hreach z hz)
    · rintro z hz
      rw [hlost z hz]
      have hz' := hz
      obtain ⟨-, h0, p, hp, rfl⟩ := hz'
      have hin := (frees_all_iff ho.distinct).mpr hlegible p hp h0
      rw [hfreed.gone _ ((hmem _).mpr hin), not_not]
      exact hcounts _ hz

/-- **`free_block` and `truncate` under sharing**: no count changes and no block is lost, exactly if
nobody has the buffers, and what `truncate` has to read can be read. -/
theorem truncate_frees_iff (hc : Bitmap.Consistent s.bitmap) (ho : Owns s id) :
    (∀ z s', freeBlock id.dev z s = .ok ⟨⟩ s' →
      (s'.bCount = s.bCount ↔ s.bCount (id.dev, z) = 0)) ∧
    ∃ t, truncate id s = .ok ⟨⟩ t ∧
      ((t.bCount = s.bCount ∧ ∀ z, s.Reaches id z → ¬t.Lost id.dev z) ↔
        (∀ z, s.Reaches id z → s.bCount (id.dev, z) = 0) ∧ TablesLegible (s.file id)) :=
  ⟨fun _ _ => freeBlock_counts_iff, truncate_loses_iff hc ho⟩

/-! ### A file and its reader -/

theorem volume_stored (n c : ℕ) : (volume n c).Stored ⟨1, 2⟩ := by
  have hkind : isStored ((volume 0 0).disk.inode ⟨1, 2⟩) = true := by decide
  exact ⟨volume_allocated.mpr (Or.inr rfl), hkind⟩

theorem volume_owns (c : ℕ) : Owns (volume 3 c) ⟨1, 2⟩ :=
  (volume_whole (by decide) (by decide)).owns (volume_stored 3 c)

/-- The file has one block. -/
theorem volume_reaches (c : ℕ) : (volume 3 c).Reaches ⟨1, 2⟩ z ↔ z = 6 := by
  constructor
  · rintro ⟨hs, h0, p, hp, rfl⟩
    exact (volume_at_ne hs.alloc hp h0).2
  · rintro rfl
    exact ⟨volume_stored 3 c, by decide, .top 0, (by omega : 0 < 9), rfl⟩

/-- Nobody reads the file that is truncated. -/
theorem truncate_frees_volume : ∃ t, truncate ⟨1, 2⟩ (volume 3 0) = .ok ⟨⟩ t ∧
    t.bCount = (volume 3 0).bCount ∧ ¬t.Lost 1 6 := by
  obtain ⟨-, t, hrun, hiff⟩ := truncate_frees_iff (volume_maps 3 0) (volume_owns 0)
  have hzero (z : ℕ) (hz : (volume 3 0).Reaches ⟨1, 2⟩ z) : (volume 3 0).bCount (1, z) = 0 := by
    rw [(volume_reaches 0).mp hz]
    rfl
  obtain ⟨hcounts, hlost⟩ := hiff.mpr ⟨hzero, fun r i _ _ => rfl⟩
  exact ⟨t, hrun, hcounts, hlost 6 ((volume_reaches 0).mpr rfl)⟩

/-- **Somebody reads it**: the count of the block grows, and the block is lost. -/
theorem not_truncate_frees : ¬∀ s id, Bitmap.Consistent s.bitmap → Owns s id →
    ∃ t, truncate id s = .ok ⟨⟩ t ∧ t.bCount = s.bCount ∧
      ∀ z, s.Reaches id z → ¬t.Lost id.dev z := by
  intro h
  obtain ⟨t, hrun, hcounts, hlost⟩ := h (volume 3 1) ⟨1, 2⟩ (volume_maps 3 1) (volume_owns 1)
  obtain ⟨t', hrun', hiff⟩ := truncate_loses_iff (volume_maps 3 1) (volume_owns 1)
  obtain ⟨-, rfl⟩ := EStateM.Result.ok.inj (hrun.symm.trans hrun')
  obtain ⟨hzero, -⟩ := hiff.mp ⟨hcounts, hlost⟩
  exact absurd (hzero 6 ((volume_reaches 1).mpr rfl)) (by decide)

end Linux011.Fs.Names

import Linux011.Fs.Lookups

/-!
# What the calls on names do

The functions of `fs/bitmap.c`, and those of `fs/inode.c`, `fs/truncate.c` and `fs/namei.c` that
change blocks, on file systems whose maps are consistent: what becomes of the maps and of the
counts. `new_block` and `new_inode` change no count but that of the new inode; `free_block` leaves
a count one too high where the buffer of the block is in use (`Linux011.Fs.Names.freeBlock_spec`).
-/

namespace Linux011.Fs.Names

open Bmap (State Place Spot maxBlock)
open Directory (Pointer Dir slot)

variable {s s' s'' : Kernel} {id : Id} {k : ℕ × ℕ} {α : Type}
  {dev i n b z : ℕ} {t : Bitmap.State}

/-! ### The maps -/

/-- **The file systems are the same ones**, and their maps are consistent. -/
structure Steady (s s' : Kernel) : Prop where
  super : s'.super = s.super
  task : s'.task = s.task
  umask : s'.umask = s.umask
  shape : Bitmap.SameShape s.bitmap s'.bitmap
  maps : Bitmap.Consistent s'.bitmap

theorem Steady.refl (h : Bitmap.Consistent s.bitmap) : Steady s s :=
  ⟨rfl, rfl, rfl, fun _ => rfl, h⟩

theorem Steady.trans (h : Steady s s') (h' : Steady s' s'') : Steady s s'' :=
  ⟨h'.super.trans h.super, h'.task.trans h.task, h'.umask.trans h.umask,
    fun d => (h'.shape d).trans (h.shape d), h'.maps⟩

/-- **The maps have changed**, and are those of the kernel. -/
theorem withBitmap_super (h : Bitmap.SameShape s.bitmap t) :
    (s.withBitmap t).bitmap.super = t.super := by
  funext d
  have hd := h d
  change (s.getSuper d).map (fun _ => (t.super d).getD (s.maps d)) = _
  change _ = ((s.getSuper d).map fun _ => s.maps d).map _ at hd
  cases hs : s.getSuper d with
  | none =>
    rw [hs] at hd
    exact (Option.map_eq_none_iff.mp hd).symm
  | some sb =>
    rw [hs] at hd
    obtain ⟨sb', hsb', -⟩ := Option.map_eq_some_iff.mp hd
    rw [hsb']
    rfl

theorem such_congr {t t' : Bitmap.State} (h : t'.super = t.super)
    (P : Bitmap.SuperBlock → ℕ → Prop) : t'.such P = t.such P := by
  rw [Bitmap.State.such, Bitmap.State.such, h]

/-- **What a function of the maps leaves behind.** -/
theorem withBitmap_spec (hshape : Bitmap.SameShape s.bitmap t) (hc : Bitmap.Consistent t) :
    Steady s (s.withBitmap t) ∧ (s.withBitmap t).bitmap.zones = t.zones ∧
      (s.withBitmap t).bitmap.inodes = t.inodes := by
  have hsuper := withBitmap_super hshape
  refine ⟨⟨rfl, rfl, rfl, fun d => hsuper ▸ hshape d, hc.cache hsuper fun k b hk hnot hb => ?_⟩,
    such_congr hsuper _, such_congr hsuper _⟩
  obtain rfl := Option.some.inj hb
  cases hbuf : t.buffer k with
  | none =>
    change ((t.buffer k).map _).getD 0 = 0
    rw [hbuf]
    rfl
  | some b =>
    change ((t.buffer k).map _).getD 0 = 0
    rw [hbuf]
    exact hc.unused k b hk hnot hbuf

theorem onMaps_ok {a : α} {f : Bitmap.State → Except String (Bitmap.State × α)}
    (h : f s.bitmap = .ok (t, a)) : onMaps f s = .ok a (s.withBitmap t) := by
  rw [onMaps, get_bind, h]
  rfl

theorem withBitmap_bCount (k : ℕ × ℕ) : (s.withBitmap t).bCount k = (t.counts k).getD 0 := rfl

/-- The maps of a device that is mounted. -/
theorem bitmap_super {sb : Super} (h : s.getSuper dev = some sb) :
    s.bitmap.super dev = some (s.maps dev) := by
  change (s.getSuper dev).map _ = _
  rw [h]
  rfl

/-- **`new_block`** gives the first zone that is free, or zero. -/
structure NewBlock (s : Kernel) (dev z : ℕ) (s' : Kernel) : Prop extends Steady s s' where
  inode : s'.inode = s.inode
  iCount : s'.iCount = s.iCount
  bCount : s'.bCount = s.bCount
  inodes : s'.bitmap.inodes = s.bitmap.inodes
  zones : s'.bitmap.zones = if z = 0 then s.bitmap.zones else insert (dev, z) s.bitmap.zones
  full : z = 0 → ∀ z', (dev, z') ∈ s.bitmap.allZones → (dev, z') ∈ s.bitmap.zones
  mem : z ≠ 0 → (dev, z) ∈ s.bitmap.allZones ∧ (dev, z) ∉ s.bitmap.zones
  first : ∀ z' < z, (dev, z') ∈ s.bitmap.allZones → (dev, z') ∈ s.bitmap.zones
  data : s'.data = if z = 0 then s.data else
    Function.update s.data dev (Function.update (s.data dev) z fun _ => 0)
  readable : s'.readable = if z = 0 then s.readable else
    Function.update s.readable dev (Function.update (s.readable dev) z true)

theorem newBlock_spec (hc : Bitmap.Consistent s.bitmap) {sb : Super}
    (hs : s.getSuper dev = some sb) : ∃ z s', newBlock dev s = .ok z s' ∧ NewBlock s dev z s' := by
  obtain ⟨t, z, hrun, ht, hspec⟩ := hc.newBlock (bitmap_super hs) (.zero, none)
  obtain ⟨hshape, hcounts⟩ := Bitmap.newBlock_same (fun _ => rfl) hrun
  obtain ⟨hsteady, hzones, hinodes⟩ := withBitmap_spec hshape ht
  have hbCount : (s.withBitmap t).bCount = s.bCount := by
    funext k
    rw [withBitmap_bCount, hcounts]
    rfl
  rw [newBlock, bind_ok (onMaps_ok hrun)]
  rcases hspec with ⟨rfl, hno⟩ | hnew
  · refine ⟨0, s.withBitmap t, rfl, ⟨hsteady, rfl, rfl, hbCount, ?_, ?_, fun _ => hno.full,
      fun h => absurd rfl h, fun z' hz' => absurd hz' (Nat.not_lt_zero z'), rfl, rfl⟩⟩
    · rw [hinodes, hno.inodes]
    · rw [hzones, hno.zones, if_pos rfl]
  · have hz : z ≠ 0 := by
      rintro rfl
      obtain ⟨sb', hsb', hhas, -⟩ := hnew.mem
      have := (hc.ok _ _ hsb').first
      dsimp only at hhas
      omega
    rw [if_neg hz]
    refine ⟨z, _, rfl, ⟨⟨rfl, rfl, rfl, hsteady.shape, hsteady.maps⟩, rfl, rfl, hbCount, ?_, ?_,
      fun h => absurd h hz, fun _ => ⟨hnew.mem, hnew.fresh⟩,
      fun z' hz' => Bitmap.newBlock_first hc hrun hz hz', (if_neg hz).symm, (if_neg hz).symm⟩⟩
    · exact hinodes.trans hnew.inodes
    · rw [if_neg hz]
      exact hzones.trans hnew.zones

/-- **`free_block`**: the count of a buffer that is in use grows, and its zone stays. -/
structure FreeBlock (s : Kernel) (dev z : ℕ) (s' : Kernel) : Prop extends Steady s s' where
  inode : s'.inode = s.inode
  iCount : s'.iCount = s.iCount
  data : s'.data = s.data
  readable : s'.readable = s.readable
  inodes : s'.bitmap.inodes = s.bitmap.inodes
  zones : s'.bitmap.zones =
    if s.bCount (dev, z) ≠ 0 then s.bitmap.zones else s.bitmap.zones \ {(dev, z)}
  bCount : ∀ k, s'.bCount k =
    if k = (dev, z) ∧ s.bCount k ≠ 0 then s.bCount k + 1 else s.bCount k

theorem freeBlock_spec (hc : Bitmap.Consistent s.bitmap) (hz : (dev, z) ∈ s.bitmap.zones) :
    ∃ s', freeBlock dev z s = .ok ⟨⟩ s' ∧ FreeBlock s dev z s' := by
  obtain ⟨t, hrun, ht, hspec⟩ := hc.freeBlock hz
  obtain ⟨hshape, hcounts⟩ := Bitmap.freeBlock_same hrun
  obtain ⟨hsteady, hzones, hinodes⟩ := withBitmap_spec hshape ht
  refine ⟨s.withBitmap t, onMaps_ok (by rw [hrun]; rfl), hsteady, rfl, rfl, rfl, rfl,
    hinodes.trans hspec.inodes, ?_, fun k => ?_⟩
  · rw [hzones, hspec.zones]
    refine if_congr ?_ rfl rfl
    constructor
    · rintro ⟨b, hb, hne⟩
      obtain rfl := Option.some.inj hb
      exact hne
    · exact fun hne => ⟨_, rfl, hne⟩
  · rw [withBitmap_bCount, hcounts]
    rfl

/-- **`new_inode`** gives an inode that was free, and holds it. -/
structure NewInode (s : Kernel) (dev : ℕ) (r : Option Id) (s' : Kernel) : Prop
    extends Steady s s' where
  data : s'.data = s.data
  readable : s'.readable = s.readable
  bCount : s'.bCount = s.bCount
  zones : s'.bitmap.zones = s.bitmap.zones
  none : r = none → s'.inode = s.inode ∧ s'.iCount = s.iCount ∧
    s'.bitmap.inodes = s.bitmap.inodes ∧
    ∀ id : Id, id.dev = dev → (dev, id.num) ∈ s.bitmap.such Bitmap.SuperBlock.HasInode →
      s.Allocated id
  some : ∀ id, r = some id → id.dev = dev ∧ ¬s.Allocated id ∧
    s'.bitmap.inodes = insert (id.dev, id.num) s.bitmap.inodes ∧
    s'.inode = Function.update s.inode id
      { Inode.zero with uid := s.task.euid, gid := s.task.egid, nlinks := 1 } ∧
    s'.iCount = Function.update s.iCount id 1

theorem newInode_spec (hc : Bitmap.Consistent s.bitmap) {sb : Super}
    (hs : s.getSuper dev = some sb) : ∃ r s', newInode dev s = .ok r s' ∧ NewInode s dev r s' := by
  obtain ⟨t, r, hrun, ht, hspec⟩ := hc.newInode (bitmap_super hs) ⟨s.task.euid, s.task.egid, 0⟩
  obtain ⟨hshape, hbuffer⟩ := Bitmap.newInode_same hrun
  obtain ⟨hsteady, hzones, hinodes⟩ := withBitmap_spec hshape ht
  have hbCount : (s.withBitmap t).bCount = s.bCount := by
    funext k
    rw [withBitmap_bCount, Bitmap.State.counts, hbuffer]
    rfl
  rw [newInode, get_bind, bind_ok (onMaps_ok hrun)]
  rcases hspec with ⟨rfl, hno⟩ | ⟨n, rfl, hnew⟩
  · refine ⟨none, s.withBitmap t, rfl, ⟨hsteady, rfl, rfl, hbCount, hzones.trans hno.zones,
      fun _ => ⟨rfl, rfl, hinodes.trans hno.inodes, fun id hid hhas => ?_⟩,
      (by rintro _ ⟨⟩)⟩⟩
    rw [Kernel.Allocated, hid]
    exact hno.full _ hhas
  · have hfields := hnew.fields
    have hn : n.dev = dev ∧ n.count = 1 ∧ n.nlinks = 1 ∧ n.uid = s.task.euid ∧
        n.gid = s.task.egid := by
      rw [hfields]
      exact ⟨rfl, rfl, rfl, rfl, rfl⟩
    obtain ⟨rfl, hcount, hlinks, huid, hgid⟩ := hn
    refine ⟨some ⟨n.dev, n.num⟩, _, rfl, ⟨⟨rfl, rfl, rfl, hsteady.shape, hsteady.maps⟩, rfl, rfl,
      hbCount, hzones.trans hnew.zones, (by rintro ⟨⟩), fun id hid => ?_⟩⟩
    obtain rfl := Option.some.inj hid
    refine ⟨rfl, hnew.fresh, hinodes.trans hnew.inodes, ?_, ?_⟩
    · dsimp only
      rw [huid, hgid, hlinks]
      rfl
    · dsimp only
      rw [hcount]
      rfl

/-- **`free_inode`** gives the inode back. -/
structure FreeInode (s : Kernel) (id : Id) (s' : Kernel) : Prop extends Steady s s' where
  inode : s'.inode = Function.update s.inode id .zero
  iCount : s'.iCount = Function.update s.iCount id 0
  data : s'.data = s.data
  readable : s'.readable = s.readable
  bCount : s'.bCount = s.bCount
  zones : s'.bitmap.zones = s.bitmap.zones
  inodes : s'.bitmap.inodes = s.bitmap.inodes \ {(id.dev, id.num)}

theorem freeInode_spec (hc : Bitmap.Consistent s.bitmap) (ha : s.Allocated id)
    (hcount : s.iCount id ≤ 1) (hlinks : (s.inode id).nlinks = 0) :
    ∃ s', freeInode id s = .ok ⟨⟩ s' ∧ FreeInode s id s' := by
  obtain ⟨t, r, hrun, ht, hspec⟩ := @Bitmap.Consistent.freeInode s.bitmap
    ⟨id.dev, id.num, s.iCount id, (s.inode id).nlinks.toNat, (s.inode id).uid, (s.inode id).gid,
      0, 0, 0, false⟩ hc ha hcount (by rw [hlinks]; rfl)
  obtain ⟨hshape, hbuffer⟩ := Bitmap.freeInode_same hrun
  obtain ⟨hsteady, hzones, hinodes⟩ := withBitmap_spec hshape ht
  have hbCount : (s.withBitmap t).bCount = s.bCount := by
    funext k
    rw [withBitmap_bCount, Bitmap.State.counts, hbuffer]
    rfl
  rw [freeInode, get_bind, bind_ok (onMaps_ok hrun)]
  exact ⟨_, rfl, ⟨⟨rfl, rfl, rfl, hsteady.shape, hsteady.maps⟩, rfl, rfl, rfl, rfl, hbCount,
    hzones.trans hspec.zones, hinodes.trans hspec.inodes⟩⟩

/-! ### Blocks are freed -/

/-- The blocks that are freed with a table: those in it, if it can be read, and itself. -/
def freesTable (t : State) (g : ℕ → List ℕ) (b : ℕ) : List ℕ :=
  if b = 0 then []
  else (if t.readable b then (List.range' 0 512).flatMap fun i =>
    if t.word b i = 0 then [] else g (t.word b i) else []) ++ [b]

/-- The blocks that are freed with `i_zone[7]`. -/
def freesInd (t : State) (b : ℕ) : List ℕ := freesTable t (fun w => [w]) b

/-- The first zones in the inode. -/
def freesTop (t : State) (n : ℕ) : List ℕ :=
  (List.range' 0 n).flatMap fun i => if t.zone i = 0 then [] else [t.zone i]

/-- **The blocks of a file**, in the order in which `truncate` frees them. -/
def frees (t : State) : List ℕ :=
  (freesTop t 7 ++
    freesInd t (t.zone 7)) ++ freesTable t (freesInd t) (t.zone 8)

/-- Blocks of a device. -/
def keys (dev : ℕ) (l : List ℕ) : List (ℕ × ℕ) := l.map (Prod.mk dev)

/-- **These blocks have been freed**, each of them once; those that are in use stay marked. -/
structure Freed (l : List (ℕ × ℕ)) (s s' : Kernel) : Prop extends Steady s s' where
  iCount : s'.iCount = s.iCount
  data : s'.data = s.data
  readable : s'.readable = s.readable
  inodes : s'.bitmap.inodes = s.bitmap.inodes
  zones : ∀ k ∈ s.bitmap.zones, k ∉ l → k ∈ s'.bitmap.zones
  gone : ∀ k ∈ l, k ∈ s'.bitmap.zones ↔ s.bCount k ≠ 0
  bCount : ∀ k, s'.bCount k = if s.bCount k = 0 then 0 else s.bCount k + l.count k

theorem Freed.refl (h : Bitmap.Consistent s.bitmap) : Freed [] s s := by
  refine ⟨Steady.refl h, rfl, rfl, rfl, rfl, fun k hk _ => hk,
    fun k hk => absurd hk List.not_mem_nil, fun k => ?_⟩
  rw [List.count_nil, Nat.add_zero]
  split_ifs with h0
  · exact h0
  · rfl

/-- **The counts are what they were** if no block that has been freed was in use. -/
theorem Freed.balanced_iff {l : List (ℕ × ℕ)} (h : Freed l s s') :
    s'.bCount = s.bCount ↔ ∀ k ∈ l, s.bCount k = 0 := by
  constructor
  · intro heq k hk
    by_contra hne
    have hcount := h.bCount k
    have hpos := List.count_pos_iff.mpr hk
    rw [heq, if_neg hne] at hcount
    omega
  · intro hall
    funext k
    rw [h.bCount]
    split_ifs with h0
    · exact h0.symm
    · rw [List.count_eq_zero.mpr fun hk => h0 (hall k hk), Nat.add_zero]

/-- **Code frees these blocks**, after others. -/
def Frees (s : Kernel) (m : K PUnit) (l : List (ℕ × ℕ)) : Prop :=
  ∀ l₀ t, Freed l₀ s t → (l₀ ++ l).Nodup → (∀ k ∈ l, k ∈ s.bitmap.zones) →
    ∃ t', m t = .ok ⟨⟩ t' ∧ Freed (l₀ ++ l) s t' ∧ t'.inode = t.inode

namespace Frees

variable {m m' : K PUnit} {l l' : List (ℕ × ℕ)}

theorem nil : Frees s (pure ⟨⟩) [] := fun l₀ t ht _ _ => ⟨t, rfl, by rwa [List.append_nil], rfl⟩

theorem seq (h : Frees s m l) (h' : Frees s m' l') : Frees s (m >>= fun _ => m') (l ++ l') := by
  intro l₀ t ht hnodup hmem
  rw [← List.append_assoc] at hnodup ⊢
  obtain ⟨t₁, hrun, ht₁, hinode⟩ := h l₀ t ht hnodup.of_append_left
    fun k hk => hmem k (List.mem_append_left _ hk)
  obtain ⟨t₂, hrun', ht₂, hinode'⟩ := h' _ t₁ ht₁ hnodup
    fun k hk => hmem k (List.mem_append_right _ hk)
  exact ⟨t₂, (bind_ok hrun).trans hrun', ht₂, hinode'.trans hinode⟩

/-- A loop that frees. -/
theorem forFrom {body : ℕ → K PUnit} {g : ℕ → List (ℕ × ℕ)} (n : ℕ) (start : ℕ)
    (h : ∀ i, Frees s (body i) (g i)) :
    Frees s (Linux011.forFrom start n body) ((List.range' start n).flatMap g) := by
  induction n generalizing start with
  | zero => exact nil
  | succ n ih =>
    rw [List.range'_succ, List.flatMap_cons]
    exact (h start).seq (ih (start + 1))

/-- **`free_block`** frees a block. -/
theorem freeBlock (dev z : ℕ) : Frees s (Names.freeBlock dev z) [(dev, z)] := by
  intro l₀ t ht hnodup hmem
  have hnot : (dev, z) ∉ l₀ := by
    intro hin
    exact (List.nodup_append.mp hnodup).2.2 _ hin _ (List.mem_singleton_self _) rfl
  have hz := ht.zones _ (hmem _ (List.mem_singleton_self _)) hnot
  obtain ⟨t', hrun, hfree⟩ := freeBlock_spec ht.maps hz
  refine ⟨t', hrun, ⟨ht.toSteady.trans hfree.toSteady, hfree.iCount.trans ht.iCount,
    hfree.data.trans ht.data, hfree.readable.trans ht.readable, hfree.inodes.trans ht.inodes,
    fun k hk hnot' => ?_, fun k hk => ?_, fun k => ?_⟩, hfree.inode⟩
  · rw [List.mem_append, not_or, List.mem_singleton] at hnot'
    have hin := ht.zones k hk hnot'.1
    rw [hfree.zones]
    split_ifs
    · exact hin
    · exact ⟨hin, hnot'.2⟩
  · rw [hfree.zones]
    rcases List.mem_append.mp hk with hk | hk
    · have hne : k ≠ (dev, z) := fun heq => hnot (heq ▸ hk)
      rw [← ht.gone k hk]
      split_ifs
      · exact Iff.rfl
      · exact and_iff_left hne
    · rw [List.mem_singleton] at hk
      have hcount := ht.bCount k
      rw [hk, List.count_eq_zero.mpr hnot] at hcount
      rw [hk]
      by_cases h0 : s.bCount (dev, z) = 0
      · rw [if_pos h0] at hcount
        rw [if_neg fun h => h hcount]
        exact iff_of_false (fun h => h.2 rfl) fun h => h h0
      · rw [if_neg h0] at hcount
        rw [if_pos (by omega)]
        exact iff_of_true hz h0
  · rw [hfree.bCount, ht.bCount, List.count_append, List.count_singleton]
    by_cases h0 : s.bCount k = 0
    · rw [if_pos h0, if_pos h0, if_neg fun h => h.2 rfl]
    rw [if_neg h0, if_neg h0]
    by_cases hk : k = (dev, z)
    · rw [if_pos ⟨hk, by omega⟩, if_pos (beq_iff_eq.mpr hk.symm)]
      omega
    · rw [if_neg fun h => hk h.1, if_neg fun h => hk (beq_iff_eq.mp h).symm]
      omega

end Frees

/-! ### A table is held while what is in it is freed -/

theorem grab_self : (s.grab k).bCount k = s.bCount k + 1 := Function.update_self ..

theorem grab_of_ne {k' : ℕ × ℕ} (h : k' ≠ k) : (s.grab k).bCount k' = s.bCount k' :=
  Function.update_of_ne h ..

/-- One user more of a block that is in use. -/
theorem consistent_grab (h : Bitmap.Consistent s.bitmap)
    (hk : k ∈ s.bitmap.allZones → k ∈ s.bitmap.zones) : Bitmap.Consistent (s.grab k).bitmap := by
  refine h.cache rfl fun k' b hk' hnot hb => ?_
  have hne : k' ≠ k := fun heq => hnot (heq ▸ hk (heq ▸ hk'))
  obtain rfl := Option.some.inj hb
  exact (grab_of_ne hne).trans (h.unused k' _ hk' hnot rfl)

theorem Freed.grab {l : List (ℕ × ℕ)} (h : Freed l s s') (hk : k ∈ s.bitmap.zones) (hnot : k ∉ l) :
    Freed l (s.grab k) (s'.grab k) := by
  refine ⟨⟨h.super, h.task, h.umask, h.shape, consistent_grab h.maps fun _ => h.zones k hk hnot⟩,
    h.iCount, h.data, h.readable, h.inodes, h.zones, fun k' hk' => ?_, fun k' => ?_⟩
  · have hne : k' ≠ k := fun heq => hnot (heq ▸ hk')
    rw [grab_of_ne hne]
    exact h.gone k' hk'
  by_cases hk' : k' = k
  · have hcount := h.bCount k
    rw [List.count_eq_zero.mpr hnot] at hcount
    rw [hk', grab_self, grab_self, if_neg (by omega), List.count_eq_zero.mpr hnot, hcount]
    split_ifs
    · omega
    · omega
  · rw [grab_of_ne hk', grab_of_ne hk']
    exact h.bCount k'

/-- **The table is given back.** -/
theorem Freed.ungrab {l : List (ℕ × ℕ)} (h : Freed l (s.grab k) s') (hnot : k ∉ l) :
    ∃ t, brelse k s' = .ok ⟨⟩ t ∧ Freed l s t ∧ t.inode = s'.inode := by
  have hcount := h.bCount k
  rw [grab_self, List.count_eq_zero.mpr hnot, if_neg (by omega)] at hcount
  refine ⟨{ s' with bCount := Function.update s'.bCount k (s'.bCount k - 1) }, ?_, ⟨⟨h.super,
    h.task, h.umask, h.shape, h.maps.cache rfl fun k' b hk' hfree hb => ?_⟩, h.iCount, h.data,
    h.readable, h.inodes, h.zones, fun k' hk' => ?_, fun k' => ?_⟩, rfl⟩
  · rw [brelse, get_bind, if_neg (by omega), set_run]
  · obtain rfl := Option.some.inj hb
    have hzero : s'.bCount k' = 0 := h.maps.unused k' _ hk' hfree rfl
    have hne : k' ≠ k := by
      rintro rfl
      omega
    exact (Function.update_of_ne hne ..).trans hzero
  · have hne : k' ≠ k := fun heq => hnot (heq ▸ hk')
    rw [← grab_of_ne hne]
    exact h.gone k' hk'
  · dsimp only
    by_cases hk' : k' = k
    · rw [hk', Function.update_self, hcount, List.count_eq_zero.mpr hnot]
      split_ifs
      · omega
      · omega
    · rw [Function.update_of_ne hk', h.bCount, grab_of_ne hk']

namespace Frees

/-- The loop over the numbers in a table. -/
theorem eachWord {f : ℕ → K PUnit} {g : ℕ → List ℕ}
    (h : ∀ w, Frees s (f w) (keys id.dev (g w))) (b : ℕ) :
    Frees s (Names.eachWord id b f) (keys id.dev ((List.range' 0 512).flatMap fun i =>
      if (s.file id).word b i = 0 then [] else g ((s.file id).word b i))) := by
  rw [keys, List.map_flatMap]
  refine Frees.forFrom 512 0 fun i l₀ t ht hnodup hmem => ?_
  have hword : (t.file id).word b i = (s.file id).word b i :=
    Bmap.word_congr (congrFun (congrFun ht.data id.dev) b) i
  rw [get_bind, hword]
  by_cases h0 : (s.file id).word b i = 0
  · rw [if_pos h0, if_pos h0] at *
    exact Frees.nil l₀ t ht hnodup hmem
  · rw [if_neg h0, if_neg h0] at *
    exact h _ l₀ t ht hnodup hmem

/-- **A table is freed**, behind what is in it: it is held in the meantime. -/
theorem table {f : ℕ → K PUnit} {g : ℕ → List ℕ}
    (h : ∀ s' : Kernel, s'.file id = s.file id → ∀ w, Frees s' (f w) (keys id.dev (g w))) (b : ℕ) :
    Frees s (freeTable id f b) (keys id.dev (freesTable (s.file id) g b)) := by
  rw [freesTable, freeTable]
  by_cases h0 : b = 0
  · rw [if_pos h0, if_pos h0]
    exact Frees.nil
  rw [if_neg h0, if_neg h0, keys, List.map_append]
  intro l₀ t ht hnodup hmem
  have hread : t.readable id.dev b = (s.file id).readable b :=
    congrFun (congrFun ht.readable id.dev) b
  rw [← List.append_assoc] at hnodup ⊢
  have hb : (id.dev, b) ∈ s.bitmap.zones :=
    hmem _ (List.mem_append_right _ (List.mem_singleton_self _))
  have hfirst := hnodup.of_append_left
  have hnot : (id.dev, b) ∉ l₀ ++ List.map (Prod.mk id.dev) (if (s.file id).readable b = true then
      (List.range' 0 512).flatMap fun i =>
        if (s.file id).word b i = 0 then [] else g ((s.file id).word b i)
      else []) := fun hin =>
    (List.nodup_append.mp hnodup).2.2 _ hin _ (List.mem_singleton_self _) rfl
  by_cases hread' : (s.file id).readable b = true
  · rw [if_pos hread'] at *
    have hnot₀ : (id.dev, b) ∉ l₀ := fun hin => hnot (List.mem_append_left _ hin)
    obtain ⟨t₁, hrun, ht₁, hinode₁⟩ := Frees.eachWord (h (s.grab (id.dev, b)) rfl) b l₀ _
      (ht.grab hb hnot₀) hfirst fun k hk => hmem k (List.mem_append_left _ hk)
    obtain ⟨t₂, hrelease, ht₂, hinode₂⟩ := ht₁.ungrab hnot
    obtain ⟨t₃, hfree, ht₃, hinode₃⟩ := Frees.freeBlock id.dev b _ t₂ ht₂ hnodup
      fun k hk => hmem k (List.mem_append_right _ hk)
    refine ⟨t₃, ?_, ht₃, hinode₃.trans (hinode₂.trans hinode₁)⟩
    rw [bind_ok (bread_ok (hread.trans hread'))]
    exact (bind_ok hrun).trans ((bind_ok hrelease).trans hfree)
  · rw [if_neg hread'] at *
    rw [List.map_nil, List.append_nil] at *
    obtain ⟨t₃, hfree, ht₃, hinode₃⟩ := Frees.freeBlock id.dev b l₀ t ht hnodup hmem
    refine ⟨t₃, ?_, ht₃, hinode₃⟩
    rw [bind_ok (bread_error (fun hr => hread' (hread.symm.trans hr)))]
    exact hfree

theorem freeInd (id : Id) (b : ℕ) :
    Frees s (Names.freeInd id b) (keys id.dev (freesInd (s.file id) b)) :=
  table (fun _ _ w => Frees.freeBlock id.dev w) b

theorem freeDind (id : Id) (b : ℕ) :
    Frees s (Names.freeDind id b) (keys id.dev (freesTable (s.file id) (freesInd (s.file id)) b)) :=
  table (fun _ hs w => hs ▸ Frees.freeInd id w) b

end Frees

/-- The blocks that an inode has. -/
def Kernel.blocks (s : Kernel) (id : Id) : List (ℕ × ℕ) :=
  if isStored (s.disk.inode id) then keys id.dev (frees (s.file id)) else []

theorem Freed.setInode {l : List (ℕ × ℕ)} (h : Freed l s s') (id : Id) (f : Inode → Inode) :
    Freed l s (s'.setInode id f) :=
  ⟨⟨h.super, h.task, h.umask, h.shape, h.maps⟩, h.iCount, h.data, h.readable, h.inodes, h.zones,
    h.gone, h.bCount⟩

theorem freesTop_succ (t : State) (n : ℕ) :
    freesTop t (n + 1) = freesTop t n ++ if t.zone n = 0 then [] else [t.zone n] := by
  rw [freesTop, List.range'_concat, List.flatMap_append, List.flatMap_singleton, freesTop]
  simp only [Nat.one_mul, Nat.zero_add]

/-- The first zones of an inode are gone. -/
def Inode.cut (n : Inode) (i : ℕ) : Inode :=
  { n with zone := fun k => if k < i then 0 else n.zone k }

theorem Inode.cut_zero (n : Inode) : n.cut 0 = n := rfl

/-- One more. -/
theorem Inode.cut_succ (n : Inode) (i : ℕ) :
    { n.cut i with zone := Function.update (n.cut i).zone i 0 } = n.cut (i + 1) := by
  rw [cut, cut]
  dsimp only
  congr 1
  funext k
  by_cases hk : k = i
  · rw [hk, Function.update_self, if_pos (by omega)]
  · rw [Function.update_of_ne hk]
    exact if_congr (by omega) rfl rfl

theorem Inode.cut_succ_of_eq {n : Inode} (h : n.zone i = 0) : n.cut (i + 1) = n.cut i := by
  rw [← Inode.cut_succ, cut]
  dsimp only
  congr 1
  funext k
  by_cases hk : k = i
  · rw [hk, Function.update_self, if_neg (Nat.lt_irrefl i), h]
  · exact Function.update_of_ne hk ..

/-- **The zones in the inode are freed.** -/
theorem freeZones (hc : Bitmap.Consistent s.bitmap)
    (hnodup : (keys id.dev (freesTop (s.file id) 7)).Nodup)
    (hmem : ∀ k ∈ keys id.dev (freesTop (s.file id) 7), k ∈ s.bitmap.zones) :
    ∃ t, forFrom 0 7 (freeZone id) s = .ok ⟨⟩ t ∧
      Freed (keys id.dev (freesTop (s.file id) 7)) s t ∧
      t.inode = Function.update s.inode id ((s.inode id).cut 7) := by
  have hprefix : ∀ i < 7, ∃ l, freesTop (s.file id) 7 = freesTop (s.file id) (i + 1) ++ l := by
    intro i hi
    obtain ⟨d, hd⟩ := Nat.exists_eq_add_of_le (show i + 1 ≤ 7 from hi)
    refine ⟨(List.range' (i + 1) d).flatMap fun i =>
      if (s.file id).zone i = 0 then [] else [(s.file id).zone i], ?_⟩
    have happend := @List.range'_append_1 0 (i + 1) d
    rw [Nat.zero_add, ← hd] at happend
    rw [freesTop, ← happend, List.flatMap_append]
    rfl
  have hwp : wp (forFrom 0 7 (freeZone id)) (fun _ t =>
      Freed (keys id.dev (freesTop (s.file id) (0 + 7))) s t ∧ t.inode = Function.update s.inode id
        ((s.inode id).cut (0 + 7)))
      (fun _ _ => False) s := by
    refine wp_forFrom (fun i t => Freed (keys id.dev (freesTop (s.file id) i)) s t ∧
      t.inode = Function.update s.inode id ((s.inode id).cut i))
      ⟨Freed.refl hc, ?_⟩ fun i t _ hi ⟨ht, hinode⟩ => ?_
    · rw [Inode.cut_zero, Function.update_eq_self]
    · obtain ⟨l, hl⟩ := hprefix i (by omega)
      have hz : (t.inode id).zone i = (s.file id).zone i := by
        rw [hinode, Function.update_self]
        exact if_neg (Nat.lt_irrefl i)
      rw [freesTop_succ (s.file id) i] at hl ⊢
      rw [freeZone, wp_bind, wp_get, hz]
      by_cases h0 : (s.file id).zone i = 0
      · rw [if_pos h0, wp_pure, if_pos h0, List.append_nil]
        exact ⟨ht, hinode.trans (congrArg _ (Inode.cut_succ_of_eq h0).symm)⟩
      · rw [if_neg h0] at hl
        rw [if_neg h0, if_neg h0, wp_bind]
        rw [hl, keys, List.map_append, List.map_append] at hnodup hmem
        obtain ⟨t', hrun, ht', hinode'⟩ := Frees.freeBlock id.dev ((s.file id).zone i) _ t ht
          hnodup.of_append_left fun k hk => hmem k (List.mem_append_left _
            (List.mem_append_right _ hk))
        refine wp_of_ok hrun ?_
        rw [wp_modify, keys, List.map_append]
        refine ⟨ht'.setInode id _, ?_⟩
        rw [Kernel.setInode]
        dsimp only
        rw [hinode', hinode, Function.update_self, Function.update_idem, Inode.cut_succ]
  obtain ⟨⟨⟩, t, hrun, ht, hinode⟩ := wp_returns hwp
  exact ⟨t, hrun, ht, hinode⟩

/-- **`truncate`** frees the blocks of the inode, and nothing else. -/
theorem truncate_spec (hc : Bitmap.Consistent s.bitmap) (hnodup : (s.blocks id).Nodup)
    (hmem : ∀ k ∈ s.blocks id, k ∈ s.bitmap.zones) : ∃ t, truncate id s = .ok ⟨⟩ t ∧
      Freed (s.blocks id) s t ∧ (∀ a ≠ id, t.inode a = s.inode a) ∧
      (t.inode id).nlinks = (s.inode id).nlinks ∧
      (isStored (s.disk.inode id) = true → ∀ k < 9, (t.inode id).zone k = 0) := by
  rw [Kernel.blocks] at hnodup hmem ⊢
  rw [truncate, get_bind]
  by_cases hstored : isStored (s.disk.inode id) = true
  · rw [if_pos hstored, frees, keys, List.map_append, List.map_append] at hnodup hmem
    rw [if_pos hstored, if_neg fun h => Bool.noConfusion (hstored.symm.trans h), frees, keys,
      List.map_append, List.map_append]
    have hmem₁ := fun k hk => hmem k (List.mem_append_left _ hk)
    obtain ⟨t₁, hrun₁, ht₁, hinode₁⟩ := freeZones hc hnodup.of_append_left.of_append_left
      fun k hk => hmem₁ k (List.mem_append_left _ hk)
    have h7 : (t₁.inode id).zone 7 = (s.file id).zone 7 := by
      rw [hinode₁, Function.update_self]
      rfl
    have h8 : (t₁.inode id).zone 8 = (s.file id).zone 8 := by
      rw [hinode₁, Function.update_self]
      rfl
    obtain ⟨t₂, hrun₂, ht₂, hinode₂⟩ := Frees.freeInd id _ _ t₁ ht₁ hnodup.of_append_left
      fun k hk => hmem₁ k (List.mem_append_right _ hk)
    obtain ⟨t₃, hrun₃, ht₃, hinode₃⟩ := Frees.freeDind id _ _ t₂ ht₂ hnodup
      fun k hk => hmem k (List.mem_append_right _ hk)
    have hinode : t₃.inode = Function.update s.inode id ((s.inode id).cut 7) := by
      rw [hinode₃, hinode₂, hinode₁]
    refine ⟨_, ?_, ht₃.setInode id fun n =>
      { n with zone := Function.update (Function.update n.zone 7 0) 8 0, size := 0 },
      fun a ha => ?_, ?_, fun _ k hk => ?_⟩
    · rw [bind_ok hrun₁, get_bind, h7, h8, bind_ok hrun₂, bind_ok hrun₃]
      rfl
    · rw [Kernel.setInode]
      dsimp only
      rw [Function.update_of_ne ha, hinode, Function.update_of_ne ha]
    · rw [Kernel.setInode]
      dsimp only
      rw [Function.update_self, hinode, Function.update_self]
      rfl
    · rw [Kernel.setInode]
      dsimp only
      rw [Function.update_self, hinode, Function.update_self]
      dsimp only
      by_cases h8 : k = 8
      · rw [h8, Function.update_self]
      · rw [Function.update_of_ne h8]
        by_cases h7 : k = 7
        · rw [h7, Function.update_self]
        · rw [Function.update_of_ne h7]
          exact if_pos (by omega)
  · rw [if_neg hstored, if_pos (Bool.not_eq_true _ ▸ hstored)]
    exact ⟨s, rfl, Freed.refl hc, fun _ _ => rfl, rfl, fun h => absurd h hstored⟩

/-- **An inode without links is deleted** by the last `iput`. -/
theorem iput_deletes (hc : Bitmap.Consistent s.bitmap) (ha : s.Allocated id)
    (hcount : s.iCount id = 1) (hlinks : (s.inode id).nlinks = 0) (hnodup : (s.blocks id).Nodup)
    (hmem : ∀ k ∈ s.blocks id, k ∈ s.bitmap.zones) : ∃ t, iput id s = .ok ⟨⟩ t ∧
      t.iCount = Function.update s.iCount id 0 ∧ (t.bCount = s.bCount ↔
        ∀ k ∈ s.blocks id, s.bCount k = 0) ∧ (∀ a ≠ id, t.inode a = s.inode a) ∧
      ∀ k, s.bCount k ≤ t.bCount k := by
  obtain ⟨t, hrun, ht, hinode, hlinks', -⟩ := truncate_spec hc hnodup hmem
  have ha' : t.Allocated id := by
    rw [Kernel.Allocated, ht.inodes]
    exact ha
  obtain ⟨t', hrun', ht'⟩ := freeInode_spec ht.maps ha' (by rw [ht.iCount, hcount])
    (hlinks'.trans hlinks)
  refine ⟨t', ?_, ht'.iCount.trans (by rw [ht.iCount]), ?_, fun a hne => ?_, fun k => ?_⟩
  · rw [iput, get_bind, if_neg (by omega), if_neg (by rintro (h | h); exacts [by omega, h hlinks])]
    exact (bind_ok hrun).trans hrun'
  · rw [ht'.bCount]
    exact ht.balanced_iff
  · rw [ht'.inode, Function.update_of_ne hne]
    exact hinode a hne
  · rw [ht'.bCount, ht.bCount]
    split_ifs with h0
    · exact h0.le
    · exact Nat.le_add_right ..

/-! ### The blocks of a file -/

/-- No two spots of a file have the same zone. -/
def Distinct (t : State) : Prop :=
  ∀ p q : Spot, p.Ok → q.Ok → t.at p ≠ 0 → t.at p = t.at q → p = q

theorem mem_freesTable {t : State} {g : ℕ → List ℕ} (h : z ∈ freesTable t g b) : b ≠ 0 ∧
    (z = b ∨ ∃ i < 512, t.word b i ≠ 0 ∧ z ∈ g (t.word b i)) := by
  rw [freesTable] at h
  split_ifs at h with h0 hread
  · cases h
  · refine ⟨h0, ?_⟩
    rw [List.mem_append, List.mem_singleton, List.mem_flatMap] at h
    rcases h with ⟨i, hi, hz⟩ | rfl
    · have hi := (List.mem_range'_1.mp hi).2
      split_ifs at hz with hword
      · cases hz
      · exact Or.inr ⟨i, by omega, hword, hz⟩
    · exact Or.inl rfl
  · rw [List.nil_append, List.mem_singleton] at h
    exact ⟨h0, Or.inl h⟩

theorem nodup_range (start n : ℕ) : (List.range' start n).Nodup := List.nodup_range'

/-- **The blocks with a table** are different ones. -/
theorem nodup_freesTable {t : State} {g : ℕ → List ℕ}
    (hg : ∀ i < 512, t.word b i ≠ 0 → (g (t.word b i)).Nodup ∧ b ∉ g (t.word b i))
    (hne : ∀ i < 512, ∀ j < 512, i ≠ j → t.word b i ≠ 0 → t.word b j ≠ 0 →
      List.Disjoint (g (t.word b i)) (g (t.word b j))) : (freesTable t g b).Nodup := by
  rw [freesTable]
  split_ifs with h0 hread
  · exact List.nodup_nil
  · refine List.nodup_append.mpr ⟨List.nodup_flatMap.mpr ⟨fun i hi => ?_, ?_⟩,
      List.nodup_singleton b, fun z hz z' hz' heq => ?_⟩
    · have hi := (List.mem_range'_1.mp hi).2
      split_ifs with hword
      · exact List.nodup_nil
      · exact (hg i (by omega) hword).1
    · refine (nodup_range _ _).pairwise_of_forall_ne fun i hi j hj hij => ?_
      have hi := (List.mem_range'_1.mp hi).2
      have hj := (List.mem_range'_1.mp hj).2
      change List.Disjoint (if t.word b i = 0 then [] else g (t.word b i))
        (if t.word b j = 0 then [] else g (t.word b j))
      by_cases hi0 : t.word b i = 0
      · rw [if_pos hi0]
        exact List.disjoint_nil_left _
      by_cases hj0 : t.word b j = 0
      · rw [if_pos hj0]
        exact List.disjoint_nil_right _
      rw [if_neg hi0, if_neg hj0]
      exact hne i (by omega) j (by omega) hij hi0 hj0
    · obtain ⟨i, hi, hz⟩ := List.mem_flatMap.mp hz
      have hi := (List.mem_range'_1.mp hi).2
      obtain rfl : z = b := heq.trans (List.mem_singleton.mp hz')
      split_ifs at hz with hword
      · cases hz
      · exact (hg i (by omega) hword).2 hz
  · exact List.nodup_singleton b

/-- Where the blocks of an indirect table hang. -/
theorem mem_freesInd {t : State} {r : Spot} (h : z ∈ freesInd t (t.at r)) : z ≠ 0 ∧
    (z = t.at r ∨ ∃ j < 512, z = t.at (.under r j)) := by
  obtain ⟨h0, rfl | ⟨j, hj, hword, hz⟩⟩ := mem_freesTable h
  · exact ⟨h0, Or.inl rfl⟩
  · rw [List.mem_singleton] at hz
    rw [hz]
    refine ⟨hword, Or.inr ⟨j, hj, ?_⟩⟩
    rw [State.at, if_neg h0]

theorem nodup_freesInd {t : State} {r : Spot} (hd : Distinct t) (hr : r.Table) (h0 : t.at r ≠ 0) :
    (freesInd t (t.at r)).Nodup := by
  have hat : ∀ j, t.word (t.at r) j = t.at (.under r j) := fun j => by rw [State.at, if_neg h0]
  refine nodup_freesTable (fun j hj hword => ⟨List.nodup_singleton _, fun hin => ?_⟩)
    fun i hi j hj hij hiw hjw => ?_
  · rw [List.mem_singleton, hat] at hin
    exact Bmap.under_ne r j (hd r (.under r j) hr.ok ⟨hr, hj⟩ h0 hin).symm
  · rw [List.singleton_disjoint, List.mem_singleton, hat, hat]
    rw [hat] at hiw
    intro heq
    exact hij (Spot.under.inj (hd _ _ ⟨hr, hi⟩ ⟨hr, hj⟩ hiw heq)).2

/-- The number in the inode from which a spot hangs. -/
def root : Spot → ℕ
  | .top k => k
  | .under r _ => root r

theorem mem_freesTop {t : State} (h : z ∈ freesTop t 7) :
    z ≠ 0 ∧ ∃ p : Spot, p.Ok ∧ t.at p = z ∧ root p < 7 := by
  obtain ⟨i, hi, hz⟩ := List.mem_flatMap.mp h
  have hi := (List.mem_range'_1.mp hi).2
  split_ifs at hz with h0
  · cases hz
  · rw [List.mem_singleton] at hz
    exact ⟨hz ▸ h0, .top i, (by omega : i < 9), hz.symm, (by omega : i < 7)⟩

theorem mem_freesInd_top {t : State} (h : z ∈ freesInd t (t.zone 7)) :
    z ≠ 0 ∧ ∃ p : Spot, p.Ok ∧ t.at p = z ∧ root p = 7 := by
  obtain ⟨h0, heq | ⟨j, hj, heq⟩⟩ := @mem_freesInd _ _ (.top 7) h
  · exact ⟨h0, .top 7, (by omega : 7 < 9), heq.symm, rfl⟩
  · exact ⟨h0, .under (.top 7) j, ⟨Or.inl rfl, hj⟩, heq.symm, rfl⟩

theorem mem_freesDind {t : State} (h : z ∈ freesTable t (freesInd t) (t.zone 8)) :
    z ≠ 0 ∧ ∃ p : Spot, p.Ok ∧ t.at p = z ∧ root p = 8 := by
  obtain ⟨h0, rfl | ⟨i, hi, hword, hz⟩⟩ := mem_freesTable h
  · exact ⟨h0, .top 8, (by omega : 8 < 9), rfl, rfl⟩
  · have hat : t.word (t.zone 8) i = t.at (.under (.top 8) i) := (if_neg h0).symm
    rw [hat] at hz
    obtain ⟨h1, heq | ⟨j, hj, heq⟩⟩ := mem_freesInd hz
    · exact ⟨h1, .under (.top 8) i, ⟨Or.inr rfl, hi⟩, heq.symm, rfl⟩
    · exact ⟨h1, .under (.under (.top 8) i) j, ⟨⟨rfl, hi⟩, hj⟩, heq.symm, rfl⟩

/-- **Where the blocks of a file hang.** -/
theorem mem_frees {t : State} (h : z ∈ frees t) : z ≠ 0 ∧ ∃ p : Spot, p.Ok ∧ t.at p = z := by
  rw [frees, List.mem_append, List.mem_append] at h
  rcases h with (h | h) | h
  · obtain ⟨h0, p, hp, heq, -⟩ := mem_freesTop h
    exact ⟨h0, p, hp, heq⟩
  · obtain ⟨h0, p, hp, heq, -⟩ := mem_freesInd_top h
    exact ⟨h0, p, hp, heq⟩
  · obtain ⟨h0, p, hp, heq, -⟩ := mem_freesDind h
    exact ⟨h0, p, hp, heq⟩

theorem nodup_freesTop {t : State} (hd : Distinct t) : (freesTop t 7).Nodup := by
  refine List.nodup_flatMap.mpr ⟨fun i _ => ?_, ?_⟩
  · split_ifs
    · exact List.nodup_nil
    · exact List.nodup_singleton _
  · refine (nodup_range _ _).pairwise_of_forall_ne fun i hi j hj hij => ?_
    have hi := (List.mem_range'_1.mp hi).2
    have hj := (List.mem_range'_1.mp hj).2
    change List.Disjoint (if t.zone i = 0 then [] else [t.zone i])
      (if t.zone j = 0 then [] else [t.zone j])
    by_cases hi0 : t.zone i = 0
    · rw [if_pos hi0]
      exact List.disjoint_nil_left _
    by_cases hj0 : t.zone j = 0
    · rw [if_pos hj0]
      exact List.disjoint_nil_right _
    rw [if_neg hi0, if_neg hj0, List.singleton_disjoint, List.mem_singleton]
    intro heq
    exact hij (Spot.top.inj (hd (.top i) (.top j) (by omega : i < 9) (by omega : j < 9) hi0 heq))

theorem nodup_freesDind {t : State} (hd : Distinct t) :
    (freesTable t (freesInd t) (t.zone 8)).Nodup := by
  by_cases h0 : t.zone 8 = 0
  · rw [freesTable, if_pos h0]
    exact List.nodup_nil
  have hat : ∀ i, t.word (t.zone 8) i = t.at (.under (.top 8) i) := fun i => (if_neg h0).symm
  have hok : ∀ i < 512, (Spot.under (.top 8) i).Ok := fun i hi => ⟨Or.inr rfl, hi⟩
  have hok' : ∀ i < 512, ∀ j < 512, (Spot.under (.under (.top 8) i) j).Ok :=
    fun i hi j hj => ⟨⟨rfl, hi⟩, hj⟩
  refine nodup_freesTable (fun i hi hword => ?_) fun i hi j hj hij hiw hjw => ?_
  · rw [hat] at hword ⊢
    refine ⟨nodup_freesInd hd ⟨rfl, hi⟩ hword, fun hin => ?_⟩
    obtain ⟨-, heq | ⟨j, hj, heq⟩⟩ := mem_freesInd hin
    · have hspot := hd (.top 8) _ (by omega : 8 < 9) (hok i hi) h0 heq
      cases hspot
    · have hspot := hd (.top 8) _ (by omega : 8 < 9) (hok' i hi j hj) h0 heq
      cases hspot
  · rw [hat, hat]
    intro z hz hz'
    obtain ⟨hne, hz⟩ := mem_freesInd hz
    obtain ⟨-, hz'⟩ := mem_freesInd hz'
    rcases hz with rfl | ⟨l, hl, rfl⟩
    · rcases hz' with heq | ⟨l', hl', heq⟩
      · exact hij (Spot.under.inj (hd _ _ (hok i hi) (hok j hj) hne heq)).2
      · exact hij (by cases hd _ _ (hok i hi) (hok' j hj l' hl') hne heq)
    · rcases hz' with heq | ⟨l', hl', heq⟩
      · exact hij (by cases hd _ _ (hok' i hi l hl) (hok j hj) hne heq)
      · have hspot := hd _ _ (hok' i hi l hl) (hok' j hj l' hl') hne heq
        exact hij (Spot.under.inj (Spot.under.inj hspot).1).2

/-- **The blocks of a file** are different ones. -/
theorem nodup_frees {t : State} (hd : Distinct t) : (frees t).Nodup := by
  have hind : (freesInd t (t.zone 7)).Nodup := by
    by_cases h0 : t.zone 7 = 0
    · rw [freesInd, freesTable, if_pos h0]
      exact List.nodup_nil
    · exact @nodup_freesInd t (.top 7) hd (Or.inl rfl) h0
  refine List.nodup_append.mpr ⟨List.nodup_append.mpr ⟨nodup_freesTop hd, hind, ?_⟩,
    nodup_freesDind hd, ?_⟩
  · intro z hz z' hz' heq
    obtain ⟨h0, p, hp, hat, hroot⟩ := mem_freesTop hz
    obtain ⟨-, q, hq, hat', hroot'⟩ := mem_freesInd_top hz'
    have hspot := hd p q hp hq (hat ▸ h0) (hat.trans (heq.trans hat'.symm))
    rw [hspot] at hroot
    omega
  · intro z hz z' hz' heq
    obtain ⟨h0, q, hq, hat', hroot'⟩ := mem_freesDind hz'
    have hp : ∃ p : Spot, p.Ok ∧ t.at p = z ∧ root p < 8 := by
      rcases List.mem_append.mp hz with hz | hz
      · obtain ⟨-, p, hp, hat, hroot⟩ := mem_freesTop hz
        exact ⟨p, hp, hat, by omega⟩
      · obtain ⟨-, p, hp, hat, hroot⟩ := mem_freesInd_top hz
        exact ⟨p, hp, hat, by omega⟩
    obtain ⟨p, hp, hat, hroot⟩ := hp
    have hspot := hd p q hp hq (by rw [hat, heq]; exact h0) (hat.trans (heq.trans hat'.symm))
    rw [hspot] at hroot
    omega

end Linux011.Fs.Names

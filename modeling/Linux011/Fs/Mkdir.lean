import Linux011.Fs.Room

/-!
# A directory that cannot be made

`sys_mkdir` undoes what it has done, or the machine stops (`Linux011.Fs.Names.mkdir_iff`). When
there is no room for the new entry, it frees the block of the new directory itself, and then `iput`
frees it once more, as `i_zone[0]` is still there: `free_block` panics. On all the other ways out
nothing is left behind.
-/

namespace Linux011.Fs.Names

open Bmap (State Place Spot Sound Outside)
open Directory (Pointer Dir slot)

variable {s s' u w : Kernel} {id dir : Id} {k : ℕ × ℕ} {name : List UInt8} {n : Inode}
  {e : Pointer} {i dev z : ℕ} {t t' : State} {path : Path} {p : Spot}

/-! ### Files that agree -/

/-- **A file is the same one**, while other zones are taken and written. -/
structure Agrees (t t' : State) : Prop where
  zone : t'.zone = t.zone
  size : t'.size = t.size
  data : ∀ x, t.used x = true → t'.data x = t.data x
  readable : ∀ x, t.used x = true → t'.readable x = t.readable x
  used : ∀ x, t.used x = true → t'.used x = true

namespace Agrees

/-- The spots have what they had: the induction is on the spot. -/
theorem at_eq (h : Agrees t t') (hs : Sound t) (hp : p.Ok) : t'.at p = t.at p := by
  induction p with
  | top k => exact congrFun h.zone k
  | under r j ih =>
    have ih := ih hp.1.ok
    by_cases h0 : t.at r = 0
    · rw [Bmap.at_under_eq_zero h0, Bmap.at_under_eq_zero (ih.trans h0)]
    · rw [Bmap.at_under h0, Bmap.at_under (ih.symm ▸ h0), ih]
      exact Bmap.word_congr (h.data _ (hs.used r hp.1.ok h0)) j

theorem sound (h : Agrees t t') (hs : Sound t) : Sound t' := by
  refine ⟨fun p q hp hq hne heq => ?_, fun p hp hne => ?_, fun p hp hne => ?_⟩
  · rw [h.at_eq hs hp] at hne heq
    rw [h.at_eq hs hq] at heq
    exact hs.inj p q hp hq hne heq
  · rw [h.at_eq hs hp] at hne ⊢
    exact h.used _ (hs.used p hp hne)
  · rw [h.at_eq hs hp] at hne ⊢
    rw [h.readable _ (hs.used p hp hne)]
    exact hs.readable p hp hne

theorem toDir (h : Agrees t t') (hd : Dir t) : Dir t' := by
  refine ⟨h.sound hd.toSound, ?_, fun k hk => ?_⟩
  · rw [h.size]
    exact hd.size
  · rw [h.size] at hk
    obtain ⟨hlt, hne⟩ := hd.whole k hk
    rw [h.at_eq hd.toSound (Spot.data_ofBlock hlt).1]
    exact ⟨hlt, hne⟩

/-- The entries are what they were. -/
theorem ino (h : Agrees t t') (hd : Dir t) (hi : i < t.size / 16) :
    Directory.ino t' (slot t' i) = Directory.ino t (slot t i) := by
  obtain ⟨hlt, hne⟩ := hd.block hi
  have hok := (Spot.data_ofBlock hlt).1
  rw [slot, slot, h.at_eq hd.toSound hok]
  exact Bmap.word_congr (h.data _ (hd.used _ hok hne)) _

theorem missing (h : Agrees t t') (hs : Sound t) (hp : p.Ok) : missing t' p = missing t p := by
  induction p with
  | top k => rw [Names.missing, Names.missing, h.at_eq hs hp]
  | under r j ih => rw [Names.missing, Names.missing, h.at_eq hs hp, ih hp.1.ok]

end Agrees

/-! ### A directory that has been begun -/

theorem NewBlock.unhold {a : Id} (h : NewBlock (s.hold a) dev z s') :
    ∃ u : Kernel, s' = u.hold a ∧ NewBlock s dev z u := by
  refine ⟨{ s' with iCount := s.iCount }, ?_, ⟨⟨h.super, h.task, h.umask, h.shape, h.maps⟩,
    h.inode, rfl, h.bCount, h.inodes, h.zones, h.full, h.mem, h.first, h.data, h.readable⟩⟩
  exact congrArg (fun c => ({ s' with iCount := c } : Kernel)) h.iCount

/-- Zone 0 is never free. -/
theorem used_zero (hc : Bitmap.Consistent s.bitmap) (dev : ℕ) : s.used dev 0 = true := by
  rw [← Bool.not_eq_false]
  intro hfree
  obtain ⟨sb, hsb, hlow, -⟩ := (used_eq_false.mp hfree).1
  have hfirst := (hc.ok dev sb hsb).first
  dsimp only at hlow
  omega

/-- **A new directory has been begun**: its inode `n` and its zone `z` are in use, if there was one
for it, and the rest is what it was. -/
structure Begun (s : Kernel) (dir id : Id) (z : ℕ) (n : Inode) (w : Kernel) : Prop
    extends Steady s w where
  iCount : w.iCount = s.iCount
  bCount : w.bCount = s.bCount
  inodes : w.bitmap.inodes = insert (id.dev, id.num) s.bitmap.inodes
  zones : w.bitmap.zones =
    if z = 0 then s.bitmap.zones else insert (dir.dev, z) s.bitmap.zones
  inode : w.inode = Function.update s.inode id n
  data : ∀ d x, z = 0 ∨ (d, x) ≠ (dir.dev, z) → w.data d x = s.data d x
  readable : ∀ d x, z = 0 ∨ (d, x) ≠ (dir.dev, z) → w.readable d x = s.readable d x

theorem Begun.setInode (h : Begun s dir id z n w) (f : Inode → Inode) :
    Begun s dir id z (f n) (w.setInode id f) := by
  refine ⟨⟨h.super, h.task, h.umask, h.shape, h.maps⟩, h.iCount, h.bCount, h.inodes, h.zones, ?_,
    h.data, h.readable⟩
  rw [Kernel.setInode]
  dsimp only
  rw [h.inode, Function.update_self, Function.update_idem]

/-- What has been written is `.` and `..` -/
theorem dots_eq (t : State) (z num up : ℕ) : (dots t z num up).zone = t.zone ∧
    (dots t z num up).size = t.size ∧ ∀ x ≠ z, (dots t z num up).data x = t.data x := by
  have hfirst := (Directory.wrote_setIno t (z, 0) num).trans
    (Directory.wrote_setName [46] _ (z, 0))
  have hsecond := (Directory.wrote_setIno (Directory.setName [46] (Directory.setIno t (z, 0) num)
    (z, 0)) (z, 1) up).trans (Directory.wrote_setName [46, 46] _ (z, 1))
  refine ⟨hsecond.zone.trans hfirst.zone, rfl, fun x hx => funext fun y => ?_⟩
  exact (hsecond.data x y (Or.inl hx)).trans (hfirst.data x y (Or.inl hx))

theorem Begun.dots (h : Begun s dir id z n w) (hdev : id.dev = dir.dev) (hz : z ≠ 0) (num up : ℕ) :
    Begun s dir id z n (w.store id (Names.dots (w.file id) z num up)) := by
  obtain ⟨hzone, hsize, hdata⟩ := dots_eq (w.file id) z num up
  refine ⟨⟨h.super, h.task, h.umask, h.shape, h.maps⟩, h.iCount, h.bCount, h.inodes, h.zones, ?_,
    fun d x hne => ?_, h.readable⟩
  · rw [Kernel.store, hzone, hsize]
    dsimp only [Kernel.file]
    rw [h.inode, Function.update_self, Function.update_idem]
  · rw [← h.data d x hne, Kernel.store]
    dsimp only
    by_cases hd : d = id.dev
    · rw [hd, Function.update_self]
      refine hdata x fun hx => (hne.resolve_left hz) ?_
      rw [hx, hd, hdev]
    · rw [Function.update_of_ne hd]

/-- The parent is what it was. -/
theorem Begun.agrees (h : Begun s dir id z n w) (hne : id ≠ dir) (hz : z ≠ 0)
    (hfree : (dir.dev, z) ∈ s.bitmap.allZones ∧ (dir.dev, z) ∉ s.bitmap.zones) :
    Agrees (s.file dir) (w.file dir) := by
  have hinode : w.inode dir = s.inode dir := by
    rw [h.inode, Function.update_of_ne (Ne.symm hne)]
  have hother : ∀ x, (s.file dir).used x = true → (dir.dev, x) ≠ (dir.dev, z) := by
    intro x hx heq
    obtain rfl := (Prod.mk.inj heq).2
    exact Bool.noConfusion (hx.symm.trans (used_eq_false.mpr hfree))
  refine ⟨congrArg Inode.zone hinode, congrArg Inode.size hinode,
    fun x hx => h.data _ _ (Or.inr (hother x hx)),
    fun x hx => h.readable _ _ (Or.inr (hother x hx)),
    fun x hx => ?_⟩
  rw [← Bool.not_eq_false]
  intro hno
  obtain ⟨hall, hnot⟩ := used_eq_false.mp hno
  rw [h.shape.allZones] at hall
  rw [h.zones, if_neg hz] at hnot
  exact Bool.noConfusion (hx.symm.trans (used_eq_false.mpr
    ⟨hall, fun hin => hnot (Set.mem_insert_of_mem _ hin)⟩))

/-- How many zones are free behind it: one less. -/
theorem Begun.freeCount (h : Begun s dir id z n w) (hz : z ≠ 0)
    (hfree : (dir.dev, z) ∈ s.bitmap.allZones ∧ (dir.dev, z) ∉ s.bitmap.zones)
    (hlt : z < 65536) : freeCount (w.file dir).used + 1 = freeCount (s.file dir).used := by
  have herase : ((Finset.range 65536).filter fun x => (w.file dir).used x = false) =
      ((Finset.range 65536).filter fun x => (s.file dir).used x = false).erase z := by
    ext x
    rw [Finset.mem_filter, Finset.mem_erase, Finset.mem_filter]
    have hw : (w.file dir).used x = false ↔ x ≠ z ∧ (s.file dir).used x = false := by
      refine used_eq_false.trans ?_
      rw [h.shape.allZones, h.zones, if_neg hz, Set.mem_insert_iff, not_or]
      refine Iff.trans ?_ (and_congr_right fun _ => used_eq_false.symm)
      rw [Prod.mk.injEq, eq_self, true_and]
      exact and_left_comm
    rw [hw]
    exact and_left_comm
  have hmem : z ∈ (Finset.range 65536).filter fun x => (s.file dir).used x = false :=
    Finset.mem_filter.mpr ⟨Finset.mem_range.mpr hlt, used_eq_false.mpr hfree⟩
  rw [Names.freeCount, Names.freeCount, herase]
  exact Finset.card_erase_add_one hmem

/-! ### What is needed -/

/-- **A directory is packed**: no entry is free, the last block is full, and of the zones that are
free too few would be left for another one if one of them were taken. -/
structure Packed (t : State) : Prop where
  entries : ∀ j < t.size / 16, Directory.ino t (slot t j) ≠ 0
  edge : t.size % 1024 = 0
  few : freeCount t.used ≤ missing t (.ofBlock (t.size / 1024))

/-- **When `add_entry` finds no room** for a directory that has been begun. -/
theorem Begun.full_iff (h : Begun s dir id z n w) (hne : id ≠ dir) (hz : z ≠ 0)
    (hfree : (dir.dev, z) ∈ s.bitmap.allZones ∧ (dir.dev, z) ∉ s.bitmap.zones)
    (hlt : z < 65536) (hd : Dir (s.file dir)) :
    (∃ t, Directory.Full firstFree (w.file dir) t) ↔ Packed (s.file dir) := by
  have hagrees := h.agrees hne hz hfree
  have hcount := h.freeCount hz hfree hlt
  have hmissing := hagrees.missing hd.toSound (Spot.data_ofBlock hd.small).1
  rw [Names.full_iff (hagrees.toDir hd) (used_zero h.maps dir.dev), hagrees.size, hmissing]
  constructor
  · rintro ⟨hentries, hedge, hfew⟩
    refine ⟨fun j hj => ?_, hedge, by omega⟩
    rw [← hagrees.ino hd hj]
    exact hentries j hj
  · rintro ⟨hentries, hedge, hfew⟩
    refine ⟨fun j hj => ?_, hedge, by omega⟩
    rw [hagrees.ino hd hj]
    exact hentries j hj

/-! ### `sys_mkdir` up to the entry -/

/-- The inode of a new directory, when `new_inode` has given it. -/
def Inode.sized (n : Inode) : Inode := { n with size := 32 }

/-- What `new_inode` gives. -/
def Kernel.newborn (s : Kernel) : Inode :=
  { Inode.zero with uid := s.task.euid, gid := s.task.egid, nlinks := 1 }

/-- **What has been done is undone**: the same inodes and zones are in use, and the inodes, with
their links, and the files, with their entries, are what they were. -/
structure Undone (s u : Kernel) : Prop where
  inodes : u.bitmap.inodes = s.bitmap.inodes
  zones : u.bitmap.zones = s.bitmap.zones
  inode : ∀ a, s.Allocated a → u.inode a = s.inode a
  file : ∀ a, s.Allocated a → u.file a = s.file a

theorem Undone.refl (s : Kernel) : Undone s s := ⟨rfl, rfl, fun _ _ => rfl, fun _ _ => rfl⟩

/-- Its links: `.` and the entry. -/
def Inode.two (n : Inode) : Inode := { n with nlinks := 2 }

/-- What is needed of the parent, and of the zone and the inode that have been found. -/
structure Ground (s : Kernel) (dir id : Id) (z : ℕ) : Prop where
  live : s.Live dir
  isDir : isDir (s.disk.inode dir) = true
  dev : id.dev = dir.dev
  fresh : ¬s.Allocated id
  ne_zero : z ≠ 0
  lt : z < 65536
  zone : (dir.dev, z) ∈ s.bitmap.allZones ∧ (dir.dev, z) ∉ s.bitmap.zones

theorem Ground.ne (h : Ground s dir id z) : id ≠ dir := by
  rintro rfl
  exact h.fresh h.live.alloc

/-- The parent is there for good. -/
theorem Begun.live (h : Begun s dir id z n w) (hg : Ground s dir id z) : w.Live dir := by
  refine ⟨?_, ?_⟩
  · rw [Kernel.Allocated, h.inodes]
    exact Set.mem_insert_of_mem _ hg.live.alloc
  · rw [h.inode, Function.update_of_ne (Ne.symm hg.ne), h.iCount]
    exact hg.live.stays

/-- **`add_entry`** in the parent of a directory that has been begun. -/
theorem Begun.addEntry (h : Begun s dir id z n w) (hw : Whole s) (hg : Ground s dir id z)
    (hname : name ≠ []) : ∃ r y,
      addEntry dir name ((w.hold dir).hold id) = .ok r (((y.hold dir).hold id).found dir r) ∧
      Grows dir w y (y.file dir) ∧
      (∀ e, r = some e → Dir (y.file dir) ∧ Within (y.file dir) e) ∧
      (r = none ↔ Packed (s.file dir)) := by
  have hgood := hw.dir dir hg.live.alloc hg.isDir
  have hagrees := h.agrees hg.ne hg.ne_zero hg.zone
  have hdir := hagrees.toDir hgood.toDir
  have h0 : (w.file dir).zone 0 ≠ 0 := by
    rw [hagrees.zone]
    exact hgood.first.1
  obtain ⟨sb, hsb⟩ := hg.live.alloc.super
  have hsb' : w.getSuper dir.dev = some sb := by
    rw [← hsb, Kernel.getSuper, Kernel.getSuper, h.super]
  obtain ⟨r, y, hrun, hgrows, hsome, hnone⟩ := addEntry_held (a := dir) (c := id) h.maps
    (hw.short.steady h.toSteady) hsb' hdir h0 hname
  rw [h.full_iff hg.ne hg.ne_zero hg.zone hg.lt hgood.toDir] at hnone
  exact ⟨r, y, hrun, hgrows, hsome, hnone⟩

end Linux011.Fs.Names

import Linux011.Lib.Wp
import Mathlib.Data.List.Basic
import Mathlib.Data.Nat.Find
import Mathlib.Logic.Function.Basic

/-!
# The super block of a device

`read_super` of `fs/super.c`, with `put_super`, and `check_disk_change` of `fs/buffer.c`. The super
block is block 1 of the device; it says how many blocks the maps of inodes and of zones have, and
they follow it. The kernel keeps the buffers of the maps in two arrays of eight.

Nothing compares what the device says with the eight. More blocks than that are stored behind the
array, and with no block at all there is no first one, whose bit 0 is to be set: either stops the
code here. It is all right if a block of the maps cannot be read before it comes to that
(`Linux011.Fs.Mount.readSuper_safe_iff`).

One call runs, and all other tasks sleep. A buffer is known by its device and block, and its data
are what `bread` finds, so that `invalidate_buffers` has nothing to do here.
-/

namespace Linux011.Fs.Mount

/-! ### The state -/

/-- `struct d_super_block`. -/
structure DSuper where
  ninodes : ℕ
  nzones : ℕ
  imapBlocks : ℕ
  zmapBlocks : ℕ
  firstdatazone : ℕ
  logZoneSize : ℕ
  maxSize : ℕ
  magic : ℕ

/-- An unsigned short, from its bytes. -/
def word (b : ℕ → UInt8) (i : ℕ) : ℕ := (b i).toNat + 256 * (b (i + 1)).toNat

/-- The super block in the data of block 1. -/
def DSuper.ofData (b : ℕ → UInt8) : DSuper where
  ninodes := word b 0
  nzones := word b 2
  imapBlocks := word b 4
  zmapBlocks := word b 6
  firstdatazone := word b 8
  logZoneSize := word b 10
  maxSize := word b 12 + 65536 * word b 14
  magic := word b 16

/-- A buffer: its device and block. -/
abbrev Buffer := ℕ × ℕ

/-- `s_imap` or `s_zmap`. -/
abbrev Map := Fin 8 → Option Buffer

/-- `struct super_block`. -/
structure SuperBlock extends DSuper where
  imap : Map
  zmap : Map
  dev : ℕ
  isup : Option ℕ
  imount : Option ℕ
  time : ℕ
  lock : Bool
  rdOnly : Bool
  dirt : Bool

/-- `NR_SUPER` -/
def nrSuper : ℕ := 8

/-- **The super blocks and the buffers.** -/
structure Kernel where
  super : ℕ → SuperBlock
  rootDev : ℕ
  /-- What is in the blocks of a device. -/
  data : ℕ → ℕ → ℕ → UInt8
  /-- `bread` succeeds. -/
  readable : ℕ → ℕ → Bool
  /-- `b_count` -/
  bCount : Buffer → ℕ

/-- What stops the code. -/
inductive Halt
  | panic (message : String)
  /-- A store into a map with this index, which is not in the array. -/
  | overrun (i : ℕ)
  /-- A NULL buffer is written to. -/
  | null
  /-- The super block stays locked. -/
  | hang

/-- Code of the kernel. -/
abbrev K := EStateM Halt Kernel

namespace Kernel

variable (s : Kernel)

/-- A store into one super block. -/
def setSuper (k : ℕ) (f : SuperBlock → SuperBlock) : Kernel :=
  { s with super := Function.update s.super k (f (s.super k)) }

/-- The super block of a device. -/
def find (dev : ℕ) : Option ℕ := (List.range nrSuper).find? fun k => (s.super k).dev = dev

/-- One user of a buffer more. -/
def grab (bh : Buffer) : Kernel :=
  { s with bCount := Function.update s.bCount bh (s.bCount bh + 1) }

/-- A store into the data of a buffer. -/
def setData (bh : Buffer) (f : (ℕ → UInt8) → ℕ → UInt8) : Kernel :=
  { s with
    data := Function.update s.data bh.1
      (Function.update (s.data bh.1) bh.2 (f (s.data bh.1 bh.2))) }

end Kernel

/-! ### Buffers and locks -/

/-- `brelse` -/
def brelse : Option Buffer → K PUnit
  | none => pure ⟨⟩
  | some bh => do
    let s ← get
    if s.bCount bh = 0 then throw (.panic "Trying to free free buffer")
    else set { s with bCount := Function.update s.bCount bh (s.bCount bh - 1) }

/-- `bread` -/
def bread (dev block : ℕ) : K (Option Buffer) := do
  modify fun s => s.grab (dev, block)
  let s ← get
  if s.readable dev block then pure (some (dev, block))
  else do
    brelse (some (dev, block))
    pure none

/-- `wait_on_super` -/
def waitOnSuper (k : ℕ) : K PUnit := do
  let s ← get
  if (s.super k).lock then throw .hang else pure ⟨⟩

/-- `lock_super` -/
def lockSuper (k : ℕ) : K PUnit := do
  waitOnSuper k
  modify fun s => s.setSuper k fun sb => { sb with lock := true }

/-- `free_super` -/
def freeSuper (k : ℕ) : K PUnit :=
  modify fun s => s.setSuper k fun sb => { sb with lock := false }

/-- `get_super` -/
def getSuper (dev : ℕ) : K (Option ℕ) := do
  if dev = 0 then pure none
  else do
    let s ← get
    match s.find dev with
    | none => pure none
    | some k => do
      waitOnSuper k
      pure (some k)

/-- What is in an array at `i`. -/
def Map.slot (m : Map) (i : ℕ) : Option Buffer := if h : i < 8 then m ⟨i, h⟩ else none

/-- The loop that gives the buffers of a map back. -/
def releaseMap (map : SuperBlock → Map) (k : ℕ) : K PUnit :=
  forFrom 0 8 fun i => do
    let s ← get
    brelse ((map (s.super k)).slot i)

/-- **`put_super`** -/
def putSuper (dev : ℕ) : K PUnit := do
  let s ← get
  if dev = s.rootDev then pure ⟨⟩
  else do
    match ← getSuper dev with
    | none => pure ⟨⟩
    | some k => do
      let s ← get
      if (s.super k).imount.isSome then pure ⟨⟩
      else do
        lockSuper k
        modify fun s => s.setSuper k fun sb => { sb with dev := 0 }
        releaseMap SuperBlock.imap k
        releaseMap SuperBlock.zmap k
        freeSuper k

/-- `check_disk_change`; `changed` is what `floppy_change` says. -/
def checkDiskChange (dev : ℕ) (changed : Bool) : K PUnit := do
  if dev / 256 = 2 ∧ changed then
    forFrom 0 nrSuper fun i => do
      let s ← get
      if (s.super i).dev = dev then putSuper dev else pure ⟨⟩
  else pure ⟨⟩

/-! ### `read_super` -/

/-- A store into `s_imap`. -/
def putImap (m : Map) (sb : SuperBlock) : SuperBlock := { sb with imap := m }

/-- A store into `s_zmap`. -/
def putZmap (m : Map) (sb : SuperBlock) : SuperBlock := { sb with zmap := m }

/-- `s->s_imap[i] = bh`, or `s_zmap`. -/
def storeMap (put : Map → SuperBlock → SuperBlock) (map : SuperBlock → Map) (k i : ℕ)
    (bh : Option Buffer) : K PUnit := do
  if h : i < 8 then
    modify fun s => s.setSuper k fun sb => put (Function.update (map sb) ⟨i, h⟩ bh) sb
  else throw (.overrun i)

/-- **The loop that reads a map**, with `n` blocks to go: the block behind what it has read. -/
def readMap (dev : ℕ) (store : ℕ → Option Buffer → K PUnit) : ℕ → ℕ → ℕ → K ℕ
  | 0, _, block => pure block
  | n + 1, i, block => do
    let bh ← bread dev block
    store i bh
    if bh.isSome then readMap dev store n (i + 1) (block + 1) else pure block

/-- `b_data[0] |= 1` -/
def orOne (b : ℕ → UInt8) : ℕ → UInt8 := Function.update b 0 (b 0 ||| 1)

/-- `s_imap[0]->b_data[0] |= 1`, or `s_zmap`. -/
def setFirstBit : Option Buffer → K PUnit
  | none => throw .null
  | some bh => modify fun s => s.setData bh orOne

/-- The super block is not to be had: `s_dev` is 0 again. -/
def giveUp (k : ℕ) : K (Option ℕ) := do
  modify fun s => s.setSuper k fun sb => { sb with dev := 0 }
  freeSuper k
  pure none

/-- What comes behind the loops over the maps. -/
def checkMaps (k block : ℕ) : K (Option ℕ) := do
  let s ← get
  if block ≠ 2 + (s.super k).imapBlocks + (s.super k).zmapBlocks then do
    releaseMap SuperBlock.imap k
    releaseMap SuperBlock.zmap k
    giveUp k
  else do
    setFirstBit (Map.slot (s.super k).imap 0)
    setFirstBit (Map.slot (s.super k).zmap 0)
    freeSuper k
    pure (some k)

/-- The maps are read, when the super block has been. -/
def readMaps (dev k : ℕ) : K (Option ℕ) := do
  modify fun s => s.setSuper k fun sb => { sb with imap := fun _ => none, zmap := fun _ => none }
  let s ← get
  let block ← readMap dev (storeMap putImap SuperBlock.imap k) (s.super k).imapBlocks 0 2
  let block ← readMap dev (storeMap putZmap SuperBlock.zmap k) (s.super k).zmapBlocks 0 block
  checkMaps k block

/-- The super block `k` is filled, which was empty. -/
def fillSuper (dev k : ℕ) : K (Option ℕ) := do
  modify fun s => s.setSuper k fun sb =>
    { sb with dev := dev, isup := none, imount := none, time := 0, rdOnly := false, dirt := false }
  lockSuper k
  match ← bread dev 1 with
  | none => giveUp k
  | some bh => do
    modify fun s => s.setSuper k fun sb =>
      { sb with toDSuper := .ofData (s.data bh.1 bh.2) }
    brelse (some bh)
    let s ← get
    if (s.super k).magic ≠ 0x137F then giveUp k else readMaps dev k

/-- **`read_super`** -/
def readSuper (dev : ℕ) (changed : Bool) : K (Option ℕ) := do
  if dev = 0 then pure none
  else do
    checkDiskChange dev changed
    match ← getSuper dev with
    | some k => pure (some k)
    | none => do
      let s ← get
      match s.find 0 with
      | none => pure none
      | some k => fillSuper dev k

/-! ### What is meant to come of it -/

/-- The buffers of `n` blocks from `lo` on. -/
def blocks (dev lo n : ℕ) : Map := fun i => if i.val < n then some (dev, lo + i.val) else none

/-- **A super block with its maps**: every block of the maps is in its buffer, and bit 0 of both
is set. -/
structure Kernel.Complete (s : Kernel) (k : ℕ) : Prop where
  imapBlocks : 1 ≤ (s.super k).imapBlocks ∧ (s.super k).imapBlocks ≤ 8
  zmapBlocks : 1 ≤ (s.super k).zmapBlocks ∧ (s.super k).zmapBlocks ≤ 8
  imap : (s.super k).imap = blocks (s.super k).dev 2 (s.super k).imapBlocks
  zmap : (s.super k).zmap =
    blocks (s.super k).dev (2 + (s.super k).imapBlocks) (s.super k).zmapBlocks
  imapBit : s.data (s.super k).dev 2 0 &&& 1 = 1
  zmapBit : s.data (s.super k).dev (2 + (s.super k).imapBlocks) 0 &&& 1 = 1
  count : ∀ b, 2 ≤ b → b < 2 + (s.super k).imapBlocks + (s.super k).zmapBlocks →
    1 ≤ s.bCount ((s.super k).dev, b)

/-- **The table of super blocks**, while nobody is at work on it. -/
structure Kernel.Ok (s : Kernel) : Prop where
  lock : ∀ k < nrSuper, (s.super k).lock = false
  devs : ∀ k < nrSuper, ∀ j < nrSuper, (s.super k).dev ≠ 0 →
    (s.super k).dev = (s.super j).dev → k = j
  complete : ∀ k < nrSuper, (s.super k).dev ≠ 0 → s.Complete k

/-- **How `read_super` returns**: with the super block of the device, complete and not locked; or
with none, and then no super block has been taken, and no buffer. -/
def Returns (s : Kernel) (dev : ℕ) (r : Option ℕ) (t : Kernel) : Prop :=
  t.Ok ∧
    match r with
    | some k => k < nrSuper ∧ (t.super k).dev = dev ∧ (t.super k).lock = false ∧ t.Complete k
    | none => t.bCount = s.bCount ∧
      ∀ k < nrSuper, (s.super k).dev = 0 → (t.super k).dev = 0 ∧ (t.super k).lock = false

/-- `read_super` has to read the super block, and there is room for it. -/
def Kernel.Reads (s : Kernel) (dev : ℕ) : Prop :=
  dev ≠ 0 ∧ s.find dev = none ∧ s.find 0 ≠ none

/-- **What the device must be like**: there is no file system on it, or its maps have one to eight
blocks each; or one of the blocks that are read, up to the eighth of a map, cannot be read. -/
def Kernel.Sound (s : Kernel) (dev : ℕ) : Prop :=
  let sb := DSuper.ofData (s.data dev 1)
  s.readable dev 1 = false ∨ sb.magic ≠ 0x137F ∨
    (∃ i < 8, i < sb.imapBlocks ∧ s.readable dev (2 + i) = false) ∨
    sb.imapBlocks ≤ 8 ∧
      ((∃ i < 8, i < sb.zmapBlocks ∧ s.readable dev (2 + sb.imapBlocks + i) = false) ∨
        1 ≤ sb.imapBlocks ∧ 1 ≤ sb.zmapBlocks ∧ sb.zmapBlocks ≤ 8)

variable {s t : Kernel} {dev k lo hi i n : ℕ}

/-! ### Buffers that are in use -/

/-- Those of the blocks from `lo` to `hi`. -/
def range (dev lo hi : ℕ) (bh : Buffer) : ℕ := if bh.1 = dev ∧ lo ≤ bh.2 ∧ bh.2 < hi then 1 else 0

/-- They have one user more. -/
def Kernel.hold (s : Kernel) (dev lo hi : ℕ) : Kernel :=
  { s with bCount := fun bh => s.bCount bh + range dev lo hi bh }

theorem hold_of_le (h : hi ≤ lo) : s.hold dev lo hi = s := by
  have hrange : range dev lo hi = fun _ => 0 := by
    ext bh
    rw [range, if_neg]
    omega
  rw [Kernel.hold, hrange]
  rfl

theorem range_succ (h : lo ≤ hi) (bh : Buffer) :
    range dev lo (hi + 1) bh = range dev lo hi bh + if bh = (dev, hi) then 1 else 0 := by
  rw [range, range]
  by_cases heq : bh = (dev, hi)
  · rw [if_pos heq, heq, if_pos ⟨rfl, h, Nat.lt_succ_self hi⟩,
      if_neg fun h => Nat.lt_irrefl hi h.2.2]
  · rw [if_neg heq, Nat.add_zero]
    have hne : bh.1 = dev → bh.2 ≠ hi := fun h1 h2 => heq (Prod.ext h1 h2)
    refine if_congr ?_ rfl rfl
    omega

theorem range_eq_succ (h : lo < hi) (bh : Buffer) :
    range dev lo hi bh = range dev (lo + 1) hi bh + if bh = (dev, lo) then 1 else 0 := by
  rw [range, range]
  by_cases heq : bh = (dev, lo)
  · rw [if_pos heq, heq, if_pos ⟨rfl, le_rfl, h⟩, if_neg fun h => Nat.lt_irrefl lo h.2.1]
  · rw [if_neg heq, Nat.add_zero]
    have hne : bh.1 = dev → bh.2 ≠ lo := fun h1 h2 => heq (Prod.ext h1 h2)
    refine if_congr ?_ rfl rfl
    omega

/-- The next block is read. -/
theorem grab_hold (h : lo ≤ hi) : (s.hold dev lo hi).grab (dev, hi) = s.hold dev lo (hi + 1) := by
  rw [Kernel.grab, Kernel.hold, Kernel.hold]
  congr 1
  ext bh
  rw [range_succ h, Function.update_apply]
  split_ifs with heq
  · rw [heq]
    rfl
  · rfl

/-- The first block is given back. -/
theorem brelse_hold (h : lo < hi) :
    brelse (some (dev, lo)) (s.hold dev lo hi) = .ok ⟨⟩ (s.hold dev (lo + 1) hi) := by
  have hcount : (s.hold dev lo hi).bCount (dev, lo) =
      (s.hold dev (lo + 1) hi).bCount (dev, lo) + 1 := by
    change s.bCount _ + _ = s.bCount _ + _ + 1
    rw [range_eq_succ h, if_pos rfl, Nat.add_assoc]
  have hne : (s.hold dev lo hi).bCount (dev, lo) ≠ 0 := by
    rw [hcount]
    exact Nat.succ_ne_zero _
  refine ok_of_wp ?_
  rw [brelse, wp_bind, wp_get, if_neg hne, wp_set]
  refine ⟨rfl, ?_⟩
  rw [hcount, Nat.add_sub_cancel]
  change { s with bCount := _ } = { s with bCount := _ }
  congr 1
  ext bh
  rw [Function.update_apply]
  split_ifs with heq
  · rw [heq]
    rfl
  · change s.bCount bh + range dev lo hi bh = s.bCount bh + range dev (lo + 1) hi bh
    rw [range_eq_succ h, if_neg heq, Nat.add_zero]

/-- A block that cannot be read is given back at once. -/
theorem bread_eq : bread dev n s =
    if s.readable dev n then .ok (some (dev, n)) (s.grab (dev, n)) else .ok none s := by
  have hgrab : s.grab (dev, n) = s.hold dev n (n + 1) := by
    rw [← grab_hold le_rfl, hold_of_le le_rfl]
  by_cases hr : s.readable dev n = true
  · rw [if_pos hr]
    refine ok_of_wp ?_
    rw [bread, wp_bind, wp_modify, wp_bind, wp_get]
    change wp (if s.readable dev n = true then _ else _) _ _ _
    rw [if_pos hr]
    exact ⟨rfl, rfl⟩
  · rw [if_neg hr]
    refine ok_of_wp ?_
    rw [bread, wp_bind, wp_modify, wp_bind, wp_get]
    change wp (if s.readable dev n = true then _ else _) _ _ _
    rw [if_neg hr, hgrab, wp_bind, wp_iff_of_ok (brelse_hold (Nat.lt_succ_self n)),
      hold_of_le le_rfl]
    exact ⟨rfl, rfl⟩

/-! ### The loops over a map -/

theorem slot_blocks (h : n ≤ 8) :
    Map.slot (blocks dev lo n) i = if i < n then some (dev, lo + i) else none := by
  rw [Map.slot]
  by_cases hi : i < 8
  · rw [dif_pos hi]
    rfl
  · rw [dif_neg hi, if_neg fun hlt => hi (lt_of_lt_of_le hlt h)]

/-- **The buffers of a map** are given back. -/
theorem releaseMap_hold {map : SuperBlock → Map} (hmap : map (s.super k) = blocks dev lo n)
    (h : n ≤ 8) : releaseMap map k (s.hold dev lo (lo + n)) = .ok ⟨⟩ s := by
  refine ok_of_wp ?_
  rw [releaseMap]
  refine wp_post (wp_forFrom (fun i t => t = s.hold dev (lo + i) (lo + n)) ?_ ?_) ?_
  · rfl
  · rintro i t - hi rfl
    rw [wp_bind, wp_get]
    change wp (brelse (Map.slot (map (s.super k)) i)) _ _ _
    rw [hmap, slot_blocks h]
    split_ifs with hlt
    · rw [wp_iff_of_ok (brelse_hold (Nat.add_lt_add_left hlt lo)), Nat.add_assoc]
    · rw [brelse, wp_pure, hold_of_le (by omega), hold_of_le (by omega)]
  · rintro ⟨⟩ t rfl
    exact ⟨rfl, hold_of_le (by omega)⟩

/-- One of the two arrays. -/
structure Field (put : Map → SuperBlock → SuperBlock) (map : SuperBlock → Map) : Prop where
  get_put : ∀ m sb, map (put m sb) = m
  put_put : ∀ m m' sb, put m (put m' sb) = put m sb
  put_get : ∀ sb, put (map sb) sb = sb

variable {put : Map → SuperBlock → SuperBlock} {map : SuperBlock → Map} {base : ℕ}

/-- **A map of which `i` blocks have been read.** -/
def reading (put : Map → SuperBlock → SuperBlock) (s : Kernel) (dev k base i : ℕ) : Kernel :=
  (s.hold dev base (base + i)).setSuper k (put (blocks dev base i))

theorem setSuper_setSuper (f g : SuperBlock → SuperBlock) :
    (s.setSuper k f).setSuper k g = s.setSuper k fun sb => g (f sb) := by
  rw [Kernel.setSuper, Kernel.setSuper, Kernel.setSuper]
  dsimp only
  rw [Function.update_self, Function.update_idem]

theorem storeMap_eq (hf : Field put map) {m : Map} (h : i < 8) (bh : Option Buffer) :
    storeMap put map k i bh (s.setSuper k (put m)) =
      .ok ⟨⟩ (s.setSuper k (put (Function.update m ⟨i, h⟩ bh))) := by
  refine ok_of_wp ?_
  rw [storeMap, dif_pos h, wp_modify, setSuper_setSuper]
  refine ⟨rfl, ?_⟩
  congr 1
  ext sb : 1
  rw [hf.get_put, hf.put_put]

theorem storeMap_overrun (h : 8 ≤ i) (bh : Option Buffer) (s : Kernel) :
    storeMap put map k i bh s = .error (.overrun i) s := by
  rw [storeMap, dif_neg (Nat.not_lt.mpr h)]
  rfl

/-- One more block is stored. -/
theorem storeMap_some (hf : Field put map) (h : i < 8) :
    storeMap put map k i (some (dev, base + i))
        ((reading put s dev k base i).grab (dev, base + i)) =
      .ok ⟨⟩ (reading put s dev k base (i + 1)) := by
  have hgrab : (reading put s dev k base i).grab (dev, base + i) =
      (s.hold dev base (base + (i + 1))).setSuper k (put (blocks dev base i)) := by
    rw [← Nat.add_assoc, ← grab_hold (Nat.le_add_right base i)]
    rfl
  have hblocks : Function.update (blocks dev base i) ⟨i, h⟩ (some (dev, base + i)) =
      blocks dev base (i + 1) := by
    ext j : 1
    rw [Function.update_apply, blocks, blocks]
    by_cases hj : j = ⟨i, h⟩
    · rw [if_pos hj, hj, if_pos (Nat.lt_succ_self i)]
    · have hne : j.val ≠ i := fun heq => hj (Fin.ext heq)
      rw [if_neg hj]
      exact if_congr (by omega) rfl rfl
  rw [hgrab, storeMap_eq hf h, hblocks]
  rfl

/-- NULL is stored where nothing has been. -/
theorem storeMap_none (hf : Field put map) (h : i < 8) :
    storeMap put map k i none (reading put s dev k base i) =
      .ok ⟨⟩ (reading put s dev k base i) := by
  have hblocks : Function.update (blocks dev base i) ⟨i, h⟩ none = blocks dev base i := by
    rw [Function.update_eq_self_iff, blocks, if_neg (Nat.lt_irrefl i)]
  rw [reading, storeMap_eq hf h, hblocks]

/-- **One round** of the loop. -/
theorem wp_readMap_succ {Q : ℕ → Kernel → Prop} {E : Halt → Kernel → Prop} (hf : Field put map)
    (h : i < 8) :
    wp (readMap dev (storeMap put map k) (n + 1) i (base + i)) Q E (reading put s dev k base i) ↔
      if s.readable dev (base + i) then
        wp (readMap dev (storeMap put map k) n (i + 1) (base + (i + 1))) Q E
          (reading put s dev k base (i + 1))
      else Q (base + i) (reading put s dev k base i) := by
  have hread : (reading put s dev k base i).readable = s.readable := rfl
  rw [readMap, wp_bind]
  by_cases hr : s.readable dev (base + i) = true
  · have hbread : bread dev (base + i) (reading put s dev k base i) = _ := bread_eq
    rw [hread, if_pos hr] at hbread
    rw [wp_iff_of_ok hbread, wp_bind, wp_iff_of_ok (storeMap_some hf h), if_pos hr]
    rfl
  · have hbread : bread dev (base + i) (reading put s dev k base i) = _ := bread_eq
    rw [hread, if_neg hr] at hbread
    rw [wp_iff_of_ok hbread, wp_bind, wp_iff_of_ok (storeMap_none hf h), if_neg hr]
    rfl

/-- **All blocks can be read**, and there is room for them. -/
theorem readMap_all (hf : Field put map) (hle : i + n ≤ 8)
    (hr : ∀ j, i ≤ j → j < i + n → s.readable dev (base + j) = true) :
    readMap dev (storeMap put map k) n i (base + i) (reading put s dev k base i) =
      .ok (base + (i + n)) (reading put s dev k base (i + n)) := by
  induction n generalizing i with
  | zero => rfl
  | succ n ih =>
    refine ok_of_wp ((wp_readMap_succ hf (by omega)).mpr ?_)
    have heq : i + (n + 1) = i + 1 + n := by omega
    rw [if_pos (hr i le_rfl (by omega)), heq,
      wp_iff_of_ok (ih (by omega) fun j hij hj => hr j (by omega) (by omega))]
    exact ⟨rfl, rfl⟩

/-- **A block cannot be read**, and there is room for those before it. -/
theorem readMap_stops (hf : Field put map) {j : ℕ} (hij : i ≤ j) (hj : j < i + n) (hlt : j < 8)
    (hr : ∀ j', i ≤ j' → j' < j → s.readable dev (base + j') = true)
    (hno : s.readable dev (base + j) = false) :
    readMap dev (storeMap put map k) n i (base + i) (reading put s dev k base i) =
      .ok (base + j) (reading put s dev k base j) := by
  induction n generalizing i with
  | zero => omega
  | succ n ih =>
    refine ok_of_wp ((wp_readMap_succ hf (by omega)).mpr ?_)
    rcases Nat.eq_or_lt_of_le hij with rfl | hlt'
    · rw [if_neg (ne_true_of_eq_false hno)]
      exact ⟨rfl, rfl⟩
    · rw [if_pos (hr i le_rfl hlt'),
        wp_iff_of_ok (ih hlt' (by omega) fun j' h h' => hr j' (by omega) h')]
      exact ⟨rfl, rfl⟩

/-- **There are more blocks than room for them**, and nothing stops the loop before. -/
theorem readMap_overruns (hf : Field put map) (hi : i ≤ 8) (hlt : 8 < i + n)
    (hr : ∀ j, i ≤ j → j < 8 → s.readable dev (base + j) = true) :
    wp (readMap dev (storeMap put map k) n i (base + i)) (fun _ _ => False) (fun _ _ => True)
      (reading put s dev k base i) := by
  induction n generalizing i with
  | zero => omega
  | succ n ih =>
    rcases Nat.lt_or_ge i 8 with h | h
    · rw [wp_readMap_succ hf h, if_pos (hr i le_rfl h)]
      exact ih (by omega) (by omega) fun j hij hj => hr j (by omega) hj
    · have hstore : ∀ (bh : Option Buffer) (s : Kernel), wp (storeMap put map k i bh >>= fun _ =>
          if bh.isSome then readMap dev (storeMap put map k) n (i + 1) (base + i + 1)
          else pure (base + i)) (fun _ _ => False) (fun _ _ => True) s := by
        intro bh s
        rw [wp_bind, wp_iff_of_error (storeMap_overrun h bh s)]
        trivial
      rw [readMap, wp_bind, wp, bread_eq]
      split_ifs
      · exact hstore _ _
      · exact hstore _ _

/-! ### Both maps -/

/-- Both maps, of which `i` and `j` blocks have been read. -/
def Kernel.loaded (u : Kernel) (dev k i j : ℕ) : Kernel :=
  u.setSuper k fun sb => { sb with imap := blocks dev 2 i, zmap := blocks dev (2 + i) j }

/-- They are in use. -/
def Kernel.full (u : Kernel) (dev k i j : ℕ) : Kernel :=
  ((u.loaded dev k i j).hold dev (2 + i) (2 + i + j)).hold dev 2 (2 + i)

theorem imapField : Field putImap SuperBlock.imap :=
  ⟨fun _ _ => rfl, fun _ _ _ => rfl, fun _ => rfl⟩

theorem zmapField : Field putZmap SuperBlock.zmap :=
  ⟨fun _ _ => rfl, fun _ _ _ => rfl, fun _ => rfl⟩

variable {u : Kernel} {j d : ℕ}

@[simp] theorem setSuper_self (s : Kernel) (k : ℕ) (f : SuperBlock → SuperBlock) :
    (s.setSuper k f).super k = f (s.super k) := Function.update_self ..

theorem setSuper_of_ne (s : Kernel) (f : SuperBlock → SuperBlock) (h : j ≠ k) :
    (s.setSuper k f).super j = s.super j := Function.update_of_ne h ..

theorem loaded_self : (u.loaded dev k i j).super k =
    { u.super k with imap := blocks dev 2 i, zmap := blocks dev (2 + i) j } :=
  setSuper_self ..

/-- No block has been read yet. -/
theorem reading_zero (hf : Field put map) (h : map (s.super k) = fun _ => none) (base : ℕ) :
    reading put s dev k base 0 = s := by
  have hblocks : blocks dev base 0 = fun _ => none := by
    ext i : 1
    rw [blocks, if_neg (Nat.not_lt_zero _)]
  rw [reading, Nat.add_zero, hold_of_le le_rfl, hblocks, ← h, Kernel.setSuper, hf.put_get,
    Function.update_eq_self]

theorem hold_comm (dev' lo' hi' : ℕ) :
    (s.hold dev lo hi).hold dev' lo' hi' = (s.hold dev' lo' hi').hold dev lo hi := by
  rw [Kernel.hold, Kernel.hold, Kernel.hold, Kernel.hold]
  congr 1
  ext bh
  exact Nat.add_right_comm ..

theorem reading_reading :
    reading putZmap (reading putImap u dev k 2 i) dev k (2 + i) j = u.full dev k i j := by
  rw [Kernel.full, hold_comm]
  exact setSuper_setSuper (s := (u.hold dev 2 (2 + i)).hold dev (2 + i) (2 + i + j))
    (putImap (blocks dev 2 i)) (putZmap (blocks dev (2 + i) j))

/-- **A map is not complete**: the buffers are given back, and the super block is not to be had. -/
theorem checkMaps_short (hi : i ≤ 8) (hj : j ≤ 8)
    (h : i + j ≠ (u.super k).imapBlocks + (u.super k).zmapBlocks) :
    checkMaps k (2 + i + j) (u.full dev k i j) =
      .ok none ((u.loaded dev k i j).setSuper k fun sb => { sb with dev := 0, lock := false }) := by
  refine ok_of_wp ?_
  have himap : SuperBlock.imap (((u.loaded dev k i j).hold dev (2 + i) (2 + i + j)).super k) =
      blocks dev 2 i := congrArg SuperBlock.imap loaded_self
  have hzmap : SuperBlock.zmap ((u.loaded dev k i j).super k) = blocks dev (2 + i) j :=
    congrArg SuperBlock.zmap loaded_self
  have hne : 2 + i + j ≠ 2 + ((u.full dev k i j).super k).imapBlocks +
      ((u.full dev k i j).super k).zmapBlocks := by
    change _ ≠ 2 + ((u.loaded dev k i j).super k).imapBlocks +
      ((u.loaded dev k i j).super k).zmapBlocks
    rw [loaded_self]
    dsimp only
    omega
  rw [checkMaps, wp_bind, wp_get, if_pos hne, wp_bind, Kernel.full,
    wp_iff_of_ok (releaseMap_hold himap hi), wp_bind, wp_iff_of_ok (releaseMap_hold hzmap hj),
    giveUp, wp_bind, wp_modify, wp_bind, freeSuper, wp_modify, setSuper_setSuper]
  exact ⟨rfl, rfl⟩

theorem or_one_and_one (x : UInt8) : (x ||| 1) &&& 1 = 1 := by
  apply UInt8.toBitVec_inj.mp
  ext i
  simp only [UInt8.toBitVec_and, UInt8.toBitVec_or, BitVec.getElem_and, BitVec.getElem_or]
  rcases x.toBitVec[i] with _ | _
  · rw [Bool.false_or, Bool.and_self]
  · rw [Bool.true_or, Bool.true_and]

theorem setData_self (s : Kernel) (dev b : ℕ) (f : (ℕ → UInt8) → ℕ → UInt8) :
    (s.setData (dev, b) f).data dev b = f (s.data dev b) := by
  rw [Kernel.setData]
  dsimp only
  rw [Function.update_self, Function.update_self]

theorem setData_of_ne (s : Kernel) (dev : ℕ) {b b' : ℕ} (f : (ℕ → UInt8) → ℕ → UInt8)
    (h : b' ≠ b) : (s.setData (dev, b) f).data dev b' = s.data dev b' := by
  rw [Kernel.setData]
  dsimp only
  rw [Function.update_self, Function.update_of_ne h]

/-- The maps are read into `k`, which was empty, from a state `t`. -/
structure Filling (t u : Kernel) (dev k : ℕ) : Prop where
  fresh : ∀ j < nrSuper, (t.super j).dev ≠ dev
  lt : k < nrSuper
  dev : (u.super k).dev = dev
  super : ∀ j, j ≠ k → u.super j = t.super j
  data : u.data = t.data
  readable : u.readable = t.readable
  count : u.bCount = t.bCount
  free : (t.super k).dev = 0

/-- What becomes of the table. -/
theorem Filling.ok (h : Filling t u dev k) (ht : t.Ok) {w : Kernel}
    (hsuper : ∀ j, j ≠ k → w.super j = t.super j) (hcount : ∀ bh, t.bCount bh ≤ w.bCount bh)
    (hdata : ∀ d, d ≠ dev → w.data d = t.data d) (hlock : (w.super k).lock = false)
    (hk : (w.super k).dev ≠ 0 → (w.super k).dev = dev ∧ w.Complete k) : w.Ok := by
  constructor
  · intro j hj
    by_cases hjk : j = k
    · rw [hjk]
      exact hlock
    · rw [hsuper j hjk]
      exact ht.lock j hj
  · intro i hi j hj h0 heq
    by_cases hik : i = k
    · by_cases hjk : j = k
      · rw [hik, hjk]
      · rw [hik] at h0 heq
        rw [(hk h0).1, hsuper j hjk] at heq
        exact absurd heq.symm (h.fresh j hj)
    · rw [hsuper i hik] at h0 heq
      by_cases hjk : j = k
      · rw [hjk] at heq
        rw [heq] at h0
        rw [(hk h0).1] at heq
        exact absurd heq (h.fresh i hi)
      · rw [hsuper j hjk] at heq
        exact ht.devs i hi j hj h0 heq
  · intro j hj h0
    by_cases hjk : j = k
    · rw [hjk] at h0 ⊢
      exact (hk h0).2
    · have hj' := hsuper j hjk
      rw [hj'] at h0
      have hc := ht.complete j hj h0
      have hd := hdata _ (h.fresh j hj)
      constructor
      · rw [hj']
        exact hc.imapBlocks
      · rw [hj']
        exact hc.zmapBlocks
      · rw [hj']
        exact hc.imap
      · rw [hj']
        exact hc.zmap
      · rw [hj', hd]
        exact hc.imapBit
      · rw [hj', hd]
        exact hc.zmapBit
      · rw [hj']
        exact fun b hlo hhi => (hc.count b hlo hhi).trans (hcount _)

/-- **The super block is not to be had**, and it is as if it had never been taken. -/
theorem Filling.gone (h : Filling t u dev k) (ht : t.Ok) (f : SuperBlock → SuperBlock) :
    Returns t dev none (u.setSuper k fun sb => { f sb with dev := 0, lock := false }) := by
  have hself : (u.setSuper k fun sb => { f sb with dev := 0, lock := false }).super k =
      { f (u.super k) with dev := 0, lock := false } := setSuper_self ..
  refine ⟨h.ok ht (fun j hj => ?_) (fun bh => ?_) (fun d _ => ?_) ?_ fun hne => ?_, h.count,
    fun j hj hfree => ?_⟩
  · rw [setSuper_of_ne _ _ hj]
    exact h.super j hj
  · exact (congrFun h.count bh).ge
  · exact congrFun h.data d
  · rw [hself]
  · rw [hself] at hne
    exact absurd rfl hne
  · by_cases hjk : j = k
    · rw [hjk, hself]
      exact ⟨rfl, rfl⟩
    · rw [setSuper_of_ne _ _ hjk, h.super j hjk]
      exact ⟨hfree, ht.lock j hj⟩

theorem Filling.giveUp (h : Filling t u dev k) (ht : t.Ok) :
    wp (giveUp k) (Returns t dev) (fun _ _ => False) u := by
  rw [Mount.giveUp, wp_bind, wp_modify, wp_bind, freeSuper, wp_modify, setSuper_setSuper, wp_pure]
  exact h.gone ht fun sb => sb

/-- **A map is not complete.** -/
theorem Filling.short (h : Filling t u dev k) (ht : t.Ok) (hi : i ≤ 8) (hj : j ≤ 8)
    (hne : i + j ≠ (u.super k).imapBlocks + (u.super k).zmapBlocks) :
    wp (checkMaps k (2 + i + j)) (Returns t dev) (fun _ _ => False) (u.full dev k i j) := by
  rw [wp_iff_of_ok (checkMaps_short hi hj hne), Kernel.loaded, setSuper_setSuper]
  exact h.gone ht fun sb => { sb with imap := blocks dev 2 i, zmap := blocks dev (2 + i) j }

/-- Both maps have been read: the super block, and the number that the loops have come to. -/
theorem full_self (hv : u.full dev k (u.super k).imapBlocks (u.super k).zmapBlocks = v) :
    v.super k = { u.super k with
      imap := blocks dev 2 (u.super k).imapBlocks
      zmap := blocks dev (2 + (u.super k).imapBlocks) (u.super k).zmapBlocks } ∧
    ¬2 + (u.super k).imapBlocks + (u.super k).zmapBlocks ≠
      2 + (v.super k).imapBlocks + (v.super k).zmapBlocks := by
  have hself : v.super k = { u.super k with
      imap := blocks dev 2 (u.super k).imapBlocks
      zmap := blocks dev (2 + (u.super k).imapBlocks) (u.super k).zmapBlocks } :=
    hv ▸ loaded_self
  rw [hself]
  exact ⟨rfl, not_not.mpr rfl⟩

/-- **Both maps are complete**: bit 0 is set in either. -/
theorem Filling.complete (h : Filling t u dev k) (ht : t.Ok)
    (hi : 1 ≤ (u.super k).imapBlocks ∧ (u.super k).imapBlocks ≤ 8)
    (hz : 1 ≤ (u.super k).zmapBlocks ∧ (u.super k).zmapBlocks ≤ 8) :
    wp (checkMaps k (2 + (u.super k).imapBlocks + (u.super k).zmapBlocks)) (Returns t dev)
      (fun _ _ => False) (u.full dev k (u.super k).imapBlocks (u.super k).zmapBlocks) := by
  obtain ⟨v, hv⟩ : ∃ v, u.full dev k (u.super k).imapBlocks (u.super k).zmapBlocks = v := ⟨_, rfl⟩
  obtain ⟨hself, heq⟩ := full_self hv
  have himap : Map.slot (v.super k).imap 0 = some (dev, 2) := by
    rw [hself]
    exact (slot_blocks hi.2).trans (if_pos hi.1)
  have hzmap : Map.slot (v.super k).zmap 0 = some (dev, 2 + (u.super k).imapBlocks) := by
    rw [hself]
    exact (slot_blocks hz.2).trans (if_pos hz.1)
  have hcount : ∀ b, 2 ≤ b → b < 2 + (u.super k).imapBlocks + (u.super k).zmapBlocks →
      1 ≤ v.bCount (dev, b) := by
    intro b hlo hhi
    rw [← hv]
    change 1 ≤ u.bCount _ + range _ _ _ _ + range _ _ _ _
    rw [range, range]
    rcases Nat.lt_or_ge b (2 + (u.super k).imapBlocks) with hlt | hge
    · rw [if_pos (show _ ∧ _ ∧ _ from ⟨rfl, hlo, hlt⟩)]
      omega
    · rw [if_pos (show _ ∧ _ ∧ _ from ⟨rfl, hge, hhi⟩)]
      omega
  rw [hv, checkMaps, wp_bind, wp_get, if_neg heq, himap, hzmap, wp_bind, setFirstBit, wp_modify,
    wp_bind, setFirstBit, wp_modify, wp_bind, freeSuper, wp_modify, wp_pure]
  obtain ⟨w, hw⟩ : ∃ w, ((v.setData (dev, 2) orOne).setData
      (dev, 2 + (u.super k).imapBlocks) orOne).setSuper k
        (fun sb => { sb with lock := false }) = w := ⟨_, rfl⟩
  have hwself : w.super k = { v.super k with lock := false } := hw ▸ setSuper_self ..
  have hbit : ∀ b : ℕ → UInt8, orOne b 0 &&& 1 = 1 := by
    intro b
    rw [orOne, Function.update_self, or_one_and_one]
  have hbits : w.data dev 2 0 &&& 1 = 1 ∧ w.data dev (2 + (u.super k).imapBlocks) 0 &&& 1 = 1 := by
    have hdata : w.data = ((v.setData (dev, 2) orOne).setData
        (dev, 2 + (u.super k).imapBlocks) orOne).data := hw ▸ rfl
    rw [hdata, setData_self, setData_of_ne _ _ _ (by omega), setData_self]
    exact ⟨hbit _, hbit _⟩
  have hwcount : w.bCount = v.bCount := by
    rw [← hw]
    rfl
  change Returns t dev (some k) _
  rw [hw]
  have hdev : (w.super k).dev = dev := by
    rw [hwself, hself]
    exact h.dev
  have hblocks : (w.super k).imapBlocks = (u.super k).imapBlocks ∧
      (w.super k).zmapBlocks = (u.super k).zmapBlocks := by
    rw [hwself, hself]
    exact ⟨rfl, rfl⟩
  have hlock : (w.super k).lock = false := by rw [hwself]
  have hcomplete : w.Complete k := by
    constructor
    · rw [hblocks.1]
      exact hi
    · rw [hblocks.2]
      exact hz
    · rw [hdev, hblocks.1, hwself, hself]
    · rw [hdev, hblocks.1, hblocks.2, hwself, hself]
    · rw [hdev]
      exact hbits.1
    · rw [hdev, hblocks.1]
      exact hbits.2
    · rw [hdev, hblocks.1, hblocks.2, hwcount]
      exact hcount
  refine ⟨h.ok ht (fun j hj => ?_) (fun bh => ?_) (fun d hd => ?_) hlock
    fun _ => ⟨hdev, hcomplete⟩, h.lt, hdev, hlock, hcomplete⟩
  · have hother : w.super j = u.super j := by
      rw [← hw, setSuper_of_ne _ _ hj, ← hv]
      exact Function.update_of_ne hj _ _
    exact hother.trans (h.super j hj)
  · rw [hwcount, ← hv, ← congrFun h.count bh]
    exact (Nat.le_add_right _ _).trans (Nat.le_add_right _ _)
  · rw [← hw, ← congrFun h.data d, ← hv]
    exact (Function.update_of_ne hd _ _).trans (Function.update_of_ne hd _ _)

/-- **A map has no block**, so that there is no buffer to write to. -/
theorem checkMaps_null (h : (u.super k).imapBlocks = 0 ∨ (u.super k).zmapBlocks = 0)
    (hi : (u.super k).imapBlocks ≤ 8) (hz : (u.super k).zmapBlocks ≤ 8) :
    wp (checkMaps k (2 + (u.super k).imapBlocks + (u.super k).zmapBlocks)) (fun _ _ => False)
      (fun _ _ => True) (u.full dev k (u.super k).imapBlocks (u.super k).zmapBlocks) := by
  obtain ⟨v, hv⟩ : ∃ v, u.full dev k (u.super k).imapBlocks (u.super k).zmapBlocks = v := ⟨_, rfl⟩
  obtain ⟨hself, heq⟩ := full_self hv
  have hmaps : Map.slot (v.super k).imap 0 = none ∨ Map.slot (v.super k).zmap 0 = none := by
    rw [hself]
    rcases h with h0 | h0
    · exact Or.inl ((slot_blocks hi).trans (if_neg (by omega)))
    · exact Or.inr ((slot_blocks hz).trans (if_neg (by omega)))
  rw [hv, checkMaps, wp_bind, wp_get, if_neg heq]
  rcases hmaps with h0 | h0
  · rw [h0]
    trivial
  · rw [h0]
    rcases Map.slot (v.super k).imap 0 with _ | bh
    · trivial
    · trivial

/-- Code that never returns does not return well. -/
theorem not_wp {α : Type} {m : K α} {Q : α → Kernel → Prop}
    (h : wp m (fun _ _ => False) (fun _ _ => True) s) : ¬wp m Q (fun _ _ => False) s := by
  intro h'
  obtain ⟨a, t, hm, -⟩ := wp_returns h'
  exact wp_ok h hm

/-- The loop over the second map, behind the first. -/
theorem wp_zmap {Q : ℕ → Kernel → Prop} {E : Halt → Kernel → Prop} {block : ℕ}
    (hz : (u.super k).zmap = fun _ => none)
    (hm : readMap dev (storeMap putZmap SuperBlock.zmap k) n 0 (2 + i)
      (reading putZmap (reading putImap u dev k 2 i) dev k (2 + i) 0) =
      .ok block (reading putZmap (reading putImap u dev k 2 i) dev k (2 + i) j)) :
    wp (readMap dev (storeMap putZmap SuperBlock.zmap k) n 0 (2 + i)) Q E
      (reading putImap u dev k 2 i) ↔ Q block (u.full dev k i j) := by
  have hself : (reading putImap u dev k 2 i).super k = putImap (blocks dev 2 i) (u.super k) :=
    setSuper_self ..
  have hzmap : SuperBlock.zmap ((reading putImap u dev k 2 i).super k) = fun _ => none := by
    rw [hself]
    exact hz
  rw [reading_zero zmapField hzmap, reading_reading] at hm
  exact wp_iff_of_ok hm

/-- The first block that cannot be read. -/
theorem exists_least {n : ℕ} {r : ℕ → Bool} (h : ∃ i < 8, i < n ∧ r i = false) :
    ∃ i, (i < 8 ∧ i < n ∧ r i = false) ∧ ∀ j < i, r j = true := by
  refine ⟨Nat.find h, Nat.find_spec h, fun j hj => ?_⟩
  obtain ⟨h8, hn, -⟩ := Nat.find_spec h
  by_contra hr
  exact Nat.find_min h hj ⟨hj.trans h8, hj.trans hn, Bool.not_eq_true _ ▸ hr⟩

/-- **The maps are read**: whether that goes well. -/
theorem readMaps_iff (h : Filling t u dev k) (ht : t.Ok) :
    wp (readMaps dev k) (Returns t dev) (fun _ _ => False) u ↔
      (∃ i < 8, i < (u.super k).imapBlocks ∧ t.readable dev (2 + i) = false) ∨
      (u.super k).imapBlocks ≤ 8 ∧
        ((∃ i < 8, i < (u.super k).zmapBlocks ∧
          t.readable dev (2 + (u.super k).imapBlocks + i) = false) ∨
        1 ≤ (u.super k).imapBlocks ∧ 1 ≤ (u.super k).zmapBlocks ∧ (u.super k).zmapBlocks ≤ 8) := by
  obtain ⟨v, hv⟩ : ∃ v, (u.setSuper k fun sb =>
    { sb with imap := fun _ => none, zmap := fun _ => none }) = v := ⟨_, rfl⟩
  have hself : v.super k = { u.super k with imap := fun _ => none, zmap := fun _ => none } :=
    hv ▸ setSuper_self ..
  have hblocks : (v.super k).imapBlocks = (u.super k).imapBlocks ∧
      (v.super k).zmapBlocks = (u.super k).zmapBlocks := by
    rw [hself]
    exact ⟨rfl, rfl⟩
  have hfill : Filling t v dev k := by
    refine ⟨h.fresh, h.lt, ?_, fun j hj => ?_, ?_, ?_, ?_, h.free⟩
    · rw [hself]
      exact h.dev
    · rw [← hv, setSuper_of_ne _ _ hj]
      exact h.super j hj
    · rw [← hv]
      exact h.data
    · rw [← hv]
      exact h.readable
    · rw [← hv]
      exact h.count
  have himap : (v.super k).imap = fun _ => none := by rw [hself]
  have hzmap : (v.super k).zmap = fun _ => none := by rw [hself]
  rw [readMaps, wp_bind, wp_modify, wp_bind, wp_get, hv, wp_bind, ← hblocks.1, ← hblocks.2,
    ← hfill.readable]
  clear hv hself hblocks h
  have hzero : reading putImap v dev k 2 0 = v := reading_zero imapField himap 2
  have hread : (reading putImap v dev k 2 (v.super k).imapBlocks).readable = v.readable := rfl
  by_cases hstop : ∃ i < 8, i < (v.super k).imapBlocks ∧ v.readable dev (2 + i) = false
  · -- the second loop ends at the same block
    refine iff_of_true ?_ (Or.inl hstop)
    obtain ⟨i, ⟨hi8, hi, hno⟩, hmin⟩ := exists_least hstop
    have hloop := readMap_stops (k := k) (n := (v.super k).imapBlocks) imapField (Nat.zero_le i)
      (by omega) hi8 (fun j _ hj => hmin j hj) hno
    rw [hzero] at hloop
    refine (wp_iff_of_ok hloop).mpr (wp_bind.mpr ?_)
    rcases Nat.eq_zero_or_pos (v.super k).zmapBlocks with h0 | hpos
    · rw [h0]
      exact (wp_zmap (j := 0) hzmap rfl).mpr
        (hfill.short ht (by omega) (by omega) (by omega))
    · have hloop' : readMap dev (storeMap putZmap SuperBlock.zmap k) (v.super k).zmapBlocks 0
          (2 + i) (reading putZmap (reading putImap v dev k 2 i) dev k (2 + i) 0) = _ :=
        readMap_stops (j := 0) zmapField le_rfl (by omega) (by omega)
          (fun j _ hj => absurd hj (Nat.not_lt_zero j)) hno
      exact (wp_zmap hzmap hloop').mpr (hfill.short ht (by omega) (by omega) (by omega))
  · have hall : ∀ i < 8, i < (v.super k).imapBlocks → v.readable dev (2 + i) = true := by
      intro i h8 hi
      by_contra hno
      exact hstop ⟨i, h8, hi, Bool.not_eq_true _ ▸ hno⟩
    rw [or_iff_right hstop]
    by_cases h8 : (v.super k).imapBlocks ≤ 8
    · rw [and_iff_right h8]
      have hloop := readMap_all (k := k) imapField (i := 0) (n := (v.super k).imapBlocks) (by omega)
        fun j _ hj => hall j (by omega) (by omega)
      rw [hzero, Nat.zero_add] at hloop
      refine (wp_iff_of_ok hloop).trans (wp_bind.trans ?_)
      by_cases hstop' : ∃ i < 8, i < (v.super k).zmapBlocks ∧
          v.readable dev (2 + (v.super k).imapBlocks + i) = false
      · refine iff_of_true ?_ (Or.inl hstop')
        obtain ⟨j, ⟨hj8, hj, hno⟩, hmin⟩ := exists_least hstop'
        have hloop' := readMap_stops (k := k) (i := 0) (n := (v.super k).zmapBlocks)
          (s := reading putImap v dev k 2 (v.super k).imapBlocks) zmapField (Nat.zero_le j)
          (by omega) hj8 (fun j' _ hj' => hmin j' hj') hno
        exact (wp_zmap hzmap hloop').mpr (hfill.short ht h8 (by omega) (by omega))
      · have hall' : ∀ i < 8, i < (v.super k).zmapBlocks →
            v.readable dev (2 + (v.super k).imapBlocks + i) = true := by
          intro i h8 hi
          by_contra hno
          exact hstop' ⟨i, h8, hi, Bool.not_eq_true _ ▸ hno⟩
        rw [or_iff_right hstop']
        by_cases hz8 : (v.super k).zmapBlocks ≤ 8
        · have hloop' : readMap dev (storeMap putZmap SuperBlock.zmap k) (v.super k).zmapBlocks 0
              (2 + (v.super k).imapBlocks + 0) (reading putZmap
                (reading putImap v dev k 2 (v.super k).imapBlocks) dev k
                (2 + (v.super k).imapBlocks) 0) = _ :=
            readMap_all zmapField (by omega) fun j _ hj => hall' j (by omega) (by omega)
          rw [Nat.zero_add] at hloop'
          refine (wp_zmap hzmap hloop').trans ?_
          by_cases h0 : (v.super k).imapBlocks = 0 ∨ (v.super k).zmapBlocks = 0
          · exact iff_of_false (not_wp (checkMaps_null h0 h8 hz8)) (by omega)
          · exact iff_of_true (hfill.complete ht (by omega) (by omega)) (by omega)
        · refine iff_of_false (fun hw => ?_) fun hc => hz8 hc.2.2
          have hover : wp (readMap dev (storeMap putZmap SuperBlock.zmap k)
              (v.super k).zmapBlocks 0 (2 + (v.super k).imapBlocks + 0)) (fun _ _ => False)
              (fun _ _ => True) (reading putZmap
                (reading putImap v dev k 2 (v.super k).imapBlocks) dev k
                (2 + (v.super k).imapBlocks) 0) :=
            readMap_overruns zmapField (Nat.zero_le 8) (by omega)
              fun j _ hj => hall' j (by omega) (by omega)
          have hself : (reading putImap v dev k 2 (v.super k).imapBlocks).super k =
              putImap (blocks dev 2 (v.super k).imapBlocks) (v.super k) := setSuper_self ..
          rw [reading_zero zmapField (by rw [hself]; exact hzmap)] at hover
          exact not_wp hover hw
    · refine iff_of_false (fun hw => ?_) fun hc => h8 hc.1
      have hover : wp (readMap dev (storeMap putImap SuperBlock.imap k) (v.super k).imapBlocks 0
          (2 + 0)) (fun _ _ => False) (fun _ _ => True) (reading putImap v dev k 2 0) :=
        readMap_overruns imapField (Nat.zero_le 8) (by omega)
          fun j _ hj => hall j (by omega) (by omega)
      rw [hzero] at hover
      exact not_wp hover hw

/-- A super block that has the device. -/
theorem find_some (h : s.find dev = some k) : k < nrSuper ∧ (s.super k).dev = dev :=
  ⟨List.mem_range.mp (List.mem_of_find?_eq_some h), of_decide_eq_true
    (List.find?_some (p := fun k => decide ((s.super k).dev = dev)) h)⟩

/-- No super block has the device. -/
theorem find_none (h : s.find dev = none) : ∀ k < nrSuper, (s.super k).dev ≠ dev := fun k hk =>
  of_decide_eq_false (Bool.eq_false_iff.mpr (List.find?_eq_none.mp h k (List.mem_range.mpr hk)))

/-- **The super block is read**: whether that goes well. -/
theorem fillSuper_iff (ht : t.Ok) (hk : t.find 0 = some k) (hdev : t.find dev = none) :
    wp (fillSuper dev k) (Returns t dev) (fun _ _ => False) t ↔ t.Sound dev := by
  obtain ⟨hlt, hfree⟩ := find_some hk
  have hfill : ∀ f : SuperBlock → SuperBlock, (f (t.super k)).dev = dev →
      Filling t (t.setSuper k f) dev k := by
    intro f hf
    refine ⟨find_none hdev, hlt, ?_, fun j hj => setSuper_of_ne _ _ hj, rfl, rfl, rfl, hfree⟩
    rw [setSuper_self]
    exact hf
  obtain ⟨f, hf⟩ : ∃ f : SuperBlock → SuperBlock, (fun sb => { sb with
      dev := dev, isup := none, imount := none, time := 0, rdOnly := false, dirt := false }) = f :=
    ⟨_, rfl⟩
  have hlock : ((t.setSuper k f).super k).lock = false := by
    rw [setSuper_self, ← hf]
    exact ht.lock k hlt
  rw [fillSuper, hf, wp_bind, wp_modify, wp_bind, lockSuper, wp_bind, waitOnSuper, wp_bind, wp_get,
    if_neg (ne_true_of_eq_false hlock), wp_pure, wp_modify, setSuper_setSuper, wp_bind]
  obtain ⟨g, hg⟩ : ∃ g : SuperBlock → SuperBlock, (fun sb => { f sb with lock := true }) = g :=
    ⟨_, rfl⟩
  have hgdev : ∀ sb, (g sb).dev = dev := by
    intro sb
    rw [← hg, ← hf]
  have hbread : bread dev 1 (t.setSuper k g) = _ := bread_eq
  rw [hg, Kernel.Sound]
  dsimp only
  by_cases hr : t.readable dev 1 = true
  · rw [if_pos (show (t.setSuper k g).readable dev 1 = true from hr)] at hbread
    rw [wp_iff_of_ok hbread]
    dsimp only
    have hgrab : ((t.setSuper k g).grab (dev, 1)) = (t.setSuper k g).hold dev 1 2 := by
      rw [← grab_hold le_rfl, hold_of_le le_rfl]
    rw [hgrab, wp_bind, wp_modify, wp_bind]
    obtain ⟨u, hu⟩ : ∃ u, (t.setSuper k fun sb =>
        { g sb with toDSuper := .ofData (t.data dev 1) }) = u := ⟨_, rfl⟩
    have hstore : ((t.setSuper k g).hold dev 1 2).setSuper k (fun sb =>
        { sb with toDSuper := .ofData (t.data dev 1) }) = u.hold dev 1 2 := by
      rw [← hu]
      exact setSuper_setSuper (s := t.hold dev 1 2) g fun sb =>
        { sb with toDSuper := .ofData (t.data dev 1) }
    have hself : (u.super k).toDSuper = .ofData (t.data dev 1) := by
      rw [← hu, setSuper_self]
    have hu' : Filling t u dev k := hu ▸ hfill _ (hgdev _)
    change wp (brelse (some (dev, 1))) _ _ (((t.setSuper k g).hold dev 1 2).setSuper k (fun sb =>
        { sb with toDSuper := .ofData (t.data dev 1) })) ↔ _
    rw [hstore, wp_iff_of_ok (brelse_hold (by omega)), hold_of_le le_rfl, wp_bind, wp_get, hself,
      or_iff_right (Bool.not_eq_false _ ▸ hr)]
    by_cases hmagic : (DSuper.ofData (t.data dev 1)).magic ≠ 0x137F
    · rw [if_pos hmagic]
      exact iff_of_true (hu'.giveUp ht) (Or.inl hmagic)
    · rw [if_neg hmagic, or_iff_right hmagic, readMaps_iff hu' ht, hself]
  · rw [if_neg (show ¬(t.setSuper k g).readable dev 1 = true from hr)] at hbread
    rw [wp_iff_of_ok hbread]
    exact iff_of_true ((hfill g (hgdev _)).giveUp ht) (Or.inl (Bool.not_eq_true _ ▸ hr))

/-! ### A disk that has been changed -/

/-- The blocks from `lo` to `hi` have one user less. -/
def Kernel.drop (s : Kernel) (dev lo hi : ℕ) : Kernel :=
  { s with bCount := fun bh => s.bCount bh - range dev lo hi bh }

theorem drop_hold (h : ∀ b, lo ≤ b → b < hi → 1 ≤ s.bCount (dev, b)) :
    (s.drop dev lo hi).hold dev lo hi = s := by
  have hcount : ∀ bh, s.bCount bh - range dev lo hi bh + range dev lo hi bh = s.bCount bh := by
    intro bh
    rw [range]
    split_ifs with hin
    · obtain ⟨hdev, hlo, hhi⟩ := hin
      have := hdev ▸ h bh.2 hlo hhi
      exact Nat.sub_add_cancel this
    · rfl
  change Kernel.mk _ _ _ _ _ = s
  congr 1
  ext bh
  exact hcount bh

theorem hold_hold {mid : ℕ} (hlo : lo ≤ mid) (hhi : mid ≤ hi) :
    (s.hold dev mid hi).hold dev lo mid = s.hold dev lo hi := by
  rw [Kernel.hold, Kernel.hold, Kernel.hold]
  congr 1
  ext bh
  change s.bCount bh + range dev mid hi bh + range dev lo mid bh = s.bCount bh + range dev lo hi bh
  rw [range, range, range, Nat.add_assoc]
  congr 1
  split_ifs
  all_goals omega

theorem getSuper_eq (h : s.Ok) (hdev : dev ≠ 0) : getSuper dev s = .ok (s.find dev) s := by
  refine ok_of_wp ?_
  rw [getSuper, if_neg hdev, wp_bind, wp_get]
  cases hfind : s.find dev with
  | none => exact ⟨rfl, rfl⟩
  | some k =>
    dsimp only
    have hlock := h.lock k (find_some hfind).1
    rw [wp_bind, waitOnSuper, wp_bind, wp_get, if_neg (ne_true_of_eq_false hlock)]
    exact ⟨rfl, rfl⟩

/-- **The maps of a super block are given back**, which is free then. -/
theorem Kernel.Ok.drop (h : s.Ok) (hk : k < nrSuper) (h0 : (s.super k).dev ≠ 0) :
    ((s.drop (s.super k).dev 2 (2 + (s.super k).imapBlocks + (s.super k).zmapBlocks)).setSuper k
      fun sb => { sb with dev := 0, lock := false }).Ok := by
  obtain ⟨t, ht⟩ : ∃ t, (s.drop (s.super k).dev 2
    (2 + (s.super k).imapBlocks + (s.super k).zmapBlocks)).setSuper k
      (fun sb => { sb with dev := 0, lock := false }) = t := ⟨_, rfl⟩
  have hself : t.super k = { s.super k with dev := 0, lock := false } := ht ▸ setSuper_self ..
  have hother : ∀ j, j ≠ k → t.super j = s.super j := fun j hj => ht ▸ setSuper_of_ne _ _ hj
  have hne : ∀ j, (t.super j).dev ≠ 0 → j ≠ k := by
    rintro j hj rfl
    rw [hself] at hj
    exact hj rfl
  rw [ht]
  constructor
  · intro j hj
    by_cases hjk : j = k
    · rw [hjk, hself]
    · rw [hother j hjk]
      exact h.lock j hj
  · intro i hi j hj hd heq
    have hik := hne i hd
    have hjk := hne j (heq ▸ hd)
    rw [hother i hik] at hd heq
    rw [hother j hjk] at heq
    exact h.devs i hi j hj hd heq
  · intro j hj hd
    have hjk := hne j hd
    have hj' := hother j hjk
    rw [hj'] at hd
    have hc := h.complete j hj hd
    have hcount : ∀ b, t.bCount ((s.super j).dev, b) = s.bCount ((s.super j).dev, b) := by
      intro b
      have hdev : (s.super j).dev ≠ (s.super k).dev := fun heq => hjk (h.devs j hj k hk hd heq)
      rw [← ht]
      change s.bCount _ - range _ _ _ _ = _
      rw [range, if_neg fun h => hdev h.1, Nat.sub_zero]
    have hdata : t.data = s.data := ht ▸ rfl
    constructor
    · rw [hj']
      exact hc.imapBlocks
    · rw [hj']
      exact hc.zmapBlocks
    · rw [hj']
      exact hc.imap
    · rw [hj']
      exact hc.zmap
    · rw [hj', hdata]
      exact hc.imapBit
    · rw [hj', hdata]
      exact hc.zmapBit
    · rw [hj']
      intro b hlo hhi
      rw [hcount]
      exact hc.count b hlo hhi

/-- **`put_super`** keeps the table. -/
theorem putSuper_ok (h : s.Ok) : wp (putSuper dev) (fun _ t => t.Ok) (fun _ _ => False) s := by
  rw [putSuper, wp_bind, wp_get, wp_ite]
  refine ⟨fun _ => h, fun _ => ?_⟩
  by_cases hdev : dev = 0
  · rw [wp_bind, getSuper, if_pos hdev]
    exact h
  rw [wp_bind, wp_iff_of_ok (getSuper_eq h hdev)]
  cases hfind : s.find dev with
  | none => exact h
  | some k =>
    obtain ⟨hk, hkdev⟩ := find_some hfind
    have h0 : (s.super k).dev ≠ 0 := hkdev ▸ hdev
    have hc := h.complete k hk h0
    dsimp only
    rw [wp_bind, wp_get, wp_ite]
    refine ⟨fun _ => h, fun _ => ?_⟩
    have hok := h.drop hk h0
    rw [wp_bind, lockSuper, wp_bind, waitOnSuper, wp_bind, wp_get,
      if_neg (ne_true_of_eq_false (h.lock k hk)), wp_pure, wp_modify, wp_bind, wp_modify,
      setSuper_setSuper, wp_bind]
    obtain ⟨y, hy⟩ : ∃ y, (s.drop (s.super k).dev 2
      (2 + (s.super k).imapBlocks + (s.super k).zmapBlocks)).setSuper k
        (fun sb => { sb with dev := 0, lock := true }) = y := ⟨_, rfl⟩
    have hself : y.super k = { s.super k with dev := 0, lock := true } := hy ▸ setSuper_self ..
    have hstate : s.setSuper k (fun sb => { sb with dev := 0, lock := true }) =
        (y.hold (s.super k).dev (2 + (s.super k).imapBlocks)
          (2 + (s.super k).imapBlocks + (s.super k).zmapBlocks)).hold (s.super k).dev 2
            (2 + (s.super k).imapBlocks) := by
      rw [hold_hold (by omega) (by omega), ← hy]
      exact congrArg (fun t : Kernel => t.setSuper k fun sb => { sb with dev := 0, lock := true })
        (drop_hold hc.count).symm
    have himap : SuperBlock.imap ((y.hold (s.super k).dev (2 + (s.super k).imapBlocks)
        (2 + (s.super k).imapBlocks + (s.super k).zmapBlocks)).super k) =
          blocks (s.super k).dev 2 (s.super k).imapBlocks :=
      (congrArg SuperBlock.imap hself).trans hc.imap
    have hzmap : SuperBlock.zmap (y.super k) =
        blocks (s.super k).dev (2 + (s.super k).imapBlocks) (s.super k).zmapBlocks :=
      (congrArg SuperBlock.zmap hself).trans hc.zmap
    rw [hstate, wp_iff_of_ok (releaseMap_hold himap hc.imapBlocks.2), wp_bind,
      wp_iff_of_ok (releaseMap_hold hzmap hc.zmapBlocks.2), freeSuper, wp_modify, ← hy,
      setSuper_setSuper]
    exact hok

/-- **`check_disk_change`** keeps the table. -/
theorem checkDiskChange_ok (h : s.Ok) (changed : Bool) :
    wp (checkDiskChange dev changed) (fun _ t => t.Ok) (fun _ _ => False) s := by
  rw [checkDiskChange, wp_ite]
  refine ⟨fun _ => ?_, fun _ => h⟩
  refine wp_forFrom (fun _ (t : Kernel) => t.Ok) h fun i t _ _ ht => ?_
  rw [wp_bind, wp_get, wp_ite]
  exact ⟨fun _ => putSuper_ok ht, fun _ => ht⟩

/-! ### The result -/

/-- The device has no super block yet, and there is room for it. -/
theorem wp_readSuper {Q : Option ℕ → Kernel → Prop} {E : Halt → Kernel → Prop} {changed : Bool}
    (hcheck : checkDiskChange dev changed s = .ok ⟨⟩ t) (ht : t.Ok) (hdev : dev ≠ 0)
    (hfind : t.find dev = none) (hempty : t.find 0 = some k) :
    wp (readSuper dev changed) Q E s ↔ wp (fillSuper dev k) Q E t := by
  rw [readSuper, if_neg hdev, wp_bind, wp_iff_of_ok hcheck, wp_bind,
    wp_iff_of_ok (getSuper_eq ht hdev), hfind]
  dsimp only
  rw [wp_bind, wp_get, hempty]

/-- **`read_super` is safe** just if the device is as it must be, where it is read at all: it
stores into the maps within their bounds, it writes to no NULL buffer, and it returns the super
block of the device, or none and has given back what it has taken. -/
theorem readSuper_safe_iff (h : s.Ok) (dev : ℕ) (changed : Bool) :
    ∃ t, checkDiskChange dev changed s = .ok ⟨⟩ t ∧ t.Ok ∧
      (wp (readSuper dev changed) (Returns t dev) (fun _ _ => False) s ↔
        (t.Reads dev → t.Sound dev)) := by
  obtain ⟨⟨⟩, t, hcheck, ht⟩ := wp_returns (checkDiskChange_ok h changed)
  refine ⟨t, hcheck, ht, ?_⟩
  have hnone : Returns t dev none t := ⟨ht, rfl, fun k hk h0 => ⟨h0, ht.lock k hk⟩⟩
  rw [Kernel.Reads]
  by_cases hdev : dev = 0
  · have hst : s = t := by
      rw [checkDiskChange, hdev, if_neg (by simp)] at hcheck
      cases hcheck
      rfl
    rw [readSuper, if_pos hdev, wp_pure, hst]
    exact iff_of_true hnone fun hr => absurd hdev hr.1
  cases hfind : t.find dev with
  | some k =>
    obtain ⟨hk, hkdev⟩ := find_some hfind
    rw [readSuper, if_neg hdev, wp_bind, wp_iff_of_ok hcheck, wp_bind,
      wp_iff_of_ok (getSuper_eq ht hdev), hfind]
    refine iff_of_true ⟨ht, hk, hkdev, ht.lock k hk, ht.complete k hk (hkdev ▸ hdev)⟩ ?_
    rintro ⟨-, hno, -⟩
    cases hno
  | none =>
    cases hempty : t.find 0 with
    | none =>
      rw [readSuper, if_neg hdev, wp_bind, wp_iff_of_ok hcheck, wp_bind,
        wp_iff_of_ok (getSuper_eq ht hdev), hfind]
      dsimp only
      rw [wp_bind, wp_get, hempty]
      exact iff_of_true hnone fun hr => absurd rfl hr.2.2
    | some k =>
      have hreads : dev ≠ 0 ∧ (none : Option ℕ) = none ∧ some k ≠ none :=
        ⟨hdev, rfl, Option.some_ne_none k⟩
      rw [wp_readSuper hcheck ht hdev hfind hempty, fillSuper_iff ht hempty hfind]
      exact ⟨fun hs _ => hs, fun hs => hs hreads⟩

/-- A machine with no super block, and devices whose maps have so many blocks. -/
def volume (imapBlocks zmapBlocks : UInt8) : Kernel where
  super _ :=
    { ninodes := 0, nzones := 0, imapBlocks := 0, zmapBlocks := 0, firstdatazone := 0
      logZoneSize := 0, maxSize := 0, magic := 0, imap := fun _ => none, zmap := fun _ => none
      dev := 0, isup := none, imount := none, time := 0, lock := false, rdOnly := false
      dirt := false }
  rootDev := 0
  data _ block i :=
    if block = 1 then
      if i = 4 then imapBlocks
      else if i = 6 then zmapBlocks
      else if i = 16 then 0x7F
      else if i = 17 then 0x13
      else 0
    else 0
  readable _ _ := true
  bCount _ := 0

theorem volume_ok (a b : UInt8) : (volume a b).Ok :=
  ⟨fun _ _ => rfl, fun _ _ _ _ h => absurd rfl h, fun _ _ h => absurd rfl h⟩

/-- Maps of one block each. -/
theorem readSuper_volume : wp (readSuper 769 false) (Returns (volume 1 1) 769) (fun _ _ => False)
    (volume 1 1) := by
  obtain ⟨t, hcheck, -, hiff⟩ := readSuper_safe_iff (volume_ok 1 1) 769 false
  obtain rfl : volume 1 1 = t := by
    cases hcheck
    rfl
  exact hiff.mpr fun _ => Or.inr (Or.inr (Or.inr ⟨by decide, Or.inr (by decide)⟩))

/-- A map of nine blocks is stored into the array of eight. -/
theorem readSuper_nine : ¬∀ (s t : Kernel) (dev : ℕ) (changed : Bool), s.Ok →
    checkDiskChange dev changed s = .ok ⟨⟩ t →
    wp (readSuper dev changed) (Returns t dev) (fun _ _ => False) s := by
  intro h
  have hsafe := h (volume 9 1) (volume 9 1) 769 false (volume_ok 9 1) rfl
  rw [wp_readSuper rfl (volume_ok 9 1) (by decide) (by decide) (k := 0) (by decide),
    fillSuper_iff (volume_ok 9 1) (by decide) (by decide)] at hsafe
  rcases hsafe with hr | hmagic | ⟨i, -, -, hr⟩ | ⟨h8, -⟩
  · cases hr
  · exact hmagic (by decide)
  · cases hr
  · exact absurd h8 (by decide)

end Linux011.Fs.Mount

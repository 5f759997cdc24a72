import Linux011.Buffer.Cache
import Linux011.Lib.Linked
import Mathlib

/-!
# How `buffer_init` lays the cache out

The heads grow upwards from the end of the kernel and the blocks downwards from the end of the
memory for buffers, one of each in a round of the loop, with a jump over the video memory and the
BIOS. Pointers are of 32 bits, and the comparison that ends the loop is one of unsigned numbers.

`Linux011.Buffer.Init.top` is where the blocks have come to after so many rounds. The heads and the
blocks do not overlap (`Linux011.Buffer.Init.bufferInit_carved`), and what is in the heads is what
`Linux011.Buffer.bufferInit` says (`Linux011.Buffer.Init.bufferInit_models`).
-/

namespace Linux011.Buffer.Init

/-- An address; 0 is null. -/
abbrev Addr := BitVec 32

/-- `struct buffer_head`, as it lies in the memory. -/
structure RawHead where
  data : Addr
  blocknr : BitVec 32
  dev : BitVec 16
  uptodate : BitVec 8
  dirt : BitVec 8
  count : BitVec 8
  lock : BitVec 8
  wait : Addr
  prev : Addr
  next : Addr
  prevFree : Addr
  nextFree : Addr

/-- A head in memory that is clear. -/
def RawHead.clear : RawHead := ⟨0, 0, 0, 0, 0, 0, 0, 0, 0, 0, 0, 0⟩

/-- `sizeof(struct buffer_head)` -/
def headSize : Addr := 36

/-- `BLOCK_SIZE` -/
def blockSize : Addr := 1024

/-- **The variables of `buffer_init`**, and the heads in the memory by their address. -/
structure Vars where
  h : Addr
  b : Addr
  nrBuffers : ℕ
  mem : Addr → RawHead

/-- What is stored in a head in the loop. -/
def fill (h b : Addr) (old : RawHead) : RawHead :=
  { old with
    dev := 0
    dirt := 0
    count := 0
    lock := 0
    uptodate := 0
    wait := 0
    next := 0
    prev := 0
    data := b
    prevFree := h - headSize
    nextFree := h + headSize }

/-- A round of the loop, when `b` has come down. -/
def fillHead (s : Vars) (b : Addr) : Vars where
  h := s.h + headSize
  b := if b = 0x100000 then 0xA0000 else b
  nrBuffers := s.nrBuffers + 1
  mem := Function.update s.mem s.h (fill s.h b (s.mem s.h))

/-- `while ( (b -= BLOCK_SIZE) >= ((void *) (h+1)) )`, for so many rounds at most. -/
def fillHeads : ℕ → Vars → Option Vars
  | 0, _ => none
  | n + 1, s =>
    if s.h + headSize ≤ s.b - blockSize then fillHeads n (fillHead s (s.b - blockSize))
    else some { s with b := s.b - blockSize }

/-- **What `buffer_init` leaves.** -/
structure Result where
  mem : Addr → RawHead
  nrBuffers : ℕ
  freeList : Addr
  hashTable : ℕ → Addr

/-- The free list becomes a ring. -/
def closeRing (mem : Addr → RawHead) (freeList h : Addr) : Addr → RawHead :=
  let mem := Function.update mem freeList { mem freeList with prevFree := h }
  Function.update mem h { mem h with nextFree := freeList }

/-- **`buffer_init`** -/
def bufferInit (n : ℕ) (startBuffer bufferEnd : Addr) (mem : Addr → RawHead)
    (hashTable : ℕ → Addr) : Option Result := do
  let b := if bufferEnd = (1 : Addr) <<< 20 then 640 * 1024 else bufferEnd
  let s ← fillHeads n ⟨startBuffer, b, 0, mem⟩
  return {
    mem := closeRing s.mem startBuffer (s.h - headSize)
    nrBuffers := s.nrBuffers
    freeList := startBuffer
    hashTable := fun i => if i < nrHash then 0 else hashTable i }

/-! ### Where the heads and the blocks are -/

/-- **What the linker and `main` hand over.** -/
structure Fits (startBuffer bufferEnd : Addr) : Prop where
  start : startBuffer.toNat ≤ 0x80000
  low : 0x100000 ≤ bufferEnd.toNat
  high : bufferEnd.toNat ≤ 0x400000
  blocks : 1024 ∣ bufferEnd.toNat

/-- The blocks above the BIOS. -/
def high (e : ℕ) : ℕ := (e - 0x100000) / 1024

/-- **Where the blocks have come to** after `i` rounds. -/
def top (e i : ℕ) : ℕ := if i < high e then e - 1024 * i else 0xA0000 - 1024 * (i - high e)

/-- The address of a head. -/
def headAt (startBuffer : Addr) (i : ℕ) : Addr := startBuffer + BitVec.ofNat 32 (36 * i)

variable {startBuffer bufferEnd : Addr} {s s' : Vars} {mem : Addr → RawHead} {i j k n : ℕ}
  {hashTable : ℕ → Addr} {r : Result}

theorem headAt_toNat (hf : Fits startBuffer bufferEnd) (hi : i ≤ 4096) :
    (headAt startBuffer i).toNat = startBuffer.toNat + 36 * i := by
  have hstart := hf.start
  rw [headAt, BitVec.toNat_add, BitVec.toNat_ofNat]
  omega

theorem headAt_succ (startBuffer : Addr) (i : ℕ) :
    headAt startBuffer (i + 1) = headAt startBuffer i + headSize := by
  rw [headAt, Nat.mul_succ, BitVec.ofNat_add, ← BitVec.add_assoc]
  rfl

theorem headAt_pred (startBuffer : Addr) (i : ℕ) :
    headAt startBuffer (i + 1) - headSize = headAt startBuffer i := by
  rw [headAt_succ]
  exact add_sub_cancel_right _ _

theorem headAt_inj (hf : Fits startBuffer bufferEnd) (hi : i ≤ 4096) (hj : j ≤ 4096)
    (h : headAt startBuffer i = headAt startBuffer j) : i = j := by
  have hnat := congrArg BitVec.toNat h
  rw [headAt_toNat hf hi, headAt_toNat hf hj] at hnat
  omega

/-- As long as the heads are below the blocks, there is a block left to come down by. -/
theorem top_ge (hf : Fits startBuffer bufferEnd)
    (h : startBuffer.toNat + 36 * i ≤ top bufferEnd.toNat i) :
    1024 ≤ top bufferEnd.toNat i ∧ i ≤ 3712 := by
  obtain ⟨hstart, hlow, hhigh, q, hq⟩ := hf
  rw [top, high] at h ⊢
  split_ifs at h ⊢ with hi <;> omega

/-- A round brings the blocks down, and over the hole. -/
theorem top_succ (hf : Fits startBuffer bufferEnd)
    (h : startBuffer.toNat + 36 * (i + 1) ≤ top bufferEnd.toNat i - 1024)
    (hge : 1024 ≤ top bufferEnd.toNat i) :
    (if top bufferEnd.toNat i - 1024 = 0x100000 then 0xA0000 else top bufferEnd.toNat i - 1024) =
        top bufferEnd.toNat (i + 1) ∧
      startBuffer.toNat + 36 * (i + 1) ≤ top bufferEnd.toNat (i + 1) := by
  obtain ⟨hstart, hlow, hhigh, q, hq⟩ := hf
  rw [top, top, high] at *
  split_ifs at h hge ⊢ <;> omega

/-- There is room for the heads of all the blocks above the BIOS, and for another one. -/
theorem high_lt (hf : Fits startBuffer bufferEnd)
    (h : ¬startBuffer.toNat + 36 * (i + 1) ≤ top bufferEnd.toNat i - 1024) :
    high bufferEnd.toNat < i := by
  obtain ⟨hstart, hlow, hhigh, q, hq⟩ := hf
  rw [top, high] at *
  split_ifs at h <;> omega

/-- The blocks come down. -/
theorem top_anti (hf : Fits startBuffer bufferEnd) (hij : i < j)
    (hj : 1024 ≤ top bufferEnd.toNat j) :
    top bufferEnd.toNat j + 1024 ≤ top bufferEnd.toNat i := by
  obtain ⟨hstart, hlow, hhigh, q, hq⟩ := hf
  rw [top, top, high] at *
  split_ifs at hj ⊢ <;> omega

/-! ### The loop -/

/-- A head that the loop has filled. -/
structure Filled (startBuffer : Addr) (e i : ℕ) (h : RawHead) : Prop where
  data : h.data.toNat = top e i - 1024
  free : h.dev = 0 ∧ h.uptodate = 0 ∧ h.dirt = 0 ∧ h.count = 0 ∧ h.lock = 0
  unhashed : h.prev = 0 ∧ h.next = 0
  prevFree : h.prevFree = headAt startBuffer i - headSize
  nextFree : h.nextFree = headAt startBuffer (i + 1)

/-- **So many heads have been filled.** -/
structure Built (startBuffer : Addr) (e : ℕ) (s : Vars) (i : ℕ) : Prop where
  h : s.h = headAt startBuffer i
  nrBuffers : s.nrBuffers = i
  filled : ∀ j < i, Filled startBuffer e j (s.mem (headAt startBuffer j))
  below : startBuffer.toNat + 36 * i ≤ top e i

theorem sub_blockSize_toNat {b : Addr} (h : 1024 ≤ b.toNat) :
    (b - blockSize).toNat = b.toNat - 1024 := by
  have hb := b.isLt
  rw [blockSize, BitVec.toNat_sub]
  simp only [BitVec.reduceToNat]
  omega

theorem eq_iff_toNat (a b : Addr) : a = b ↔ a.toNat = b.toNat :=
  ⟨congrArg BitVec.toNat, BitVec.eq_of_toNat_eq⟩

/-- The comparison that ends the loop. -/
theorem room_iff (hf : Fits startBuffer bufferEnd) (hs : Built startBuffer bufferEnd.toNat s i)
    (hb : s.b.toNat = top bufferEnd.toNat i) : s.h + headSize ≤ s.b - blockSize ↔
      startBuffer.toNat + 36 * (i + 1) ≤ top bufferEnd.toNat i - 1024 := by
  obtain ⟨hge, hi⟩ := top_ge hf hs.below
  rw [hs.h, ← headAt_succ, BitVec.le_def, headAt_toNat hf (by omega),
    sub_blockSize_toNat (hb ▸ hge), hb]

/-- **A round of the loop** -/
theorem Built.fillHead (hf : Fits startBuffer bufferEnd)
    (hs : Built startBuffer bufferEnd.toNat s i) (hb : s.b.toNat = top bufferEnd.toNat i)
    (hroom : startBuffer.toNat + 36 * (i + 1) ≤ top bufferEnd.toNat i - 1024) :
    Built startBuffer bufferEnd.toNat (Init.fillHead s (s.b - blockSize)) (i + 1) ∧
      (Init.fillHead s (s.b - blockSize)).b.toNat = top bufferEnd.toNat (i + 1) := by
  obtain ⟨hge, hi⟩ := top_ge hf hs.below
  obtain ⟨hnext, hbelow⟩ := top_succ hf hroom hge
  have hdown : (s.b - blockSize).toNat = top bufferEnd.toNat i - 1024 := by
    rw [sub_blockSize_toNat (hb ▸ hge), hb]
  refine ⟨⟨?_, ?_, ?_, hbelow⟩, ?_⟩
  · rw [Init.fillHead, headAt_succ, hs.h]
  · exact congrArg (· + 1) hs.nrBuffers
  · intro j hj
    change Filled _ _ _ (Function.update s.mem s.h _ _)
    rw [hs.h]
    rcases Nat.lt_succ_iff_lt_or_eq.mp hj with hlt | rfl
    · have hne : headAt startBuffer j ≠ headAt startBuffer i := fun heq =>
        Nat.ne_of_lt hlt (headAt_inj hf (by omega) (by omega) heq)
      rw [Function.update_of_ne hne]
      exact hs.filled j hlt
    · rw [Function.update_self]
      exact ⟨hdown, ⟨rfl, rfl, rfl, rfl, rfl⟩, ⟨rfl, rfl⟩, rfl, (headAt_succ _ _).symm⟩
  · change (if s.b - blockSize = 0x100000 then (0xA0000 : Addr) else s.b - blockSize).toNat = _
    rw [← hnext, ← hdown, apply_ite BitVec.toNat]
    exact if_congr (eq_iff_toNat _ _) rfl rfl

/-- **The loop ends** when there is no room, and not before. -/
theorem fillHeads_run (hf : Fits startBuffer bufferEnd)
    (hs : Built startBuffer bufferEnd.toNat s i) (hb : s.b.toNat = top bufferEnd.toNat i)
    (hn : 3712 < n + i) : ∃ s' k, fillHeads n s = some s' ∧
      Built startBuffer bufferEnd.toNat s' k ∧ high bufferEnd.toNat < k := by
  induction n generalizing s i with
  | zero => exact absurd (top_ge hf hs.below).2 (by omega)
  | succ n ih =>
    by_cases hroom : startBuffer.toNat + 36 * (i + 1) ≤ top bufferEnd.toNat i - 1024
    · obtain ⟨hs', hb'⟩ := hs.fillHead hf hb hroom
      obtain ⟨s', k, hrun, hbuilt⟩ := ih hs' hb' (by omega)
      refine ⟨s', k, ?_, hbuilt⟩
      rw [fillHeads, if_pos ((room_iff hf hs hb).mpr hroom), hrun]
    · refine ⟨{ s with b := s.b - blockSize }, i, ?_,
        ⟨hs.h, hs.nrBuffers, hs.filled, hs.below⟩, high_lt hf hroom⟩
      rw [fillHeads, if_neg (mt (room_iff hf hs hb).mp hroom)]

/-- Where the loop begins. -/
theorem built_start (hf : Fits startBuffer bufferEnd) (mem : Addr → RawHead) :
    Built startBuffer bufferEnd.toNat
        ⟨startBuffer, if bufferEnd = (1 : Addr) <<< 20 then 640 * 1024 else bufferEnd, 0, mem⟩ 0 ∧
      (if bufferEnd = (1 : Addr) <<< 20 then 640 * 1024 else bufferEnd : Addr).toNat =
        top bufferEnd.toNat 0 := by
  obtain ⟨hstart, hlow, hhigh, q, hq⟩ := hf
  refine ⟨⟨(BitVec.add_zero _).symm, rfl, fun j hj => absurd hj (Nat.not_lt_zero j), ?_⟩, ?_⟩
  · rw [top, high]
    split_ifs <;> omega
  · have hend : bufferEnd = (1 : Addr) <<< 20 ↔ bufferEnd.toNat = 0x100000 := eq_iff_toNat _ _
    have hlow' : (640 * 1024 : Addr).toNat = 0xA0000 := by decide
    rw [apply_ite BitVec.toNat, if_congr hend rfl rfl, hlow', top, high]
    split_ifs <;> omega

/-! ### The end -/

theorem closeRing_apply (mem : Addr → RawHead) (freeList h x : Addr) :
    closeRing mem freeList h x = { mem x with
      prevFree := if x = freeList then h else (mem x).prevFree
      nextFree := if x = h then freeList else (mem x).nextFree } := by
  rw [closeRing]
  by_cases hx : x = h
  · subst hx
    rw [Function.update_self]
    by_cases hf : x = freeList
    · subst hf
      simp
    · simp [hf]
  · rw [Function.update_of_ne hx]
    by_cases hf : x = freeList
    · subst hf
      simp [hx]
    · simp [hx, hf]

/-- **What is in a head** in the end. -/
structure Linked (startBuffer : Addr) (e k i : ℕ) (h : RawHead) : Prop where
  data : h.data.toNat = top e i - 1024
  free : h.dev = 0 ∧ h.uptodate = 0 ∧ h.dirt = 0 ∧ h.count = 0 ∧ h.lock = 0
  unhashed : h.prev = 0 ∧ h.next = 0
  prevFree : h.prevFree = headAt startBuffer (if i = 0 then k - 1 else i - 1)
  nextFree : h.nextFree = headAt startBuffer (if i = k - 1 then 0 else i + 1)

/-- **What `buffer_init` leaves**: as many heads as there is room for. -/
structure Ready (startBuffer bufferEnd : Addr) (r : Result) : Prop where
  freeList : r.freeList = startBuffer
  hashTable : ∀ i < nrHash, r.hashTable i = 0
  linked : ∀ i < r.nrBuffers,
    Linked startBuffer bufferEnd.toNat r.nrBuffers i (r.mem (headAt startBuffer i))
  below : startBuffer.toNat + 36 * r.nrBuffers ≤ top bufferEnd.toNat r.nrBuffers
  high : high bufferEnd.toNat < r.nrBuffers

theorem headAt_zero (startBuffer : Addr) : headAt startBuffer 0 = startBuffer :=
  BitVec.add_zero startBuffer

/-- The ring is closed at its first and its last head. -/
theorem Built.linked (hf : Fits startBuffer bufferEnd)
    (hs : Built startBuffer bufferEnd.toNat s (k + 1)) (hi : i < k + 1) :
    Linked startBuffer bufferEnd.toNat (k + 1) i
      (closeRing s.mem startBuffer (s.h - headSize) (headAt startBuffer i)) := by
  obtain ⟨-, hk⟩ := top_ge hf hs.below
  obtain ⟨hdata, hfree, hunhashed, hprev, hnext⟩ := hs.filled i hi
  have hfirst : headAt startBuffer i = startBuffer ↔ i = 0 := by
    constructor
    · intro h
      exact headAt_inj hf (by omega) (by omega) (h.trans (headAt_zero _).symm)
    · rintro rfl
      exact headAt_zero _
  have hlast : headAt startBuffer i = headAt startBuffer k ↔ i = k :=
    ⟨headAt_inj hf (by omega) (by omega), fun h => h ▸ rfl⟩
  rw [closeRing_apply, hs.h, headAt_pred]
  refine ⟨hdata, hfree, hunhashed, ?_, ?_⟩
  · change (if headAt startBuffer i = startBuffer then _ else _) = _
    rw [if_congr hfirst rfl rfl, hprev]
    split_ifs with h0
    · rfl
    · obtain ⟨j, rfl⟩ := Nat.exists_eq_succ_of_ne_zero h0
      exact headAt_pred _ j
  · change (if headAt startBuffer i = headAt startBuffer k then _ else _) = _
    rw [if_congr hlast rfl rfl, hnext, Nat.add_sub_cancel]
    split_ifs
    · exact (headAt_zero _).symm
    · rfl

/-- **`buffer_init` ends.** -/
theorem bufferInit_run (hf : Fits startBuffer bufferEnd) (mem : Addr → RawHead)
    (hashTable : ℕ → Addr) (hn : 3712 < n) :
    ∃ r, bufferInit n startBuffer bufferEnd mem hashTable = some r ∧
      Ready startBuffer bufferEnd r := by
  obtain ⟨hstart, hb⟩ := built_start hf mem
  obtain ⟨s, k, hrun, hbuilt, hhigh⟩ := fillHeads_run hf hstart hb (by omega)
  obtain ⟨k, rfl⟩ := Nat.exists_eq_succ_of_ne_zero (Nat.ne_of_gt (Nat.zero_lt_of_lt hhigh))
  have hnr := hbuilt.nrBuffers
  refine ⟨_, by rw [bufferInit, hrun]; rfl, rfl, fun i hi => if_pos hi, ?_, ?_, ?_⟩
  · intro i hi
    change i < s.nrBuffers at hi
    change Linked _ _ s.nrBuffers _ _
    rw [hnr] at hi ⊢
    exact hbuilt.linked hf hi
  · change _ + 36 * s.nrBuffers ≤ top _ s.nrBuffers
    rw [hnr]
    exact hbuilt.below
  · change _ < s.nrBuffers
    rw [hnr]
    exact hhigh

/-! ### The areas -/

/-- **The bytes** of a head, or of the block of a head. -/
def Result.area (r : Result) : Fin r.nrBuffers ⊕ Fin r.nrBuffers → Set ℕ
  | .inl i => Set.Ico (headAt r.freeList i).toNat ((headAt r.freeList i).toNat + headSize.toNat)
  | .inr i => Set.Ico (r.mem (headAt r.freeList i)).data.toNat
    ((r.mem (headAt r.freeList i)).data.toNat + blockSize.toNat)

/-- **The cache is laid out** between the end of the kernel and that of the memory for buffers. -/
structure Carved (startBuffer bufferEnd : Addr) (r : Result) : Prop where
  pos : 0 < r.nrBuffers
  /-- Heads and blocks do not overlap. -/
  disjoint : Pairwise (Function.onFun Disjoint r.area)
  within : ∀ x, r.area x ⊆ Set.Ico startBuffer.toNat bufferEnd.toNat
  /-- The video memory and the BIOS are left alone. -/
  hole : ∀ x, Disjoint (r.area x) (Set.Ico 0xA0000 0x100000)
  /-- The free list is one ring of all the heads. -/
  ring : ∃ l, Ring (fun a => some (r.mem a).nextFree) (fun a => some (r.mem a).prevFree) l ∧
    l.Nodup ∧ l.head? = some r.freeList ∧
    ∀ a, a ∈ l ↔ ∃ i < r.nrBuffers, a = headAt r.freeList i

/-- The limits of an area. -/
structure Limits (startBuffer bufferEnd : Addr) (r : Result) : Prop where
  head : ∀ i < r.nrBuffers, (headAt r.freeList i).toNat = startBuffer.toNat + 36 * i
  block : ∀ i < r.nrBuffers, (r.mem (headAt r.freeList i)).data.toNat + 1024 =
    top bufferEnd.toNat i
  apart : ∀ i < r.nrBuffers, startBuffer.toNat + 36 * r.nrBuffers + 1024 ≤ top bufferEnd.toNat i
  down : ∀ i j, i < j → j < r.nrBuffers → top bufferEnd.toNat j + 1024 ≤ top bufferEnd.toNat i

theorem Ready.limits (hf : Fits startBuffer bufferEnd) (h : Ready startBuffer bufferEnd r) :
    Limits startBuffer bufferEnd r := by
  obtain ⟨hge, hle⟩ := top_ge hf h.below
  have hapart : ∀ i < r.nrBuffers, top bufferEnd.toNat r.nrBuffers + 1024 ≤ top bufferEnd.toNat i :=
    fun i hi => top_anti hf hi hge
  have hbelow := h.below
  constructor
  · intro i hi
    rw [h.freeList, headAt_toNat hf (by omega)]
  · intro i hi
    rw [h.freeList, (h.linked i hi).data]
    have := hapart i hi
    omega
  · intro i hi
    have := hapart i hi
    omega
  · intro i j hij hj
    have := hapart j hj
    exact top_anti hf hij (by omega)

/-- The blocks are below the hole or above it, and all below the end. -/
theorem top_hole (hf : Fits startBuffer bufferEnd) (hge : 1024 ≤ top bufferEnd.toNat i) :
    top bufferEnd.toNat i ≤ bufferEnd.toNat ∧
      (top bufferEnd.toNat i ≤ 0xA0000 ∨ 0x100000 + 1024 ≤ top bufferEnd.toNat i) := by
  obtain ⟨hstart, hlow, hhigh, q, hq⟩ := hf
  rw [top, high] at *
  split_ifs at hge ⊢ <;> omega

/-- The last of the heads is below the hole. -/
theorem Ready.heads_low (h : Ready startBuffer bufferEnd r) :
    startBuffer.toNat + 36 * r.nrBuffers ≤ 0xA0000 := by
  have hbelow := h.below
  have hhigh := h.high
  rw [top, if_neg (by omega)] at hbelow
  omega

theorem disjoint_Ico {a b c d : ℕ} (h : b ≤ c ∨ d ≤ a) :
    Disjoint (Set.Ico a b) (Set.Ico c d) := by
  rw [Set.Ico_disjoint_Ico]
  omega

theorem headSize_toNat : headSize.toNat = 36 := rfl

theorem blockSize_toNat : blockSize.toNat = 1024 := rfl

theorem Limits.disjoint (h : Limits startBuffer bufferEnd r) :
    Pairwise (Function.onFun Disjoint r.area) := by
  obtain ⟨hhead, hblock, hapart, hdown⟩ := h
  have hheads : ∀ i j : Fin r.nrBuffers, i ≠ j → Disjoint (r.area (.inl i)) (r.area (.inl j)) := by
    intro i j hij
    have hne : (i : ℕ) ≠ j := fun heq => hij (Fin.ext heq)
    refine disjoint_Ico ?_
    rw [hhead i i.isLt, hhead j j.isLt, headSize_toNat]
    omega
  have hblocks : ∀ i j : Fin r.nrBuffers, i < j → Disjoint (r.area (.inr i)) (r.area (.inr j)) := by
    intro i j hij
    have hi := hblock i i.isLt
    have hj := hblock j j.isLt
    have hij := hdown i j hij j.isLt
    refine disjoint_Ico (Or.inr ?_)
    rw [blockSize_toNat]
    omega
  have hmixed : ∀ i j : Fin r.nrBuffers, Disjoint (r.area (.inl i)) (r.area (.inr j)) := by
    intro i j
    have hi := i.isLt
    have hj := hblock j j.isLt
    have hij := hapart j j.isLt
    refine disjoint_Ico (Or.inl ?_)
    rw [hhead i hi, headSize_toNat]
    omega
  rintro (i | i) (j | j) hij
  · exact hheads i j fun heq => hij (congrArg Sum.inl heq)
  · exact hmixed i j
  · exact (hmixed j i).symm
  · rcases lt_or_gt_of_ne fun heq => hij (congrArg Sum.inr heq) with hlt | hlt
    · exact hblocks i j hlt
    · exact (hblocks j i hlt).symm

/-- An area ends below the hole, or begins above it. -/
theorem Ready.area_Ico (hf : Fits startBuffer bufferEnd) (h : Ready startBuffer bufferEnd r)
    (x : Fin r.nrBuffers ⊕ Fin r.nrBuffers) : ∃ a b, r.area x = Set.Ico a b ∧
      startBuffer.toNat ≤ a ∧ b ≤ bufferEnd.toNat ∧ (b ≤ 0xA0000 ∨ 0x100000 ≤ a) := by
  obtain ⟨hhead, hblock, hapart, -⟩ := h.limits hf
  have hlow := h.heads_low
  rcases x with i | i
  · have hi := i.isLt
    have hend := hf.low
    refine ⟨_, _, rfl, ?_⟩
    rw [hhead i hi, headSize_toNat]
    omega
  · have hi := hblock i i.isLt
    have hbelow := hapart i i.isLt
    obtain ⟨hend, hhole⟩ := top_hole hf (show 1024 ≤ top bufferEnd.toNat i by omega)
    refine ⟨_, _, rfl, ?_⟩
    rw [blockSize_toNat]
    omega

theorem Ready.carved (hf : Fits startBuffer bufferEnd) (h : Ready startBuffer bufferEnd r) :
    Carved startBuffer bufferEnd r := by
  have hpos : 0 < r.nrBuffers := Nat.zero_lt_of_lt h.high
  obtain ⟨-, hle⟩ := top_ge hf h.below
  refine ⟨hpos, (h.limits hf).disjoint, fun x => ?_, fun x => ?_, ?_⟩
  · obtain ⟨a, b, harea, ha, hb, -⟩ := h.area_Ico hf x
    rw [harea]
    exact Set.Ico_subset_Ico ha hb
  · obtain ⟨a, b, harea, -, -, hhole⟩ := h.area_Ico hf x
    rw [harea]
    exact disjoint_Ico hhole
  · refine ⟨(List.range' 0 r.nrBuffers).map (headAt startBuffer), ?_, ?_, ?_, ?_⟩
    · exact ring_numbered hpos (fun i hi => congrArg some (h.linked i hi).nextFree)
        fun i hi => congrArg some (h.linked i hi).prevFree
    · refine List.Nodup.map_on (fun i hi j hj heq => ?_) List.nodup_range'
      rw [List.mem_range'_1] at hi hj
      exact headAt_inj hf (by omega) (by omega) heq
    · obtain ⟨m, hm⟩ := Nat.exists_eq_succ_of_ne_zero hpos.ne'
      rw [hm, h.freeList]
      exact congrArg some (headAt_zero _)
    · intro a
      rw [List.mem_map, h.freeList]
      constructor
      · rintro ⟨i, hi, rfl⟩
        rw [List.mem_range'_1] at hi
        exact ⟨i, by omega, rfl⟩
      · rintro ⟨i, hi, rfl⟩
        exact ⟨i, List.mem_range'_1.mpr (by omega), rfl⟩

/-- **`buffer_init` lays the cache out without overlap.** -/
theorem bufferInit_carved (mem : Addr → RawHead) (hashTable : ℕ → Addr)
    (hstart : startBuffer.toNat ≤ 0x80000) (hlow : 0x100000 ≤ bufferEnd.toNat)
    (hhigh : bufferEnd.toNat ≤ 0x400000) (hblocks : 1024 ∣ bufferEnd.toNat) :
    ∃ k, ∀ n, k < n → ∃ r, bufferInit n startBuffer bufferEnd mem hashTable = some r ∧
      Carved startBuffer bufferEnd r := by
  have hf : Fits startBuffer bufferEnd := ⟨hstart, hlow, hhigh, hblocks⟩
  refine ⟨3712, fun n hn => ?_⟩
  obtain ⟨r, hrun, hready⟩ := bufferInit_run hf mem hashTable hn
  exact ⟨r, hrun, hready.carved hf⟩

/-- With 4 MB of memory for buffers, which is clear. -/
theorem bufferInit_carved_large :
    ∃ k, ∀ n, k < n → ∃ r,
      bufferInit n 0x20000 0x400000 (fun _ => RawHead.clear) (fun _ => 0) = some r ∧
        Carved 0x20000 0x400000 r :=
  bufferInit_carved _ _ (by decide) (by decide) (by decide) (by decide)

/-! ### The heads as the other functions see them -/

/-- A pointer to a head. -/
def point (startBuffer : Addr) : Option ℕ → Addr
  | none => 0
  | some i => headAt startBuffer i

/-- **The heads in the memory are those of a cache.** -/
structure Models (startBuffer : Addr) (r : Result) (c : Cache) : Prop where
  nrBuffers : r.nrBuffers = c.nrBuffers
  freeList : r.freeList = headAt startBuffer c.freeList
  hashTable : ∀ i < nrHash, r.hashTable i = point startBuffer (c.hashTable i)
  tag : ∀ i < c.nrBuffers, (r.mem (headAt startBuffer i)).dev.toNat = (c.head i).dev ∧
    (r.mem (headAt startBuffer i)).blocknr.toNat = (c.head i).blocknr
  flags : ∀ i < c.nrBuffers, ((r.mem (headAt startBuffer i)).uptodate ≠ 0 ↔ (c.head i).uptodate) ∧
    ((r.mem (headAt startBuffer i)).dirt ≠ 0 ↔ (c.head i).dirt) ∧
    ((r.mem (headAt startBuffer i)).lock ≠ 0 ↔ (c.head i).lock) ∧
    (r.mem (headAt startBuffer i)).count.toNat = (c.head i).count
  links : ∀ i < c.nrBuffers,
    (r.mem (headAt startBuffer i)).prev = point startBuffer (c.head i).prev ∧
    (r.mem (headAt startBuffer i)).next = point startBuffer (c.head i).next ∧
    (r.mem (headAt startBuffer i)).prevFree = point startBuffer (c.head i).prevFree ∧
    (r.mem (headAt startBuffer i)).nextFree = point startBuffer (c.head i).nextFree

/-- **`buffer_init` leaves what the model of the cache begins with.** -/
theorem bufferInit_models (hf : Fits startBuffer bufferEnd) (mem : Addr → RawHead)
    (hashTable : ℕ → Addr) (hn : 3712 < n) :
    ∃ r m old, bufferInit n startBuffer bufferEnd mem hashTable = some r ∧ 0 < m ∧
      Models startBuffer r (Buffer.bufferInit m old) := by
  obtain ⟨r, hrun, hready⟩ := bufferInit_run hf mem hashTable hn
  refine ⟨r, r.nrBuffers, fun i => ⟨fun _ => 0, (r.mem (headAt startBuffer i)).blocknr.toNat, 0,
    false, false, 0, false, none, none, none, none⟩, hrun, Nat.zero_lt_of_lt hready.high, rfl, ?_,
    hready.hashTable, ?_, ?_, ?_⟩
  · rw [hready.freeList]
    exact (headAt_zero _).symm
  · intro i hi
    exact ⟨congrArg BitVec.toNat (hready.linked i hi).free.1, rfl⟩
  · intro i hi
    obtain ⟨-, hup, hdirt, hcount, hlock⟩ := (hready.linked i hi).free
    rw [hup, hdirt, hcount, hlock]
    simp [Buffer.bufferInit]
  · intro i hi
    obtain ⟨-, -, ⟨hprev, hnext⟩, hpf, hnf⟩ := hready.linked i hi
    exact ⟨hprev, hnext, hpf, hnf⟩

end Linux011.Buffer.Init

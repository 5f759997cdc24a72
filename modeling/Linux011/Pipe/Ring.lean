import Mathlib.Data.List.Range
import Mathlib.Data.Int.Notation
import Mathlib.Tactic.Common

/-!
# The ring of a pipe

The inode of a pipe holds a page and two 16-bit indices into it: `PIPE_HEAD`, where the next
byte goes in, and `PIPE_TAIL`, where the next one comes out. `read_pipe` and `write_pipe`
move a chunk at a time, as much as the caller asks for, as there is in the ring, and as
there is up to the end of the page.

What is in the ring is `Linux011.Pipe.Ring.pending`, from the tail on and around the end of the
page. A chunk is taken from its front and put at its end
(`Linux011.Pipe.Ring.pending_take`, `Linux011.Pipe.Ring.pending_put`).
-/

namespace Linux011.Pipe

/-- `PAGE_SIZE`. -/
def pageSize : ℕ := 4096

/-- **The inode of a pipe.** -/
structure Ring where
  /-- `PIPE_HEAD`, an unsigned short. -/
  head : ℕ
  /-- `PIPE_TAIL`, an unsigned short. -/
  tail : ℕ
  /-- The page `i_size` points to. -/
  page : ℕ → UInt8
  /-- `i_count`. -/
  count : ℕ

namespace Ring

/-- `PIPE_SIZE`: the difference, modulo the size of the page. -/
def size (p : Ring) : ℕ := (((p.head : ℤ) - p.tail) % pageSize).toNat

/-- The `chars` of `read_pipe`. -/
def readChars (p : Ring) (count : ℤ) : ℤ :=
  let chars := (pageSize : ℤ) - p.tail
  let chars := if count < chars then count else chars
  if (p.size : ℤ) < chars then p.size else chars

/-- What is free: the `size` of `write_pipe`. -/
def room (p : Ring) : ℤ := (pageSize - 1 : ℤ) - p.size

/-- The `chars` of `write_pipe`. -/
def writeChars (p : Ring) (count : ℤ) : ℤ :=
  let chars := (pageSize : ℤ) - p.head
  let chars := if count < chars then count else chars
  if p.room < chars then p.room else chars

/-- `PIPE_TAIL(*inode) += chars; PIPE_TAIL(*inode) &= (PAGE_SIZE-1)`. -/
def advanceTail (p : Ring) (chars : ℤ) : Ring :=
  { p with tail := ((p.tail + chars) % pageSize).toNat }

/-- `PIPE_HEAD(*inode) += chars; PIPE_HEAD(*inode) &= (PAGE_SIZE-1)`. -/
def advanceHead (p : Ring) (chars : ℤ) : Ring :=
  { p with head := ((p.head + chars) % pageSize).toNat }

/-- A byte is stored into the page. -/
def store (p : Ring) (i : ℕ) (b : UInt8) : Ring := { p with page := Function.update p.page i b }

/-- **The indices are inside the page.** -/
def Ok (p : Ring) : Prop := p.head < pageSize ∧ p.tail < pageSize

/-- The place of the byte that is `i` behind the tail. -/
def place (p : Ring) (i : ℕ) : ℕ := (p.tail + i) % pageSize

/-- **What is in the ring**, the oldest byte first. -/
def pending (p : Ring) : List UInt8 := (List.range p.size).map fun i => p.page (p.place i)

variable {p : Ring} {count : ℤ} {chars : ℕ}

/-! ### The indices -/

theorem size_lt (p : Ring) : p.size < pageSize := by
  unfold size pageSize
  omega

theorem size_eq (h : p.Ok) :
    p.size = if p.tail ≤ p.head then p.head - p.tail else p.head + pageSize - p.tail := by
  obtain ⟨hh, ht⟩ := h
  unfold size pageSize at *
  split
  · omega
  · omega

/-- The head is the first free place. -/
theorem place_size (h : p.Ok) : p.place p.size = p.head := by
  have hsize := size_eq h
  obtain ⟨hh, ht⟩ := h
  unfold place pageSize at *
  split at hsize
  · omega
  · omega

/-- **A chunk that is read** is in the ring and does not go beyond the page. -/
theorem readChars_spec (h : p.Ok) (hc : 0 < count) (hs : p.size ≠ 0) :
    ∃ chars : ℕ, p.readChars count = chars ∧ 0 < chars ∧ chars ≤ p.size ∧ (chars : ℤ) ≤ count ∧
      p.tail + chars ≤ pageSize := by
  obtain ⟨hh, ht⟩ := h
  refine ⟨(p.readChars count).toNat, ?_⟩
  have hsize : (0 : ℤ) < p.size := by omega
  have htail : (p.tail : ℤ) < pageSize := by omega
  unfold readChars
  dsimp only
  split <;> split <;> omega

/-- **A chunk that is written** is free and does not go beyond the page. -/
theorem writeChars_spec (h : p.Ok) (hc : 0 < count) (hr : p.room ≠ 0) :
    ∃ chars : ℕ, p.writeChars count = chars ∧ 0 < chars ∧ p.size + chars < pageSize ∧
      (chars : ℤ) ≤ count ∧ p.head + chars ≤ pageSize := by
  obtain ⟨hh, ht⟩ := h
  refine ⟨(p.writeChars count).toNat, ?_⟩
  have hsize := p.size_lt
  have hroom : p.room = (pageSize : ℤ) - 1 - p.size := rfl
  have hpos : 0 < p.room := by omega
  have hhead : (p.head : ℤ) < pageSize := by omega
  unfold writeChars
  dsimp only
  split <;> split <;> omega

/-! ### The bytes in the ring -/

/-- The tail has moved on by `chars`. -/
theorem place_advanceTail (i : ℕ) : (p.advanceTail chars).place i = p.place (chars + i) := by
  unfold place advanceTail
  dsimp only
  have hcast : (((p.tail : ℤ) + chars) % pageSize).toNat = (p.tail + chars) % pageSize := by
    unfold pageSize
    omega
  rw [hcast, Nat.mod_add_mod, Nat.add_assoc]

theorem Ok.advanceTail (h : p.Ok) : (p.advanceTail chars).Ok := by
  refine ⟨h.1, ?_⟩
  unfold Ring.advanceTail pageSize
  dsimp only
  omega

theorem Ok.advanceHead (h : p.Ok) : (p.advanceHead chars).Ok := by
  refine ⟨?_, h.2⟩
  unfold Ring.advanceHead pageSize
  dsimp only
  omega

theorem size_advanceTail (h : p.Ok) (hc : chars ≤ p.size) :
    (p.advanceTail chars).size = p.size - chars := by
  have hsize := size_eq h
  obtain ⟨hh, ht⟩ := h
  unfold size Ring.advanceTail pageSize at *
  dsimp only
  split at hsize <;> omega

theorem size_advanceHead (h : p.Ok) (hc : p.size + chars < pageSize) :
    (p.advanceHead chars).size = p.size + chars := by
  have hsize := size_eq h
  obtain ⟨hh, ht⟩ := h
  unfold size Ring.advanceHead pageSize at *
  dsimp only
  split at hsize <;> omega

/-- **What a chunk takes** is the front of the ring. -/
theorem pending_take (h : p.Ok) (hc : chars ≤ p.size) (hend : p.tail + chars ≤ pageSize) :
    p.pending = (List.range' p.tail chars).map p.page ++ (p.advanceTail chars).pending := by
  have hfront : (List.range' p.tail chars).map p.page =
      (List.range chars).map fun i => p.page (p.place i) := by
    rw [List.range'_eq_map_range, List.map_map]
    refine List.map_congr_left fun i hi => ?_
    have hi := List.mem_range.mp hi
    rw [Function.comp_apply, place, Nat.mod_eq_of_lt (by omega)]
  have hback : (p.advanceTail chars).pending =
      (List.range (p.size - chars)).map fun i => p.page (p.place (chars + i)) := by
    unfold pending
    rw [size_advanceTail h hc]
    refine List.map_congr_left fun i _ => ?_
    rw [place_advanceTail]
    rfl
  have hsum : p.size = chars + (p.size - chars) := by omega
  rw [hfront, hback, pending]
  conv_lhs => rw [hsum, List.range_add, List.map_append, List.map_map]
  rfl

/-- **What a chunk puts** is behind the end of the ring. -/
theorem pending_put (h : p.Ok) (hc : p.size + chars < pageSize) (hend : p.head + chars ≤ pageSize)
    {page : ℕ → UInt8} (hpage : ∀ i, i < p.head ∨ p.head + chars ≤ i → page i = p.page i) :
    ({ p.advanceHead chars with page := page } : Ring).pending =
      p.pending ++ (List.range' p.head chars).map page := by
  have hsize : ({ p.advanceHead chars with page := page } : Ring).size = p.size + chars :=
    size_advanceHead h hc
  have hplace : ∀ i, ({ p.advanceHead chars with page := page } : Ring).place i = p.place i :=
    fun i => rfl
  unfold pending
  rw [hsize, List.range_add, List.map_append, List.map_map]
  refine congr (congrArg _ ?_) ?_
  · -- what was in the ring has not been touched
    refine List.map_congr_left fun i hi => ?_
    have hi := List.mem_range.mp hi
    rw [hplace]
    refine hpage _ ?_
    by_contra hin
    rw [not_or, Nat.not_lt, Nat.not_le] at hin
    have hs := size_eq h
    obtain ⟨hh, ht⟩ := h
    unfold place pageSize at *
    split at hs <;> omega
  · rw [List.range'_eq_map_range, List.map_map]
    refine List.map_congr_left fun i hi => ?_
    have hi := List.mem_range.mp hi
    have hhead : p.place (p.size + i) = p.head + i := by
      have hps := place_size h
      unfold place at *
      rw [← Nat.add_assoc, ← Nat.mod_add_mod, hps, Nat.mod_eq_of_lt (by omega)]
    rw [Function.comp_apply, Function.comp_apply, hplace, hhead]

end Ring

end Linux011.Pipe

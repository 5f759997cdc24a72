import Mathlib.Algebra.Group.Nat.Defs
import Mathlib.Data.Nat.Basic
import Mathlib.Order.Basic

/-!
# Page-table entries

A page-directory or page-table entry is a 32-bit word: the address of a frame in
its upper twenty bits, flags below. The code takes entries apart with masks –
`1 & *dir`, `0xfffff000 & *dir`, `this_page &= ~2`, `tmp | 7` – and this file
gives those masks their names and the facts about how they combine, so that no
later proof looks at a bit.

Addresses of pages are always written by frame number, the address shifted right
by twelve.
-/

namespace Linux011.Mm

/-- A word of physical memory. -/
abbrev Word : Type := BitVec 32

/-- `1 & w`: the entry is present. -/
def present (w : Word) : Bool := w.getLsbD 0

/-- `2 & w`: the entry may be written through. -/
def writable (w : Word) : Bool := w.getLsbD 1

/-- `0x40 & w`: the processor has written through the entry. -/
def dirty (w : Word) : Bool := w.getLsbD 6

/-- `0xfffff000 & w`, as a frame number. -/
def frameOf (w : Word) : ℕ := (w >>> 12).toNat

/-- `page | 7`: an entry naming a frame, present, writable, for users. -/
def pageEntry (f : ℕ) : Word := BitVec.ofNat 32 (f * 4096) ||| 7#32

/-- `w & ~2`. -/
def clearRw (w : Word) : Word := w &&& ~~~2#32

/-- `w | 2`. -/
def setRw (w : Word) : Word := w ||| 2#32

/-- What the processor does to the entry of a store: accessed and dirty bit. -/
def setDirty (w : Word) : Word := w ||| 0x60#32

/-- The frame a present entry names. -/
def named (w : Word) : Option ℕ := if present w then some (frameOf w) else none

/-- What `try_to_share` looks at: the frame a present entry names, and its dirty bit. -/
def seen (w : Word) : Option (ℕ × Bool) := (named w).map fun f => (f, dirty w)

/-! ### How the masks combine -/

@[simp] theorem present_zero : present 0#32 = false := by decide

@[simp] theorem named_zero : named 0#32 = none := by simp [named]

@[simp] theorem present_pageEntry (f : ℕ) : present (pageEntry f) = true := by
  simp [present, pageEntry]

@[simp] theorem writable_pageEntry (f : ℕ) : writable (pageEntry f) = true := by
  simp [writable, pageEntry]

@[simp] theorem dirty_pageEntry (f : ℕ) : dirty (pageEntry f) = false := by
  have hbit : (f * 4096).testBit 6 = false := by
    rw [Nat.testBit_eq_decide_div_mod_eq, decide_eq_false_iff_not]
    omega
  rw [dirty, pageEntry, BitVec.getLsbD_or, BitVec.getLsbD_ofNat, hbit]
  decide

@[simp] theorem present_clearRw (w : Word) : present (clearRw w) = present w := by
  simp [present, clearRw]

@[simp] theorem writable_clearRw (w : Word) : writable (clearRw w) = false := by
  simp [writable, clearRw]

@[simp] theorem clearRw_clearRw (w : Word) : clearRw (clearRw w) = clearRw w := by
  rw [clearRw, clearRw, BitVec.and_assoc, BitVec.and_self]

@[simp] theorem present_setRw (w : Word) : present (setRw w) = present w := by
  simp [present, setRw]

@[simp] theorem writable_setRw (w : Word) : writable (setRw w) = true := by
  simp [writable, setRw]

@[simp] theorem dirty_clearRw (w : Word) : dirty (clearRw w) = dirty w := by
  simp [dirty, clearRw]

@[simp] theorem dirty_setRw (w : Word) : dirty (setRw w) = dirty w := by
  simp [dirty, setRw]

@[simp] theorem dirty_setDirty (w : Word) : dirty (setDirty w) = true := by
  simp [dirty, setDirty]

@[simp] theorem present_setDirty (w : Word) : present (setDirty w) = present w := by
  simp [present, setDirty]

@[simp] theorem writable_setDirty (w : Word) : writable (setDirty w) = writable w := by
  simp [writable, setDirty]

@[simp] theorem frameOf_pageEntry {f : ℕ} (h : f < 2 ^ 20) : frameOf (pageEntry f) = f := by
  have h7 : (7#32 : Word) >>> 12 = 0#32 := by decide
  rw [frameOf, pageEntry, BitVec.ushiftRight_or_distrib, h7, BitVec.or_zero,
    BitVec.toNat_ushiftRight, BitVec.toNat_ofNat, Nat.shiftRight_eq_div_pow]
  omega

@[simp] theorem frameOf_clearRw (w : Word) : frameOf (clearRw w) = frameOf w := by
  have h2 : (~~~2#32 : Word) >>> 12 = BitVec.allOnes 32 >>> 12 := by decide
  rw [frameOf, frameOf, clearRw, BitVec.ushiftRight_and_distrib, h2,
    ← BitVec.ushiftRight_and_distrib, BitVec.and_allOnes]

@[simp] theorem frameOf_setRw (w : Word) : frameOf (setRw w) = frameOf w := by
  have h2 : (2#32 : Word) >>> 12 = 0#32 := by decide
  rw [frameOf, frameOf, setRw, BitVec.ushiftRight_or_distrib, h2, BitVec.or_zero]

@[simp] theorem frameOf_setDirty (w : Word) : frameOf (setDirty w) = frameOf w := by
  have h60 : (0x60#32 : Word) >>> 12 = 0#32 := by decide
  rw [frameOf, frameOf, setDirty, BitVec.ushiftRight_or_distrib, h60, BitVec.or_zero]

/-- `this_page > LOW_MEM` compares the whole entry, flags included; of a present
entry that asks whether its frame lies at or above `LOW_MEM`. -/
theorem lowMem_lt_iff {w : Word} (h : present w = true) : 0x100000 < w.toNat ↔ 256 ≤ frameOf w := by
  rw [present, BitVec.getLsbD, Nat.testBit_zero, decide_eq_true_eq] at h
  rw [frameOf, BitVec.toNat_ushiftRight, Nat.shiftRight_eq_div_pow]
  omega

theorem named_eq_some {w : Word} {f : ℕ} : named w = some f ↔ present w = true ∧ frameOf w = f := by
  cases h : present w <;> simp [named, h]

theorem named_eq_none {w : Word} : named w = none ↔ present w = false := by
  cases h : present w <;> simp [named, h]

@[simp] theorem named_clearRw (w : Word) : named (clearRw w) = named w := by simp [named]

@[simp] theorem named_setRw (w : Word) : named (setRw w) = named w := by simp [named]

@[simp] theorem named_setDirty (w : Word) : named (setDirty w) = named w := by simp [named]

theorem named_pageEntry {f : ℕ} (h : f < 2 ^ 20) : named (pageEntry f) = some f := by
  simp [named, frameOf_pageEntry h]

theorem named_of_present {w : Word} (h : present w = true) : named w = some (frameOf w) := by
  simp [named, h]

@[simp] theorem seen_clearRw (w : Word) : seen (clearRw w) = seen w := by simp [seen]

theorem seen_of_absent {w : Word} (h : named w = none) : seen w = none := by simp [seen, h]

theorem named_of_seen {w w' : Word} (h : seen w = seen w') : named w = named w' := by
  have hfst : ∀ w, (seen w).map Prod.fst = named w := fun w => by
    simp [seen, Function.comp_def]
  rw [← hfst w, h, hfst]

theorem dirty_of_seen {w w' : Word} {f : ℕ} (h : seen w = seen w') (hn : named w = some f) :
    dirty w = dirty w' := by
  have hn' := hn
  rw [named_of_seen h] at hn'
  rw [seen, seen, hn, hn'] at h
  exact congrArg Prod.snd (Option.some.inj h)

end Linux011.Mm

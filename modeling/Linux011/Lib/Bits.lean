import Mathlib.Data.BitVec
import Mathlib.Logic.Function.Basic

/-!
# Bits in words

A row of words of 32 bits, read as one long row of bits (`Linux011.Words.bit`): to set or to clear
one bit in its word does that and nothing else in the row, and a search that goes through the words
finds the first bit of the row that is not set (`Linux011.Words.firstZero_spec`).
-/

namespace Linux011

/-- **The lowest bit of a word** that is set. -/
def lowestBit (w : BitVec 32) : Option ℕ := (List.range 32).find? fun i => w.getLsbD i

theorem lowestBit_eq_some {w : BitVec 32} {i : ℕ} :
    lowestBit w = some i ↔ w.getLsbD i = true ∧ i < 32 ∧ ∀ j < i, w.getLsbD j = false := by
  rw [lowestBit, List.find?_range_eq_some]
  simp

theorem lowestBit_eq_none {w : BitVec 32} :
    lowestBit w = none ↔ ∀ i < 32, w.getLsbD i = false := by
  rw [lowestBit, List.find?_range_eq_none]
  simp

/-- A row of words. -/
structure Words where
  word : ℕ → BitVec 32

namespace Words

variable (b : Words) {i j n : ℕ}

/-- Bit `i` of the row. -/
def bit (i : ℕ) : Bool := (b.word (i / 32)).getLsbD (i % 32)

/-- All bits are zero. -/
def zero : Words := ⟨fun _ => 0#32⟩

/-- Bit `i` is set. -/
def setBit (i : ℕ) : Words :=
  ⟨Function.update b.word (i / 32) (b.word (i / 32) ||| 1#32 <<< (i % 32))⟩

/-- Bit `i` is cleared. -/
def clearBit (i : ℕ) : Words :=
  ⟨Function.update b.word (i / 32) (b.word (i / 32) &&& ~~~(1#32 <<< (i % 32)))⟩

/-- The bit of a word that is one bit. -/
theorem getLsbD_one_shiftLeft (hi : i < 32) : (1#32 <<< i).getLsbD j = decide (j = i) := by
  rw [BitVec.getLsbD_shiftLeft, BitVec.getLsbD_one, Bool.eq_iff_iff]
  simp only [Bool.and_eq_true, Bool.not_eq_true', decide_eq_true_eq, decide_eq_false_iff_not]
  omega

/-- Two bits of one word differ within it. -/
theorem eq_iff_of_div_eq (h : j / 32 = i / 32) : j % 32 = i % 32 ↔ j = i := by
  omega

/-- **One bit is set**, and no other changes. -/
theorem bit_setBit : (b.setBit i).bit j = (decide (j = i) || b.bit j) := by
  rw [bit, bit, setBit]
  dsimp only
  by_cases hw : j / 32 = i / 32
  · rw [hw, Function.update_self, BitVec.getLsbD_or,
      getLsbD_one_shiftLeft (Nat.mod_lt _ (by decide)),
      decide_eq_decide.mpr (eq_iff_of_div_eq hw), Bool.or_comm]
  · rw [Function.update_of_ne hw, decide_eq_false (fun h : j = i => hw (congrArg (· / 32) h)),
      Bool.false_or]

/-- **One bit is cleared**, and no other changes. -/
theorem bit_clearBit : (b.clearBit i).bit j = (!decide (j = i) && b.bit j) := by
  rw [bit, bit, clearBit]
  dsimp only
  by_cases hw : j / 32 = i / 32
  · rw [hw, Function.update_self, BitVec.getLsbD_and, BitVec.getLsbD_not,
      getLsbD_one_shiftLeft (Nat.mod_lt _ (by decide)),
      decide_eq_decide.mpr (eq_iff_of_div_eq hw), Bool.and_comm,
      decide_eq_true (Nat.mod_lt j (by decide : 0 < 32)), Bool.true_and]
  · rw [Function.update_of_ne hw, decide_eq_false (fun h : j = i => hw (congrArg (· / 32) h)),
      Bool.not_false, Bool.true_and]

/-! ### The first bit that is not set -/

/-- The search, with `n` words to go, from word `i` on; at the end of the row it says so. -/
def firstZeroFrom : ℕ → ℕ → ℕ
  | 0, i => 32 * i
  | n + 1, i =>
    match lowestBit (~~~b.word i) with
    | some d => 32 * i + d
    | none => firstZeroFrom n (i + 1)

/-- **The first bit that is not set** in the first `n` words. -/
def firstZero (n : ℕ) : ℕ := b.firstZeroFrom n 0

/-- **A search finds the first bit that is not set**, if all before its start are set. -/
theorem firstZeroFrom_spec (n i : ℕ) (h : ∀ k < 32 * i, b.bit k = true) :
    b.firstZeroFrom n i ≤ 32 * (i + n) ∧ (∀ k < b.firstZeroFrom n i, b.bit k = true) ∧
      (b.firstZeroFrom n i < 32 * (i + n) → b.bit (b.firstZeroFrom n i) = false) := by
  induction n generalizing i with
  | zero => exact ⟨le_rfl, h, fun hlt => absurd hlt (lt_irrefl _)⟩
  | succ n ih =>
    rw [firstZeroFrom]
    -- the bits of word `i`, where it is complemented
    have hword : ∀ k, 32 * i ≤ k → k < 32 * i + 32 →
        (~~~b.word i).getLsbD (k - 32 * i) = !b.bit k := by
      intro k hk hk'
      have hdiv : k / 32 = i := by omega
      have hmod : k % 32 = k - 32 * i := by omega
      rw [bit, hdiv, hmod, BitVec.getLsbD_not, decide_eq_true (by omega : k - 32 * i < 32),
        Bool.true_and]
    cases hl : lowestBit (~~~b.word i) with
    | some d =>
      obtain ⟨hd, hlt, hbelow⟩ := lowestBit_eq_some.mp hl
      dsimp only
      refine ⟨by omega, fun k hk => ?_, fun _ => ?_⟩
      · rcases Nat.lt_or_ge k (32 * i) with hki | hki
        · exact h k hki
        · have hb := hbelow (k - 32 * i) (by omega)
          rw [hword k hki (by omega)] at hb
          simpa using hb
      · have hb := hword (32 * i + d) (by omega) (by omega)
        rw [Nat.add_sub_cancel_left, hd] at hb
        simpa using hb.symm
    | none =>
      have hfull := lowestBit_eq_none.mp hl
      have hrest := ih (i + 1) fun k hk => by
        rcases Nat.lt_or_ge k (32 * i) with hki | hki
        · exact h k hki
        · have hb := hfull (k - 32 * i) (by omega)
          rw [hword k hki (by omega)] at hb
          simpa using hb
      rwa [show i + (n + 1) = i + 1 + n by omega]

theorem firstZero_spec (n : ℕ) : b.firstZero n ≤ 32 * n ∧
    (∀ k < b.firstZero n, b.bit k = true) ∧
      (b.firstZero n < 32 * n → b.bit (b.firstZero n) = false) := by
  have h := b.firstZeroFrom_spec n 0 fun k hk => absurd hk (by omega)
  rwa [Nat.zero_add] at h

end Words

end Linux011

import Mathlib.Data.BitVec
import Mathlib.Tactic.Common

/-!
# Counters of a fixed width

A loop `while (a < b--)` over signed counters of `w` bits. What it does is known from the two
counters (`Linux011.padDown_eq`): nothing, or one round for each step from `b` down to `a`; it takes
one from `b` once more than it goes round. A counter that comes from a difference is that difference
in a window of `2 ^ w` values, and `Linux011.toInt_ofInt_eq` and `Linux011.toInt_ofInt_wrap` say
which.
-/

namespace Linux011

variable {α : Type} {w : ℕ}

/-! ### Differences -/

/-- A difference of integers, as a counter. -/
theorem ofInt_sub (x y : ℤ) : BitVec.ofInt w (x - y) = BitVec.ofInt w x - BitVec.ofInt w y := by
  rw [Int.sub_eq_add_neg, BitVec.ofInt_add, BitVec.ofInt_neg, BitVec.sub_eq_add_neg]

/-- Inside the window, a difference is itself. -/
theorem toInt_ofInt_eq {n : ℤ} (h : -2 ^ 31 ≤ n) (h' : n < 2 ^ 31) :
    (BitVec.ofInt 32 n).toInt = n :=
  BitVec.toInt_ofInt_eq_self (by omega) h h'

/-- Below the window, it comes back from above. -/
theorem toInt_ofInt_wrap {n : ℤ} (h : -2 ^ 32 - 2 ^ 31 ≤ n) (h' : n < -2 ^ 31) :
    (BitVec.ofInt 32 n).toInt = n + 2 ^ 32 := by
  have hadd : (BitVec.ofInt 32 n).toInt = (BitVec.ofInt 32 (n + 2 ^ 32)).toInt := by
    rw [BitVec.toInt_ofInt, BitVec.toInt_ofInt]
    exact (@Int.add_bmod_right n (2 ^ 32)).symm
  rw [hadd]
  exact toInt_ofInt_eq (by omega) (by omega)

/-- A counter above another one has something to be taken. -/
theorem toInt_sub_one {a b : BitVec w} (h : a.toInt < b.toInt) : (b - 1).toInt = b.toInt - 1 := by
  have ha := a.le_toInt
  have hb := b.toInt_lt
  have hw : 0 < w := by
    rcases Nat.eq_zero_or_pos w with rfl | hw
    · rw [Subsingleton.elim a b] at h
      omega
    · exact hw
  have hone : b - 1 = BitVec.ofInt w (b.toInt - 1) := by
    rw [ofInt_sub, BitVec.ofInt_toInt]
    rfl
  rw [hone]
  exact BitVec.toInt_ofInt_eq_self hw (by omega) (by omega)

/-! ### The loop -/

/-- **`while (a < b--) *str++ = c;`**: what is written, and `b` after it. -/
def padDown (a b : BitVec w) (c : α) : List α × BitVec w :=
  if a.toInt < b.toInt then
    let rest := padDown a (b - 1) c
    (c :: rest.1, rest.2)
  else ([], b - 1)
termination_by (b.toInt - a.toInt).toNat
decreasing_by
  rename_i h
  rw [toInt_sub_one h]
  omega

variable {a b : BitVec w} {c : α}

/-- **The loop**: one round for each step from `b` down to `a`. -/
theorem padDown_eq (a b : BitVec w) (c : α) :
    padDown a b c = (List.replicate (b.toInt - a.toInt).toNat c,
      (if a.toInt < b.toInt then a else b) - 1) := by
  fun_induction padDown a b c with
  | case1 b h rest ih =>
    have hnext := toInt_sub_one h
    have hlen : (b.toInt - a.toInt).toNat = ((b - 1).toInt - a.toInt).toNat + 1 := by omega
    have hlast : (if a.toInt < (b - 1).toInt then a else b - 1) = a := by
      rcases eq_or_ne (b - 1).toInt a.toInt with heq | hne
      · rw [if_neg (by omega)]
        exact BitVec.eq_of_toInt_eq heq
      · exact if_pos (by omega)
    rw [show rest = _ from ih, hlen, List.replicate_succ, hlast, if_pos h]
  | case2 b h =>
    have hlen : (b.toInt - a.toInt).toNat = 0 := by omega
    rw [hlen, if_neg h]
    rfl

/-! ### The loop that counts first -/

/-- **`while (--b > 0) *str++ = c;`**: what is written, and `b` after it. -/
def padFirst (b : BitVec w) (c : α) : List α × BitVec w :=
  if 0 < (b - 1).toInt then
    let rest := padFirst (b - 1) c
    (c :: rest.1, rest.2)
  else ([], b - 1)
termination_by (b - 1).toInt.toNat
decreasing_by
  rename_i h
  have hpos : (0#w).toInt < (b - 1).toInt := by rwa [BitVec.toInt_zero]
  rw [toInt_sub_one hpos]
  omega

end Linux011

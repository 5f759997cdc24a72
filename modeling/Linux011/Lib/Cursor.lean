import Mathlib.Data.List.Basic
import Mathlib.Tactic.Common

/-!
# Places in a text

A text that a terminator ends is read at a place; what lies behind the terminator is not to be read
(`Linux011.charAt`). A place is known by what is left of the text there (`Linux011.Stands`), and a
scanner goes from one place to the next by what it takes off that.
-/

namespace Linux011

variable {α : Type} {z c : α} {text rest pre : List α} {i j : ℕ}

/-- **What is read at a place**: at the end the terminator, behind it nothing. -/
def charAt (z : α) (text : List α) (i : ℕ) : Option α :=
  if i = text.length then some z else text[i]?

/-- **The place before what is left.** -/
structure Stands (text : List α) (i : ℕ) (rest : List α) : Prop where
  le : i ≤ text.length
  drop : text.drop i = rest

namespace Stands

theorem start : Stands text 0 text := ⟨Nat.zero_le _, rfl⟩

theorem length (h : Stands text i rest) : i + rest.length = text.length := by
  have hle := h.le
  rw [← h.drop, List.length_drop]
  omega

/-- The first character of what is left is read, or the terminator. -/
theorem charAt (h : Stands text i rest) : charAt z text i = some (rest.headD z) := by
  have hlen := h.length
  rw [Linux011.charAt]
  rcases rest with _ | ⟨c, rest⟩
  · rw [List.length_nil, Nat.add_zero] at hlen
    rw [if_pos hlen]
    rfl
  · rw [List.length_cons] at hlen
    have hget : (text.drop i)[0]? = some c := by
      rw [h.drop]
      rfl
    rw [List.getElem?_drop, Nat.add_zero] at hget
    rw [if_neg (by omega), hget]
    rfl

/-- Behind what has been taken off. -/
theorem skip (h : Stands text i (pre ++ rest)) : Stands text (i + pre.length) rest := by
  have hlen := h.length
  rw [List.length_append] at hlen
  refine ⟨by omega, ?_⟩
  rw [← List.drop_drop, h.drop, List.drop_left]

theorem next (h : Stands text i (c :: rest)) : Stands text (i + 1) rest :=
  @skip _ text rest [c] i h

/-- What has been taken off between two places. -/
theorem between (h : Stands text i (pre ++ rest)) (h' : Stands text j rest) :
    (text.drop i).take (j - i) = pre := by
  have hlen := h.length
  have hlen' := h'.length
  rw [List.length_append] at hlen
  rw [show j - i = pre.length by omega, h.drop, List.take_left]

end Stands

end Linux011

import Mathlib.Algebra.BigOperators.Group.Finset.Basic
import Mathlib.Data.Finset.Card
import Mathlib.Logic.Function.Basic

/-!
# Counting references

A table `t : ι → Option κ` of cells, each either empty or naming one object, and
a finite set `I` of the cells that count. `Linux011.refs I t x` is the number of
cells that name `x`: the number a reference counter is supposed to hold.

Everything the counters of this development need is here, once: writing one cell
changes the count of the object it named and of the object it names now
(`Linux011.refs_update`), a count of zero says that nobody names the object
(`Linux011.refs_eq_zero_iff`), a count of one that the naming cell is unique
(`Linux011.eq_of_refs_eq_one`), and a count is at most the number of *places*
when cells in one place never name one object twice (`Linux011.refs_le_card`).
Where a cell may name an object several times, what the cells contribute is added up
(`Linux011.sum_update`).
-/

namespace Linux011

variable {ι κ γ : Type} [DecidableEq κ]

/-- **The number of cells of `I` that name `x`.** -/
def refs (I : Finset ι) (t : ι → Option κ) (x : κ) : ℕ := (I.filter fun i => t i = some x).card

variable {I : Finset ι} {t t' : ι → Option κ} {x : κ} {i i' : ι}

theorem refs_congr (h : ∀ i ∈ I, t i = t' i) (x : κ) : refs I t x = refs I t' x := by
  unfold refs
  refine congrArg Finset.card (Finset.filter_congr fun i hi => ?_)
  rw [h i hi]

theorem refs_eq_zero_iff : refs I t x = 0 ↔ ∀ i ∈ I, t i ≠ some x := by
  rw [refs, Finset.card_eq_zero, Finset.filter_eq_empty_iff]

theorem refs_pos_iff : 0 < refs I t x ↔ ∃ i ∈ I, t i = some x := by
  rw [refs, Finset.card_pos]
  exact ⟨fun ⟨i, hi⟩ => ⟨i, (Finset.mem_filter.mp hi).1, (Finset.mem_filter.mp hi).2⟩,
    fun ⟨i, hi, ht⟩ => ⟨i, Finset.mem_filter.mpr ⟨hi, ht⟩⟩⟩

theorem refs_pos (hi : i ∈ I) (ht : t i = some x) : 0 < refs I t x :=
  refs_pos_iff.mpr ⟨i, hi, ht⟩

/-- **A count of one names a unique cell.** -/
theorem eq_of_refs_eq_one (h : refs I t x = 1) (hi : i ∈ I) (ht : t i = some x) (hi' : i' ∈ I)
    (ht' : t i' = some x) : i = i' :=
  Finset.card_le_one.mp h.le i (Finset.mem_filter.mpr ⟨hi, ht⟩) i'
    (Finset.mem_filter.mpr ⟨hi', ht'⟩)

/-- A unique cell is counted once. -/
theorem refs_eq_one (hi : i ∈ I) (ht : t i = some x)
    (huniq : ∀ i' ∈ I, t i' = some x → i' = i) : refs I t x = 1 := by
  refine Finset.card_eq_one.mpr ⟨i, Finset.ext fun i' => ?_⟩
  rw [Finset.mem_filter, Finset.mem_singleton]
  exact ⟨fun h => huniq i' h.1 h.2, fun h => h ▸ ⟨hi, ht⟩⟩

/-- **A count is bounded by the number of places**, when two cells that name the
same object never share a place. -/
theorem refs_le_card (place : ι → γ) (P : Finset γ) (hplace : ∀ i ∈ I, t i = some x → place i ∈ P)
    (hinj : ∀ i ∈ I, ∀ i' ∈ I, t i = some x → t i' = some x → place i = place i' → i = i') :
    refs I t x ≤ P.card := by
  refine Finset.card_le_card_of_injOn place (fun i hi => ?_) fun i hi i' hi' he => ?_
  · have := Finset.mem_filter.mp hi
    exact hplace i this.1 this.2
  · have h := Finset.mem_filter.mp hi
    have h' := Finset.mem_filter.mp hi'
    exact hinj i h.1 i' h'.1 h.2 h'.2 he

variable [DecidableEq ι]

/-- **Writing one cell**: the object it named loses a reference, the object it
names now gains one. -/
theorem refs_update (hi : i ∈ I) (v : Option κ) (x : κ) :
    refs I (Function.update t i v) x + (if t i = some x then 1 else 0) =
      refs I t x + (if v = some x then 1 else 0) := by
  have hold : (I.filter fun j => t j = some x).card =
      ((I.erase i).filter fun j => t j = some x).card + (if t i = some x then 1 else 0) := by
    conv_lhs => rw [← Finset.insert_erase hi, Finset.filter_insert]
    by_cases h : t i = some x <;> simp [h]
  have hnew : (I.filter fun j => Function.update t i v j = some x).card =
      ((I.erase i).filter fun j => t j = some x).card + (if v = some x then 1 else 0) := by
    have hrest : ((I.erase i).filter fun j => Function.update t i v j = some x) =
        (I.erase i).filter fun j => t j = some x :=
      Finset.filter_congr fun j hj => by
        rw [Function.update_of_ne (Finset.ne_of_mem_erase hj)]
    conv_lhs => rw [← Finset.insert_erase hi, Finset.filter_insert, Function.update_self, hrest]
    by_cases h : v = some x <;> simp [h]
  unfold refs
  omega

/-- **Replacing one cell**: its contribution to a sum is exchanged. -/
theorem sum_update {α : Type} (I : Finset ι) (t : ι → α) (g : α → ℕ) (hi : i ∈ I) (v : α) :
    ∑ j ∈ I, g (Function.update t i v j) + g (t i) = ∑ j ∈ I, g (t j) + g v := by
  have hold := Finset.add_sum_erase I (fun j => g (t j)) hi
  have hnew := Finset.add_sum_erase I (fun j => g (Function.update t i v j)) hi
  have hrest : ∑ j ∈ I.erase i, g (Function.update t i v j) = ∑ j ∈ I.erase i, g (t j) :=
    Finset.sum_congr rfl fun j hj => by rw [Function.update_of_ne (Finset.ne_of_mem_erase hj)]
  simp only [Function.update_self] at hnew
  omega

end Linux011

import Mathlib.Data.List.Nodup
import Mathlib.Logic.Function.Basic

/-!
# Singly linked lists

Cells that hold a link to the next one, the last of them a null link. What the links
from a pointer lead through is a list of cells (`Linux011.Chain`). Linking a cell in behind another
(`Linux011.Chain.insertAfter`), in front of all (`Linux011.Chain.push`), and taking one
out (`Linux011.Chain.unlink`) do to that list what their names say, as long as no cell
is on it twice.
-/

namespace Linux011

variable {ι : Type}

/-- **The cells on a list**: from the pointer `p` the links lead through `l`, and end. -/
def Chain (next : ι → Option ι) : Option ι → List ι → Prop
  | p, [] => p = none
  | p, i :: l => p = some i ∧ Chain next (next i) l

namespace Chain

variable {next next' : ι → Option ι} {p : Option ι} {l l' : List ι} {a b : ι}

/-- Only the links of the cells on the list matter. -/
theorem congr (h : Chain next p l) (he : ∀ i ∈ l, next' i = next i) : Chain next' p l := by
  induction l generalizing p with
  | nil => exact h
  | cons i l ih =>
    refine ⟨h.1, ?_⟩
    rw [he i List.mem_cons_self]
    exact ih h.2 fun j hj => he j (List.mem_cons_of_mem i hj)

/-- The pointer leads to the first cell. -/
theorem head_eq (h : Chain next p l) : l.head? = p := by
  cases l with
  | nil => exact h.symm
  | cons i l => exact h.1.symm

/-- From a cell the links lead through the rest. -/
theorem rest (h : Chain next p (l ++ a :: l')) : Chain next (next a) l' := by
  induction l generalizing p with
  | nil => exact h.2
  | cons i l ih => exact ih h.2

/-- The link of a cell leads to the one behind it. -/
theorem next_eq (h : Chain next p (l ++ a :: l')) : next a = l'.head? := h.rest.head_eq.symm

/-! ### Searching a list -/

/-- **A search from a pointer on**, for at most so many rounds: the cell it stops at, or none at
the end of the list, and the one before it. -/
def search (next : ι → Option ι) (q : ι → Bool) : ℕ → Option ι → Option ι →
    Option (Option ι × Option ι)
  | 0, _, _ => none
  | _ + 1, prev, none => some (prev, none)
  | n + 1, prev, some i => if q i then some (prev, some i) else search next q n (some i) (next i)

variable {q : ι → Bool} {n : ℕ} {prev : Option ι}

/-- It finds nothing. -/
theorem search_none (h : Chain next p l) (hn : l.length < n) (hq : ∀ i ∈ l, q i = false) :
    ∃ r, search next q n prev p = some (r, none) := by
  induction l generalizing p n prev with
  | nil =>
    obtain ⟨n, rfl⟩ := Nat.exists_eq_succ_of_ne_zero (Nat.ne_of_gt hn)
    have hp : p = none := h
    rw [hp]
    exact ⟨prev, rfl⟩
  | cons i l ih =>
    obtain ⟨n, rfl⟩ := Nat.exists_eq_succ_of_ne_zero (Nat.ne_of_gt (Nat.zero_lt_of_lt hn))
    rw [h.1, search, if_neg (Bool.eq_false_iff.mp (hq i List.mem_cons_self))]
    exact ih h.2 (Nat.lt_of_succ_lt_succ hn) fun j hj => hq j (List.mem_cons_of_mem i hj)

/-- **It stops at the first cell that is looked for**, and knows the one before it. -/
theorem search_some (h : Chain next p (l ++ a :: l')) (hn : l.length < n)
    (hq : ∀ i ∈ l, q i = false) (ha : q a = true) :
    search next q n prev p = some (l.getLast?.or prev, some a) := by
  induction l generalizing p n prev with
  | nil =>
    obtain ⟨n, rfl⟩ := Nat.exists_eq_succ_of_ne_zero (Nat.ne_of_gt hn)
    rw [h.1, search, if_pos ha]
    rfl
  | cons i l ih =>
    obtain ⟨n, rfl⟩ := Nat.exists_eq_succ_of_ne_zero (Nat.ne_of_gt (Nat.zero_lt_of_lt hn))
    rw [h.1, search, if_neg (Bool.eq_false_iff.mp (hq i List.mem_cons_self)),
      ih h.2 (Nat.lt_of_succ_lt_succ hn) fun j hj => hq j (List.mem_cons_of_mem i hj)]
    refine congrArg (fun r => some (r, some a)) ?_
    cases l with
    | nil => rfl
    | cons j l =>
      rw [List.getLast?_cons_cons]
      rfl

/-- A list has a first element of a kind, or none. -/
theorem first_or_none (q : ι → Bool) (l : List ι) : (∀ i ∈ l, q i = false) ∨
    ∃ l₁ a l₂, l = l₁ ++ a :: l₂ ∧ q a = true ∧ ∀ i ∈ l₁, q i = false := by
  induction l with
  | nil => exact Or.inl fun _ hi => absurd hi List.not_mem_nil
  | cons b l ih =>
    by_cases hb : q b = true
    · exact Or.inr ⟨[], b, l, rfl, hb, fun _ hi => absurd hi List.not_mem_nil⟩
    · rw [Bool.not_eq_true] at hb
      rcases ih with hnone | ⟨l₁, a, l₂, rfl, ha, hl₁⟩
      · exact Or.inl (List.forall_mem_cons.mpr ⟨hb, hnone⟩)
      · exact Or.inr ⟨b :: l₁, a, l₂, rfl, ha, List.forall_mem_cons.mpr ⟨hb, hl₁⟩⟩

variable [DecidableEq ι]

/-- **A new first cell.** -/
theorem push (h : Chain next p l) (ha : a ∉ l) :
    Chain (Function.update next a p) (some a) (a :: l) := by
  refine ⟨rfl, ?_⟩
  rw [Function.update_self]
  exact h.congr fun i hi => Function.update_of_ne (ne_of_mem_of_not_mem hi ha) _ _

/-- The last cell of a list is where a new rest is hung in. -/
theorem relink (h : Chain next p (l ++ a :: l')) (hd : (l ++ [a]).Nodup) {q : Option ι}
    {l'' : List ι} (hq : Chain (Function.update next a q) q l'') :
    Chain (Function.update next a q) p (l ++ a :: l'') := by
  induction l generalizing p with
  | nil =>
    refine ⟨h.1, ?_⟩
    rw [Function.update_self]
    exact hq
  | cons i l ih =>
    have hi : i ∉ l ++ [a] := (List.nodup_cons.mp hd).1
    have hia : i ≠ a := by
      rintro rfl
      exact hi (List.mem_append_right l List.mem_cons_self)
    refine ⟨h.1, ?_⟩
    rw [Function.update_of_ne hia]
    exact ih h.2 (List.nodup_cons.mp hd).2

/-- **A cell is linked in behind another.** -/
theorem insertAfter (h : Chain next p (l ++ a :: l')) (hd : (l ++ a :: l').Nodup)
    (hb : b ∉ l ++ a :: l') :
    Chain (Function.update (Function.update next b (next a)) a (some b)) p
      (l ++ a :: b :: l') := by
  have hba : b ≠ a := by
    rintro rfl
    exact hb (List.mem_append_right l List.mem_cons_self)
  have hbl' : b ∉ l' := fun hm => hb (List.mem_append_right l (List.mem_cons_of_mem a hm))
  have hal' : a ∉ l' := (List.nodup_cons.mp (List.nodup_append.mp hd).2.1).1
  have hcongr : Chain (Function.update next b (next a)) p (l ++ a :: l') :=
    h.congr fun i hi => Function.update_of_ne (ne_of_mem_of_not_mem hi hb) _ _
  have hla : (l ++ [a]).Nodup := by
    refine List.Sublist.nodup ?_ hd
    exact List.Sublist.append_left (List.cons_sublist_cons.mpr (List.nil_sublist l')) l
  refine hcongr.relink hla ⟨rfl, ?_⟩
  rw [Function.update_of_ne hba, Function.update_self]
  refine h.rest.congr fun i hi => ?_
  rw [Function.update_of_ne (ne_of_mem_of_not_mem hi hal'),
    Function.update_of_ne (ne_of_mem_of_not_mem hi hbl')]

/-- **The cell behind another is taken out.** -/
theorem unlink (h : Chain next p (l ++ a :: b :: l')) (hd : (l ++ a :: b :: l').Nodup) :
    Chain (Function.update next a (next b)) p (l ++ a :: l') := by
  have hab : a ∉ b :: l' := (List.nodup_cons.mp (List.nodup_append.mp hd).2.1).1
  have hla : (l ++ [a]).Nodup := by
    refine List.Sublist.nodup ?_ hd
    exact List.Sublist.append_left (List.cons_sublist_cons.mpr (List.nil_sublist _)) l
  refine h.relink hla ?_
  exact h.rest.2.congr fun i hi =>
    Function.update_of_ne (ne_of_mem_of_not_mem (List.mem_cons_of_mem b hi) hab) _ _

/-- Cells at equal distances, each linked to the next. -/
theorem of_range' {next : ℕ → Option ℕ} {b d n : ℕ}
    (h : ∀ k < n, next (b + d * k) = some (b + d * (k + 1))) (hlast : next (b + d * n) = none) :
    Chain next (some b) (List.range' b (n + 1) d) := by
  induction n generalizing b with
  | zero => exact ⟨rfl, hlast⟩
  | succ n ih =>
    have hshift : ∀ k, b + d + d * k = b + d * (k + 1) := fun k => by
      rw [Nat.mul_succ]
      omega
    have hfirst : next b = some (b + d) := by
      have hzero := h 0 (Nat.succ_pos n)
      rwa [Nat.mul_zero, Nat.zero_add, Nat.mul_one] at hzero
    rw [List.range'_succ]
    refine ⟨rfl, ?_⟩
    rw [hfirst]
    refine ih (fun k hk => ?_) ?_
    · rw [hshift, hshift]
      exact h (k + 1) (Nat.succ_lt_succ hk)
    · rw [hshift]
      exact hlast

end Chain

end Linux011

import Mathlib.Data.List.Nodup

/-!
# Ascending sweeps

A disk arm serves its requests in sweeps: up through the disk, back to the lowest one
that waits, and up again. A list is a number of ascending sweeps, one more than there
are places where it descends (`Linux011.descents`). `Linux011.place` is the insertion
that keeps the number of sweeps at two: behind the first element where the new one fits
into a sweep, or in front of the second sweep, or at the end.

The order is any Boolean relation; all that is asked of it is that it decides between
the new element and each of the others.
-/

namespace Linux011

variable {α : Type} (r : α → α → Bool)

/-- **The adjacent pairs that are not in order.** -/
def descents : List α → ℕ
  | a :: b :: l => (if r a b then 0 else 1) + descents (b :: l)
  | _ => 0

/-- **The insertion of an elevator**: never in front of the first element. -/
def place (x : α) : List α → List α
  | [] => [x]
  | [a] => [a, x]
  | a :: b :: l =>
    if (r a x || !r a b) && r x b then a :: x :: b :: l else a :: place x (b :: l)

variable {r} {x a b : α} {l : List α}

/-- **What is inserted goes in one place**, behind the first element. -/
theorem place_eq (x : α) (l : List α) : ∃ l₁ l₂, l = l₁ ++ l₂ ∧ place r x l = l₁ ++ x :: l₂ ∧
    (l ≠ [] → l₁ ≠ []) := by
  induction l with
  | nil => exact ⟨[], [], rfl, rfl, fun h => absurd rfl h⟩
  | cons a l ih =>
    cases l with
    | nil => exact ⟨[a], [], rfl, rfl, fun _ => List.cons_ne_nil a []⟩
    | cons b l =>
      rw [place]
      split
      · exact ⟨[a], b :: l, rfl, rfl, fun _ => List.cons_ne_nil a []⟩
      · obtain ⟨l₁, l₂, hl, hp, -⟩ := ih
        refine ⟨a :: l₁, l₂, ?_, ?_, fun _ => List.cons_ne_nil a l₁⟩
        · rw [hl, List.cons_append]
        · rw [hp, List.cons_append]

theorem place_perm (x : α) (l : List α) : (place r x l).Perm (x :: l) := by
  obtain ⟨l₁, l₂, rfl, hp, -⟩ := place_eq (r := r) x l
  rw [hp]
  exact List.perm_middle

/-- The first element stays first. -/
theorem place_cons (x a : α) (l : List α) : ∃ l', place r x (a :: l) = a :: l' := by
  cases l with
  | nil => exact ⟨[x], rfl⟩
  | cons b l =>
    rw [place]
    split
    · exact ⟨x :: b :: l, rfl⟩
    · exact ⟨place r x (b :: l), rfl⟩

theorem descents_place_cons (x a b : α) (l : List α) :
    descents r (a :: place r x (b :: l)) =
      (if r a b then 0 else 1) + descents r (place r x (b :: l)) := by
  obtain ⟨l', hl'⟩ := place_cons (r := r) x b l
  rw [hl', descents]

theorem descents_tail_le (a : α) (l : List α) : descents r l ≤ descents r (a :: l) := by
  cases l with
  | nil => exact Nat.zero_le _
  | cons b l => exact Nat.le_add_left _ _

/-- The order matters only for what is on the list. -/
theorem descents_congr {r' : α → α → Bool} (h : ∀ a ∈ l, ∀ b ∈ l, r' a b = r a b) :
    descents r' l = descents r l := by
  induction l with
  | nil => rfl
  | cons a l ih =>
    have ih' := ih fun c hc d hd =>
      h c (List.mem_cons_of_mem a hc) d (List.mem_cons_of_mem a hd)
    cases l with
    | nil => rfl
    | cons b l =>
      rw [descents, descents, ih', h a List.mem_cons_self b
        (List.mem_cons_of_mem a List.mem_cons_self)]

/-- Into one sweep, above its first element: there is still one sweep. -/
theorem descents_place_of_lt (htot : ∀ c ∈ a :: l, r x c = false → r c x = true)
    (h : descents r (a :: l) = 0) (ha : r a x = true) : descents r (place r x (a :: l)) = 0 := by
  induction l generalizing a with
  | nil => simp [place, descents, ha]
  | cons b l ih =>
    rw [descents] at h
    have hab : r a b = true := by
      by_contra hn
      simp [hn] at h
    have hl : descents r (b :: l) = 0 := by omega
    cases hxb : r x b with
    | true => simp [place, descents, ha, hxb, hl]
    | false =>
      have hbx : r b x = true := htot b (List.mem_cons_of_mem a List.mem_cons_self) hxb
      have hplace : place r x (a :: b :: l) = a :: place r x (b :: l) := by
        rw [place, hxb, Bool.and_false]
        rfl
      rw [hplace, descents_place_cons, if_pos hab, Nat.zero_add]
      exact ih (fun c hc => htot c (List.mem_cons_of_mem a hc)) hl hbx

/-- Into one sweep: there are at most two. -/
theorem descents_place_of_zero (htot : ∀ c ∈ l, r x c = false → r c x = true)
    (h : descents r l = 0) : descents r (place r x l) ≤ 1 := by
  induction l with
  | nil => exact Nat.zero_le 1
  | cons a l ih =>
    cases hax : r a x with
    | true =>
      rw [descents_place_of_lt htot h hax]
      exact Nat.zero_le 1
    | false =>
      cases l with
      | nil => simp [place, descents, hax]
      | cons b l =>
        rw [descents] at h
        have hab : r a b = true := by
          by_contra hn
          simp [hn] at h
        have hplace : place r x (a :: b :: l) = a :: place r x (b :: l) := by
          simp [place, hax, hab]
        rw [hplace, descents_place_cons, if_pos hab, Nat.zero_add]
        exact ih (fun c hc => htot c (List.mem_cons_of_mem a hc)) (by omega)

/-- **Two sweeps stay two.** -/
theorem descents_place_le (htot : ∀ c ∈ l, r x c = false → r c x = true)
    (h : descents r l ≤ 1) : descents r (place r x l) ≤ 1 := by
  induction l with
  | nil => exact Nat.zero_le 1
  | cons a l ih =>
    have htot' : ∀ c ∈ l, r x c = false → r c x = true := fun c hc =>
      htot c (List.mem_cons_of_mem a hc)
    cases l with
    | nil => exact descents_place_of_zero htot rfl
    | cons b l =>
      rw [descents] at h
      rw [place]
      split
      · next hin =>
        -- between `a` and `b`: at worst the pair that was not in order is one place lower
        obtain ⟨hor, hxb⟩ := Bool.and_eq_true_iff.mp hin
        rw [descents, descents, if_pos hxb, Nat.zero_add]
        cases hax : r a x with
        | true =>
          have : descents r (b :: l) ≤ 1 := by omega
          simpa using this
        | false =>
          have hab : r a b = false := by simpa [hax] using hor
          simp only [hab, Bool.false_eq_true, if_false] at h ⊢
          omega
      · next hout =>
        rw [descents_place_cons]
        cases hab : r a b with
        | true =>
          rw [hab, if_pos rfl, Nat.zero_add] at h
          rw [if_pos rfl, Nat.zero_add]
          exact ih htot' h
        | false =>
          -- the second sweep begins with `b`, which is below the new element
          have hxb : r x b = false := by
            simpa [hab] using hout
          have hl : descents r (b :: l) = 0 := by
            rw [hab] at h
            simp only [Bool.false_eq_true, if_false] at h
            omega
          have hbx : r b x = true := htot' b List.mem_cons_self hxb
          rw [descents_place_of_lt htot' hl hbx]
          simp

end Linux011

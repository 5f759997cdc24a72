import Mathlib.Data.Nat.Basic
import Mathlib.Order.Basic

/-!
# Weakest preconditions for code with a state and a way out

Kernel code is written below as programs of `EStateM ε σ`: they read and write a
state `σ`, return a value, and may leave through an exception `ε` – a panic, or
the death of the running task – which keeps the state reached so far. This file
is the calculus the programs are verified with, and it names nothing of any
kernel.

`Linux011.wp m Q E s` says that `m`, started in `s`, either returns with `Q` of
its value and final state, or leaves with `E` of the exception and the state it
left behind. One rule per construct turns a goal about a program into a goal
about its parts (`Linux011.wp_bind`, `Linux011.wp_ite`, …); the two loop rules,
`Linux011.wp_forFrom` and `Linux011.wp_forUntil`, ask for an invariant indexed by
the loop counter.
-/

namespace Linux011

variable {ε σ α β : Type}

/-! ### Runs -/

section

variable {m : EStateM ε σ α} {f : α → EStateM ε σ β} {s s' : σ}

/-- What comes after code that has returned. -/
theorem bind_ok {a : α} (h : m s = .ok a s') : (m >>= f) s = f a s' := by
  change EStateM.bind m f s = _
  rw [EStateM.bind, h]

/-- What comes after code that has stopped. -/
theorem bind_error {e : ε} (h : m s = .error e s') : (m >>= f) s = .error e s' := by
  change EStateM.bind m f s = _
  rw [EStateM.bind, h]

theorem get_bind {f : σ → EStateM ε σ β} : (get >>= f) s = f s s := rfl

theorem modify_bind {g : σ → σ} {f : PUnit → EStateM ε σ β} :
    (modify g >>= f) s = f .unit (g s) := rfl

theorem set_run (t s : σ) : (set t : EStateM ε σ PUnit) s = .ok .unit t := rfl

end

/-! ### The judgement and its rules -/

/-- **The weakest precondition**: what has to hold of `s` so that `m` returns
with `Q`, or leaves with `E`. -/
def wp (m : EStateM ε σ α) (Q : α → σ → Prop) (E : ε → σ → Prop) (s : σ) : Prop :=
  match m s with
  | .ok a s' => Q a s'
  | .error e s' => E e s'

variable {m : EStateM ε σ α} {f : α → EStateM ε σ β} {Q Q' : α → σ → Prop} {E E' : ε → σ → Prop}
  {s s' : σ}

theorem wp_pure (a : α) : wp (pure a : EStateM ε σ α) Q E s ↔ Q a s := Iff.rfl

theorem wp_get {Q : σ → σ → Prop} : wp (get : EStateM ε σ σ) Q E s ↔ Q s s := Iff.rfl

theorem wp_set {Q : PUnit → σ → Prop} (t : σ) : wp (set t : EStateM ε σ PUnit) Q E s ↔ Q ⟨⟩ t :=
  Iff.rfl

theorem wp_modify {Q : PUnit → σ → Prop} (g : σ → σ) :
    wp (modify g : EStateM ε σ PUnit) Q E s ↔ Q ⟨⟩ (g s) := Iff.rfl

theorem wp_throw (e : ε) : wp (throw e : EStateM ε σ α) Q E s ↔ E e s := Iff.rfl

theorem wp_bind {Q : β → σ → Prop} :
    wp (m >>= f) Q E s ↔ wp m (fun a s' => wp (f a) Q E s') E s := by
  change wp (EStateM.bind m f) Q E s ↔ _
  unfold wp EStateM.bind
  cases m s <;> rfl

theorem wp_ite {c : Prop} [Decidable c] {m₁ m₂ : EStateM ε σ α} :
    wp (if c then m₁ else m₂) Q E s ↔ (c → wp m₁ Q E s) ∧ (¬c → wp m₂ Q E s) := by
  by_cases hc : c <;> simp [hc]

/-- **Consequence**: both postconditions may be weakened. -/
theorem wp_mono (h : wp m Q E s) (hQ : ∀ a s', Q a s' → Q' a s')
    (hE : ∀ e s', E e s' → E' e s') : wp m Q' E' s := by
  unfold wp at h ⊢
  cases hm : m s with
  | ok a s' => rw [hm] at h; exact hQ a s' h
  | error e s' => rw [hm] at h; exact hE e s' h

/-- Consequence, where the two ways out agree. -/
theorem wp_post (h : wp m Q E s) (hQ : ∀ a s', Q a s' → Q' a s') : wp m Q' E s :=
  wp_mono h hQ fun _ _ he => he

/-- Two facts about one program hold together. -/
theorem wp_and (h : wp m Q E s) (h' : wp m Q' E' s) :
    wp m (fun a s' => Q a s' ∧ Q' a s') (fun e s' => E e s' ∧ E' e s') s := by
  unfold wp at h h' ⊢
  cases hm : m s <;> rw [hm] at h h' <;> exact ⟨h, h'⟩

/-- What a verified program returns. -/
theorem wp_ok {a : α} (h : wp m Q E s) (hm : m s = .ok a s') : Q a s' := by
  unfold wp at h
  rw [hm] at h
  exact h

/-- What a verified program leaves behind. -/
theorem wp_error {e : ε} (h : wp m Q E s) (hm : m s = .error e s') : E e s' := by
  unfold wp at h
  rw [hm] at h
  exact h

/-- Code that throws nothing returns. -/
theorem wp_returns (h : wp m Q (fun _ _ => False) s) : ∃ a s', m s = .ok a s' ∧ Q a s' := by
  cases hs : m s with
  | ok a s' => exact ⟨a, s', rfl, wp_ok h hs⟩
  | error e s' => exact (wp_error h hs).elim

/-- The judgement, read off the result. -/
theorem wp_of_ok {a : α} (hm : m s = .ok a s') (h : Q a s') : wp m Q E s := by
  unfold wp
  rw [hm]
  exact h

/-- The judgement about code that is known to return. -/
theorem wp_iff_of_ok {a : α} (hm : m s = .ok a s') : wp m Q E s ↔ Q a s' := by
  unfold wp
  rw [hm]

/-- The judgement about code that is known to leave. -/
theorem wp_iff_of_error {e : ε} (hm : m s = .error e s') : wp m Q E s ↔ E e s' := by
  unfold wp
  rw [hm]

/-- Code returns what the judgement says, and nothing else. -/
theorem ok_of_wp {a : α} (h : wp m (fun b t => b = a ∧ t = s') (fun _ _ => False) s) :
    m s = .ok a s' := by
  obtain ⟨b, t, hm, rfl, rfl⟩ := wp_returns h
  exact hm

/-! ### Loops -/

/-- `for (i = start; i < start + n; i++) body(i)`. -/
def forFrom (start : ℕ) : ℕ → (ℕ → EStateM ε σ PUnit) → EStateM ε σ PUnit
  | 0, _ => pure ⟨⟩
  | n + 1, body => do
    body start
    forFrom (start + 1) n body

/-- The same loop with a body that may stop it: `some b` is a `return b` from
inside the loop. -/
def forUntil (start : ℕ) : ℕ → (ℕ → EStateM ε σ (Option β)) → EStateM ε σ (Option β)
  | 0, _ => pure none
  | n + 1, body => do
    match ← body start with
    | some b => pure (some b)
    | none => forUntil (start + 1) n body

/-- **The loop rule**: an invariant `I i` that holds on entry to the `i`-th round
and is carried to `i + 1` by the body holds, at the end, of the bound. -/
theorem wp_forFrom (I : ℕ → σ → Prop) {body : ℕ → EStateM ε σ PUnit} {start n : ℕ}
    (h0 : I start s)
    (hstep : ∀ i s, start ≤ i → i < start + n → I i s → wp (body i) (fun _ => I (i + 1)) E s) :
    wp (forFrom start n body) (fun _ => I (start + n)) E s := by
  induction n generalizing start s with
  | zero => exact h0
  | succ n ih =>
    rw [forFrom, wp_bind]
    refine wp_post (hstep start s le_rfl (by omega) h0) fun _ s' hs' => ?_
    have := ih hs' fun i t hi hlt => hstep i t (by omega) (by omega)
    rwa [show start + 1 + n = start + (n + 1) by omega] at this

/-- **The loop rule for a loop that may stop**: the invariant, and a condition
`J` that holds wherever the body stops the loop. -/
theorem wp_forUntil (I : ℕ → σ → Prop) (J : β → σ → Prop) {body : ℕ → EStateM ε σ (Option β)}
    {start n : ℕ} (h0 : I start s)
    (hstep : ∀ i s, start ≤ i → i < start + n → I i s →
      wp (body i) (fun r s' => match r with | none => I (i + 1) s' | some b => J b s') E s) :
    wp (forUntil start n body)
      (fun r s' => match r with | none => I (start + n) s' | some b => J b s') E s := by
  induction n generalizing start s with
  | zero => exact h0
  | succ n ih =>
    rw [forUntil, wp_bind]
    refine wp_post (hstep start s le_rfl (by omega) h0) fun r s' hs' => ?_
    cases r with
    | some b => exact hs'
    | none =>
      have := ih hs' fun i t hi hlt => hstep i t (by omega) (by omega)
      rwa [show start + 1 + n = start + (n + 1) by omega] at this

/-! ### Programs that keep a property -/

/-- **A program keeps `I`**, however it ends. -/
def Preserves (I : σ → Prop) (m : EStateM ε σ α) : Prop :=
  ∀ s, I s → wp m (fun _ => I) (fun _ => I) s

namespace Preserves

variable {I : σ → Prop}

theorem pure (a : α) : Preserves I (pure a : EStateM ε σ α) := fun _ hs => hs

theorem throw (e : ε) : Preserves I (throw e : EStateM ε σ α) := fun _ hs => hs

theorem modify {g : σ → σ} (h : ∀ s, I s → I (g s)) :
    Preserves I (modify g : EStateM ε σ PUnit) := h

theorem bind (hm : Preserves I m) (hf : ∀ a, Preserves I (f a)) : Preserves I (m >>= f) :=
  fun s hs => wp_bind.mpr (wp_post (hm s hs) fun a s' hs' => hf a s' hs')

/-- A program that reads the state first may use what it has read. -/
theorem read {f : σ → EStateM ε σ α} (h : ∀ s, I s → wp (f s) (fun _ => I) (fun _ => I) s) :
    Preserves I (get >>= f) := fun s hs => wp_bind.mpr (h s hs)

theorem ite {c : Prop} [Decidable c] {m₁ m₂ : EStateM ε σ α} (h₁ : Preserves I m₁)
    (h₂ : Preserves I m₂) : Preserves I (if c then m₁ else m₂) := by
  split
  · exact h₁
  · exact h₂

theorem forFrom {body : ℕ → EStateM ε σ PUnit} (h : ∀ i, Preserves I (body i)) (start n : ℕ) :
    Preserves I (forFrom start n body) := fun _ hs =>
  wp_forFrom (fun _ => I) hs fun i s _ _ hs => h i s hs

theorem forUntil {body : ℕ → EStateM ε σ (Option β)} (h : ∀ i, Preserves I (body i))
    (start n : ℕ) : Preserves I (forUntil start n body) := fun s hs => by
  refine wp_post (wp_forUntil (fun _ => I) (fun _ => I) hs fun i s _ _ hs => ?_) ?_
  · exact wp_post (h i s hs) fun r s' hs' => by cases r <;> exact hs'
  · intro r s' hs'
    cases r <;> exact hs'

end Preserves

end Linux011

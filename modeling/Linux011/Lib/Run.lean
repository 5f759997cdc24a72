import Linux011.Lib.Wp
import Mathlib.Logic.Relation

/-!
# Runs

A system is given by the states it may start in and a step relation; a state is
reachable when some run leads to it. Two rules are all a safety proof needs: a
property that holds at the start and is kept by every step holds of every
reachable state (`Linux011.Reachable.inv`), and the reachable states of a system
with fewer steps are reachable (`Linux011.Reachable.mono`).

The steps of the systems of this development run code.
`Linux011.onPart` runs code of a part of the state inside the whole.
-/

namespace Linux011

variable {σ τ ε α : Type}

/-! ### Reachable states -/

/-- **The states some run leads to.** -/
def Reachable (init : σ → Prop) (step : σ → σ → Prop) (s : σ) : Prop :=
  ∃ s₀, init s₀ ∧ Relation.ReflTransGen step s₀ s

namespace Reachable

variable {init : σ → Prop} {step step' : σ → σ → Prop} {I : σ → Prop} {s s' : σ}

theorem start (h : init s) : Reachable init step s := ⟨s, h, .refl⟩

theorem next (h : Reachable init step s) (hs : step s s') : Reachable init step s' := by
  obtain ⟨s₀, h₀, hr⟩ := h
  exact ⟨s₀, h₀, hr.tail hs⟩

/-- **Invariants**: what holds at the start and is kept by every step holds of
every reachable state. -/
theorem inv (h : Reachable init step s) (h0 : ∀ s, init s → I s)
    (hstep : ∀ s s', I s → step s s' → I s') : I s := by
  obtain ⟨s₀, h₀, hr⟩ := h
  induction hr with
  | refl => exact h0 s₀ h₀
  | tail _ hs ih => exact hstep _ _ ih hs

/-- Fewer steps reach fewer states. -/
theorem mono (h : Reachable init step s) (hstep : ∀ s s', step s s' → step' s s') :
    Reachable init step' s := by
  obtain ⟨s₀, h₀, hr⟩ := h
  exact ⟨s₀, h₀, Relation.ReflTransGen.mono hstep _ _ hr⟩

end Reachable

/-! ### Code over a part of the state -/

/-- A part of a state: how to read it and how to replace it. -/
structure Part (σ τ : Type) where
  get : σ → τ
  put : σ → τ → σ

/-- **Code over a part**, run inside the whole. -/
def onPart (p : Part σ τ) (m : EStateM ε τ α) : EStateM ε σ α := fun s =>
  match m (p.get s) with
  | .ok a t => .ok a (p.put s t)
  | .error e t => .error e (p.put s t)

theorem wp_onPart {p : Part σ τ} {m : EStateM ε τ α} {Q : α → σ → Prop} {E : ε → σ → Prop}
    {s : σ} : wp (onPart p m) Q E s ↔
      wp m (fun a t => Q a (p.put s t)) (fun e t => E e (p.put s t)) (p.get s) := by
  unfold wp onPart
  cases m (p.get s) <;> rfl

end Linux011

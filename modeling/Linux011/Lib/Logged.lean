import Linux011.Lib.Run

/-!
# Runs with a log

What a run has come through matters where a state does not tell what has happened: a
`Linux011.Logged` run carries its steps, each with the state it was taken in. The rule is
the one of any run, with the log in the invariant (`Linux011.Logged.inv`); a property of
the steps that a longer run has, a shorter one has too.

`Linux011.trace` is a run that can be computed, of a system whose step is a function; the
run it computes is one in the sense of both relations (`Linux011.trace_logged`,
`Linux011.trace_reachable`).
-/

namespace Linux011

variable {σ ε : Type}

/-- **A run from `s`**, with its steps, the last one first. -/
inductive Logged (step : σ → ε → σ → Prop) (s : σ) : List (σ × ε) → σ → Prop
  | start : Logged step s [] s
  | next {log : List (σ × ε)} {u v : σ} {ev : ε} (h : Logged step s log u) (hs : step u ev v) :
      Logged step s ((u, ev) :: log) v

/-- The run that a list of events makes, behind one that has come to `u`. -/
def trace (step : σ → ε → Option σ) : List ε → List (σ × ε) → σ → Option (List (σ × ε) × σ)
  | [], log, u => some (log, u)
  | ev :: evs, log, u => (step u ev).bind fun v => trace step evs ((u, ev) :: log) v

section Logged

variable {step : σ → ε → σ → Prop} {s u : σ} {log : List (σ × ε)}

/-- **Invariants of a run and of its steps**: the steps meet `P`, and what holds at the start
is kept by every step that does. -/
theorem Logged.inv (h : Logged step s log u) {I : List (σ × ε) → σ → Prop} {P : σ × ε → Prop}
    (hP : ∀ p ∈ log, P p) (h0 : I [] s)
    (hstep : ∀ log u ev v, I log u → P (u, ev) → step u ev v → I ((u, ev) :: log) v) : I log u := by
  induction h with
  | start => exact h0
  | next _ hs ih =>
    exact hstep _ _ _ _ (ih fun p hp => hP p (List.mem_cons_of_mem _ hp)) (hP _ List.mem_cons_self)
      hs

/-- The states of a run are reached by shorter ones, and each step is one. -/
theorem Logged.mem (h : Logged step s log u) {p : σ × ε} (hp : p ∈ log) :
    ∃ log', log' ⊆ log ∧ Logged step s log' p.1 ∧ ∃ v, step p.1 p.2 v ∧
      (v = u ∨ ∃ ev, (v, ev) ∈ log) := by
  induction h with
  | start => cases hp
  | @next log w v ev h hs ih =>
    rcases List.mem_cons.mp hp with rfl | hp
    · exact ⟨log, List.subset_cons_self _ _, h, v, hs, Or.inl rfl⟩
    · obtain ⟨log', hsub, hl, x, hx, hin⟩ := ih hp
      refine ⟨log', List.Subset.trans hsub (List.subset_cons_self _ _), hl, x, hx, Or.inr ?_⟩
      rcases hin with rfl | ⟨ev', hin⟩
      · exact ⟨ev, List.mem_cons_self⟩
      · exact ⟨ev', List.mem_cons_of_mem _ hin⟩

end Logged

section Trace

variable {f : σ → ε → Option σ} {step : σ → ε → σ → Prop} {init : σ → Prop} {rel : σ → σ → Prop}
  {s u : σ} {log : List (σ × ε)} {evs : List ε} {p : List (σ × ε) × σ}

theorem trace_cons {ev : ε} (h : trace f (ev :: evs) log u = some p) :
    ∃ v, f u ev = some v ∧ trace f evs ((u, ev) :: log) v = some p :=
  Option.bind_eq_some_iff.mp h

theorem trace_logged (h : trace f evs log u = some p) (hf : ∀ u ev v, f u ev = some v → step u ev v)
    (hu : Logged step s log u) : Logged step s p.1 p.2 := by
  induction evs generalizing log u with
  | nil =>
    obtain rfl := Option.some.inj h
    exact hu
  | cons ev evs ih =>
    obtain ⟨v, hv, hrest⟩ := trace_cons h
    exact ih hrest (hu.next (hf u ev v hv))

theorem trace_reachable (h : trace f evs log u = some p) (hf : ∀ u ev v, f u ev = some v → rel u v)
    (hu : Reachable init rel u) : Reachable init rel p.2 := by
  induction evs generalizing log u with
  | nil =>
    obtain rfl := Option.some.inj h
    exact hu
  | cons ev evs ih =>
    obtain ⟨v, hv, hrest⟩ := trace_cons h
    exact ih hrest (hu.next (hf u ev v hv))

end Trace

end Linux011

import Linux011.Hd.Retries

/-!
# The requests that the hard-disk driver uses

What `CURRENT` is used for is recorded here (`Linux011.Block.Use`). `bad_rw_intr` counts a failure,
ends the request with the seventh, and then looks at the errors of `CURRENT` again, which is the
next request by then, or none. That is the only use that is not right: all are, just if no request
fails that has failed six times (`Linux011.Hd.uses_right_iff`). A handler that waits for an
interrupt always has a request, since a round of `do_hd_request` that sets one does not end the
request.
-/

namespace Linux011.Hd

open Block (Request Cmd Use)

variable {D : Disks} {f : Bool} {s t s₀ : State} {o : Option State} {e : Entry}
  {q : List Entry} {l : List (Use Entry)}

/-! ### What is used -/

/-- What `bad_rw_intr` uses. -/
def State.badUses (s : State) : List (Use Entry) :=
  match s.queue with
  | [] => [.deref []]
  | e :: q =>
    if maxErrors ≤ e.now.errors + 1 then
      -- with `end_request`
      [.errors (e.bump :: q) q, .deref (e.bump :: q), .deref s.queue]
    else [.errors (e.bump :: q) (e.bump :: q), .deref s.queue]

/-- What a round of `do_hd_request` uses. If it has to be repeated, and the request has not been
ended at once, the request has failed. -/
def roundUses (D : Disks) (a : Answers) (s : State) : List (Use Entry) :=
  match s.queue with
  | [] => []
  | e :: _ =>
    match round D a s with
    | .repeat_ _ => if Rejected D e.now then [.deref s.queue] else s.badUses ++ [.deref s.queue]
    | _ => [.deref s.queue]

/-- What an interrupt uses. -/
def State.handleUses (s : State) (h : Handler) (bad : Bool) : List (Use Entry) :=
  if bad then s.badUses
  else
    match h with
    | .recalIntr => []
    | _ => [.deref s.queue]

/-- **The first request has failed six times.** -/
def State.Last (s : State) : Prop := ∃ e q, s.queue = e :: q ∧ maxErrors ≤ e.now.errors + 1

/-- **`do_hd_request`**, with its uses; there is no state behind a panic. If it is to be `fine`, no
request fails for the last time. -/
inductive Serves (D : Disks) (fine : Bool) : State → List (Use Entry) → Option State → Prop
  | ret {s t : State} (a : Answers) (h : round D a s = .ret t) :
    Serves D fine s (roundUses D a s) (some t)
  | panic {s : State} (a : Answers) (h : round D a s = .panic) :
    Serves D fine s (roundUses D a s) none
  | repeat_ {s t : State} {l : List (Use Entry)} {o : Option State} (a : Answers)
      (hfine : fine = true → s.Last → ∃ e q, s.queue = e :: q ∧ Rejected D e.now)
      (h : round D a s = .repeat_ t) (ht : Serves D fine t l o) :
    Serves D fine s (l ++ roundUses D a s) o

/-- **A step**, with its uses. -/
inductive Uses (D : Disks) (fine : Bool) (s : State) : List (Use Entry) → Option State → Prop
  | add {e : Entry} {q₁ q₂ : List Entry} (r : Request) (hr : r.errors = 0)
      (hq : s.queue = e :: (q₁ ++ q₂)) :
    Uses D fine s [] (some { s with queue := e :: (q₁ ++ .new r :: q₂) })
  | first {l : List (Use Entry)} {o : Option State} (r : Request) (hr : r.errors = 0)
      (hq : s.queue = []) (h : Serves D fine { s with queue := [.new r] } l o) : Uses D fine s l o
  | interrupt {h : Handler} {t : State} (bad junk : Bool) (hh : s.doHd = some h)
      (hdue : bad = false → s.Due h) (hfine : fine = true → bad = true → ¬s.Last)
      (ht : s.handle h bad junk = some (false, t)) : Uses D fine s (s.handleUses h bad) (some t)
  | stop {h : Handler} (bad junk : Bool) (hh : s.doHd = some h) (hdue : bad = false → s.Due h)
      (hfine : fine = true → bad = true → ¬s.Last) (ht : s.handle h bad junk = none) :
    Uses D fine s (s.handleUses h bad) none
  | interruptNext {h : Handler} {t : State} {l : List (Use Entry)} {o : Option State}
      (bad junk : Bool) (hh : s.doHd = some h) (hdue : bad = false → s.Due h)
      (hfine : fine = true → bad = true → ¬s.Last) (ht : s.handle h bad junk = some (true, t))
      (hnext : Serves D fine t l o) : Uses D fine s (l ++ s.handleUses h bad) o

/-- **A run**, with its uses. -/
inductive Used (D : Disks) (fine : Bool) (s₀ : State) : List (Use Entry) → Option State → Prop
  | start : Used D fine s₀ [] (some s₀)
  | next {s : State} {l l' : List (Use Entry)} {o : Option State} (h : Used D fine s₀ l (some s))
      (hs : Uses D fine s l' o) : Used D fine s₀ (l' ++ l) o

/-! ### Which uses are right -/

theorem right_append {l l' : List (Use Entry)} :
    (∀ u ∈ l ++ l', u.Right) ↔ (∀ u ∈ l, u.Right) ∧ ∀ u ∈ l', u.Right := by
  constructor
  · exact fun h => ⟨fun u hu => h u (List.mem_append_left _ hu),
      fun u hu => h u (List.mem_append_right _ hu)⟩
  · rintro ⟨hl, hl'⟩ u hu
    exact (List.mem_append.mp hu).elim (hl u) (hl' u)

/-- **`bad_rw_intr` uses the request that has failed**, unless that was the last time. -/
theorem badUses_right_iff (hq : s.queue = e :: q) : (∀ u ∈ s.badUses, u.Right) ↔ ¬s.Last := by
  have hlast : s.Last ↔ maxErrors ≤ e.now.errors + 1 := by
    constructor
    · rintro ⟨e', q', hq', hmax⟩
      obtain ⟨rfl, rfl⟩ := List.cons.inj (hq'.symm.trans hq)
      exact hmax
    · exact fun hmax => ⟨e, q, hq, hmax⟩
  rw [hlast, State.badUses, hq]
  dsimp only
  by_cases hmax : maxErrors ≤ e.now.errors + 1
  · rw [if_pos hmax]
    -- the queue is shorter then
    refine iff_of_false (fun h => ?_) (not_not.mpr hmax)
    have hsame := congrArg List.length (h _ List.mem_cons_self).2
    rw [List.length_cons] at hsame
    omega
  · rw [if_neg hmax]
    refine iff_of_true (fun u hu => ?_) hmax
    rcases List.mem_cons.mp hu with rfl | hu
    · exact ⟨List.cons_ne_nil _ _, rfl⟩
    · obtain rfl := List.mem_singleton.mp hu
      exact List.cons_ne_nil _ _

/-- What `do_hd_request` may find: a handler that has been set already is one of the request that
comes first, which is not ended at once. -/
structure State.Waits (D : Disks) (s : State) : Prop where
  nil : s.queue = [] → s.doHd = none
  cons : ∀ e q, s.queue = e :: q → s.doHd = none ∨ ¬Rejected D e.now

theorem waits_of_none (h : s.doHd = none) : s.Waits D := ⟨fun _ => h, fun _ _ _ => Or.inl h⟩

/-- A round that is repeated has ended the request at once, or the request has failed. -/
theorem round_repeat {a : Answers} (hq : s.queue = e :: q) (h : round D a s = .repeat_ t) :
    (Rejected D e.now ∧ t.doHd = s.doHd ∧ t.queue = q) ∨
      (¬Rejected D e.now ∧ t.queue = failed e q) := by
  have hdoes := round_does (D := D) a hq
  rw [h] at hdoes
  obtain ⟨-, ⟨hrej, hqueue, -⟩ | ⟨hrej, hqueue, -⟩⟩ := hdoes
  · refine Or.inl ⟨hrej, ?_, hqueue⟩
    rw [round, hq] at h
    dsimp only at h
    by_cases hmajor : Block.major e.now.dev ≠ 3
    · rw [if_pos hmajor] at h
      cases h
    rw [if_neg hmajor, if_pos (show _ ∨ _ from hrej), State.endRequest, hq] at h
    obtain rfl := Round.repeat_.inj h
    rfl
  · exact Or.inr ⟨hrej, hqueue⟩

/-- What a round uses that is repeated because the request has failed. -/
theorem roundUses_failed {a : Answers} (hq : s.queue = e :: q) (h : round D a s = .repeat_ t)
    (hrej : ¬Rejected D e.now) : roundUses D a s = s.badUses ++ [.deref s.queue] := by
  rw [roundUses]
  split
  · next hnil => cases hnil.symm.trans hq
  · next e' q' hq' =>
    obtain ⟨rfl, rfl⟩ := List.cons.inj (hq'.symm.trans hq)
    rw [h]
    exact if_neg hrej

/-- **A round uses a request that is there**, if that does not fail for the last time. -/
theorem roundUses_right {a : Answers} (hlast : ∀ t e q, round D a s = .repeat_ t →
    s.queue = e :: q → ¬Rejected D e.now → ¬s.Last) : ∀ u ∈ roundUses D a s, u.Right := by
  rw [roundUses]
  split
  · intro u hu
    cases hu
  next e q hq =>
  have hderef : ∀ u ∈ [Use.deref s.queue], u.Right := by
    intro u hu
    obtain rfl := List.mem_singleton.mp hu
    rw [hq]
    exact List.cons_ne_nil _ _
  split
  · next t ht =>
    split_ifs with hrej
    · exact hderef
    · exact right_append.mpr ⟨(badUses_right_iff hq).mpr (hlast t e q ht hq hrej), hderef⟩
  · exact hderef

/-- **`do_hd_request`** uses requests that are there, if none fails for the last time; and a handler
that is set has a request. -/
theorem Serves.right (h : Serves D true s l o) (hw : s.Waits D) :
    (∀ u ∈ l, u.Right) ∧ ∀ t, o = some t → t.queue = [] → t.doHd = none := by
  generalize htrue : true = f at h
  induction h with
  | @ret s t a h =>
    constructor
    · refine roundUses_right fun u e q hu => ?_
      cases h.symm.trans hu
    · intro u hu hnil
      obtain rfl := Option.some.inj hu
      rcases hq : s.queue with _ | ⟨e, q⟩
      · rw [round, hq] at h
        obtain rfl := Round.ret.inj h
        exact hw.nil hq
      · have hdoes := round_does (D := D) a hq
        rw [h] at hdoes
        cases hdoes.1.symm.trans hnil ▸ hq
  | @panic s a h =>
    refine ⟨roundUses_right fun u e q hu => ?_, fun t ht => by cases ht⟩
    cases h.symm.trans hu
  | @repeat_ s t l o a hfine h _ ih =>
    have hlast : ∀ {e q}, s.queue = e :: q → ¬Rejected D e.now → ¬s.Last := by
      intro e q hq hrej hlast
      obtain ⟨e', q', hq', hrej'⟩ := hfine htrue.symm hlast
      obtain ⟨rfl, rfl⟩ := List.cons.inj (hq'.symm.trans hq)
      exact hrej hrej'
    have hwaits : t.Waits D := by
      rcases hq : s.queue with _ | ⟨e, q⟩
      · rw [round, hq] at h
        cases h
      rcases round_repeat hq h with ⟨hrej, hdo, -⟩ | ⟨hrej, hqueue⟩
      · exact waits_of_none (hdo.trans ((hw.cons e q hq).resolve_right (not_not.mpr hrej)))
      · have hmax : ¬maxErrors ≤ e.now.errors + 1 := fun hmax => hlast hq hrej ⟨e, q, hq, hmax⟩
        rw [failed, if_neg hmax] at hqueue
        refine ⟨fun hnil => absurd (hqueue.symm.trans hnil) (List.cons_ne_nil _ _), ?_⟩
        intro e' q' hq'
        obtain ⟨rfl, rfl⟩ := List.cons.inj (hq'.symm.trans hqueue)
        exact Or.inr hrej
    obtain ⟨hl, ho⟩ := ih hwaits
    exact ⟨right_append.mpr ⟨hl, roundUses_right fun _ _ _ _ hq hrej => hlast hq hrej⟩, ho⟩

/-- `do_hd_request` is fine if its uses are right. -/
theorem Serves.fine (h : Serves D false s l o) (hright : ∀ u ∈ l, u.Right) :
    Serves D true s l o := by
  induction h with
  | ret a h => exact .ret a h
  | panic a h => exact .panic a h
  | @repeat_ s t l o a hfine h _ ih =>
    obtain ⟨hl, hround⟩ := right_append.mp hright
    refine .repeat_ a (fun _ hlast => ?_) h (ih hl)
    obtain ⟨e, q, hq, hmax⟩ := hlast
    refine ⟨e, q, hq, ?_⟩
    by_contra hrej
    rw [roundUses_failed hq h hrej, right_append, badUses_right_iff hq] at hround
    exact hround.1 ⟨e, q, hq, hmax⟩

/-! ### Steps and runs -/

/-- An interrupt uses a request that is there. -/
theorem handleUses_right {h : Handler} {bad : Bool} (hq : s.queue = e :: q)
    (hlast : bad = true → ¬s.Last) : ∀ u ∈ s.handleUses h bad, u.Right := by
  rw [State.handleUses.eq_def]
  by_cases hbad : bad = true
  · rw [if_pos hbad]
    exact (badUses_right_iff hq).mpr (hlast hbad)
  rw [if_neg hbad]
  have hderef : ∀ u ∈ [Use.deref s.queue], u.Right := by
    rintro u hu
    obtain rfl := List.mem_singleton.mp hu
    rw [hq]
    exact List.cons_ne_nil _ _
  cases h with
  | recalIntr =>
    intro u hu
    cases hu
  | readIntr => exact hderef
  | writeIntr => exact hderef

theorem setCurrent_doHd (s : State) (f : Entry → Entry) : (s.setCurrent f).doHd = s.doHd := by
  rw [State.setCurrent]
  split
  · rfl
  · rfl

theorem endRequest_doHd {uptodate : Bool} (h : s.endRequest uptodate = some t) :
    t.doHd = s.doHd := by
  rw [State.endRequest] at h
  split at h
  · cases h
  · obtain rfl := Option.some.inj h
    rfl

theorem portRead_doHd (s : State) : s.portRead.doHd = s.doHd := by
  rw [State.portRead]
  split
  · rfl
  · exact setCurrent_doHd s _

theorem written_doHd (s : State) : s.written.doHd = s.doHd := by
  rw [State.written]
  split
  · rfl
  split
  · rfl
  · exact setCurrent_doHd s _

theorem readIntr_doHd {junk : Bool} (ht : s.readIntr false junk = some (true, t)) :
    t.doHd = s.doHd := by
  rw [State.readIntr, if_neg Bool.false_ne_true] at ht
  rcases hq : s.queue with _ | ⟨e, q⟩
  · rw [hq] at ht
    cases ht
  rw [hq] at ht
  dsimp only at ht
  split_ifs at ht with hleft
  · exact Bool.noConfusion (Prod.mk.inj (Option.some.inj ht)).1
  obtain ⟨u, hu, heq⟩ := Option.map_eq_some_iff.mp ht
  obtain rfl := (Prod.mk.inj heq).2
  exact (endRequest_doHd hu).trans ((setCurrent_doHd _ _).trans (portRead_doHd s))

theorem writeIntr_doHd {junk : Bool} (ht : s.writeIntr false junk = some (true, t)) :
    t.doHd = s.doHd := by
  rw [State.writeIntr, if_neg Bool.false_ne_true] at ht
  rcases hq : s.queue with _ | ⟨e, q⟩
  · rw [hq] at ht
    cases ht
  rw [hq] at ht
  dsimp only at ht
  split_ifs at ht with hleft
  · exact Bool.noConfusion (Prod.mk.inj (Option.some.inj ht)).1
  obtain ⟨u, hu, heq⟩ := Option.map_eq_some_iff.mp ht
  obtain rfl := (Prod.mk.inj heq).2
  exact (endRequest_doHd hu).trans (setCurrent_doHd _ _)

/-- What is left by an interrupt behind which `do_hd_request` is called, has no handler; where it is
not called, there is a request still. -/
theorem handle_waits {h : Handler} {bad junk next : Bool}
    (ht : s.handle h bad junk = some (next, t)) :
    (next = true → t.doHd = none) ∧ (next = false → t.queue ≠ []) := by
  obtain ⟨-, rfl, -, hdo, -⟩ | ⟨rfl, rfl, rfl, -, -⟩ | ⟨rfl, hne, e, q, hm⟩ := handle_cases ht
  · exact ⟨fun _ => hdo, Bool.noConfusion⟩
  · obtain ⟨-, rfl⟩ := Prod.mk.inj (Option.some.inj ht)
    exact ⟨fun _ => rfl, Bool.noConfusion⟩
  rcases hm.cases with ⟨-, rfl, -, -, e', hqueue, -⟩ | ⟨hzero, rfl, -⟩
  · refine ⟨Bool.noConfusion, fun _ hnil => ?_⟩
    cases hqueue.symm.trans hnil
  · refine ⟨fun _ => ?_, Bool.noConfusion⟩
    -- the request has been ended
    cases h with
    | recalIntr => exact absurd rfl hne
    | readIntr => exact readIntr_doHd ht
    | writeIntr => exact (writeIntr_doHd ht).trans (written_doHd _)

/-- **A fine step** uses requests that are there. -/
theorem Uses.right (h : Uses D true s l o) (hw : s.queue = [] → s.doHd = none) :
    (∀ u ∈ l, u.Right) ∧ ∀ t, o = some t → t.queue = [] → t.doHd = none := by
  have hcons : ∀ {h : Handler}, s.doHd = some h → ∃ e q, s.queue = e :: q := by
    intro h hh
    refine List.exists_cons_of_ne_nil fun hnil => ?_
    cases hh.symm.trans (hw hnil)
  cases h with
  | add r hr hq =>
    refine ⟨fun u hu => absurd hu List.not_mem_nil, fun t ht hnil => ?_⟩
    obtain rfl := Option.some.inj ht
    cases hnil
  | first r hr hq h => exact h.right (waits_of_none (hw hq))
  | interrupt bad junk hh hdue hfine ht =>
    obtain ⟨e, q, hq⟩ := hcons hh
    refine ⟨handleUses_right hq (hfine rfl), fun u hu hnil => ?_⟩
    obtain rfl := Option.some.inj hu
    exact absurd hnil ((handle_waits ht).2 rfl)
  | stop bad junk hh hdue hfine ht =>
    obtain ⟨e, q, hq⟩ := hcons hh
    exact ⟨handleUses_right hq (hfine rfl), fun u hu => by cases hu⟩
  | interruptNext bad junk hh hdue hfine ht hnext =>
    obtain ⟨e, q, hq⟩ := hcons hh
    obtain ⟨hl, ho⟩ := hnext.right (waits_of_none ((handle_waits ht).1 rfl))
    exact ⟨right_append.mpr ⟨hl, handleUses_right hq (hfine rfl)⟩, ho⟩

/-- **A step is fine** if its uses are right. -/
theorem Uses.fine (h : Uses D false s l o) (hright : ∀ u ∈ l, u.Right) : Uses D true s l o := by
  have hlast : ∀ {h : Handler} {bad : Bool}, (∀ u ∈ s.handleUses h bad, u.Right) → bad = true →
      ¬s.Last := by
    rintro h _ huses rfl ⟨e, q, hq, hmax⟩
    rw [State.handleUses.eq_def, if_pos rfl] at huses
    exact (badUses_right_iff hq).mp huses ⟨e, q, hq, hmax⟩
  cases h with
  | add r hr hq => exact .add r hr hq
  | first r hr hq h => exact .first r hr hq (h.fine hright)
  | interrupt bad junk hh hdue hfine ht =>
    exact .interrupt bad junk hh hdue (fun _ => hlast hright) ht
  | stop bad junk hh hdue hfine ht => exact .stop bad junk hh hdue (fun _ => hlast hright) ht
  | interruptNext bad junk hh hdue hfine ht hnext =>
    obtain ⟨hl, huses⟩ := right_append.mp hright
    exact .interruptNext bad junk hh hdue (fun _ => hlast huses) ht (hnext.fine hl)

theorem Used.right (h0 : s₀.Start) (h : Used D true s₀ l o) :
    (∀ u ∈ l, u.Right) ∧ ∀ t, o = some t → t.queue = [] → t.doHd = none := by
  induction h with
  | start =>
    refine ⟨fun u hu => absurd hu List.not_mem_nil, fun t ht _ => ?_⟩
    obtain rfl := Option.some.inj ht
    exact h0.doHd
  | next _ hs ih =>
    obtain ⟨hl, ho⟩ := hs.right (ih.2 _ rfl)
    exact ⟨right_append.mpr ⟨hl, ih.1⟩, ho⟩

/-- **All uses are right**, just if no request fails that has failed six times. -/
theorem uses_right_iff (h0 : s₀.Start) (h : Used D false s₀ l o) :
    (∀ u ∈ l, u.Right) ↔ Used D true s₀ l o := by
  constructor
  · intro hright
    induction h with
    | start => exact .start
    | next _ hs ih =>
      obtain ⟨hl', hl⟩ := right_append.mp hright
      exact .next (ih hl) (hs.fine hl')
  · exact fun hrun => (hrun.right h0).1

end Linux011.Hd

import Linux011.Lib.Run

/-!
# Wait queues

A wait queue of `kernel/sched.c` is one pointer, `*p`, to the task that went to sleep
last. The others hang together by a local variable: `tmp`, in which each of them has
saved what `*p` was when it came. A task that leaves wakes the one it has saved.

For `sleep_on` that is enough. Every sleeper is pointed at exactly once, by `*p` or by
the `tmp` of another (`Linux011.Kernel.SleepOk`), so it is woken when its turn comes
(`Linux011.Kernel.sleepOn_loses_nobody`).

A task in `interruptible_sleep_on` that wakes and finds another task in `*p` wakes that
one and goes back to sleep. It is lost if nothing points at it any more, which is what
happens when `*p` has been cleared in between; as long as this does not happen nobody is
lost (`Linux011.Kernel.interruptibleSleepOn_loses_nobody`).
-/

namespace Linux011.Kernel

/-- The states of a task that matter here. -/
inductive TaskState
  | running
  | interruptible
  | uninterruptible
  deriving DecidableEq

/-- **A wait queue and the tasks.** -/
structure WaitQueue where
  /-- `*p`. -/
  p : Option ℕ
  state : ℕ → TaskState
  /-- The variable `tmp` of a task that is inside the call. -/
  tmp : ℕ → Option (Option ℕ)
  /-- How often a task has called; a record only. -/
  calls : ℕ → ℕ

namespace WaitQueue

variable (q : WaitQueue)

/-- `(*v).state = st`, where `v` is not null. -/
def setState (v : Option ℕ) (st : TaskState) : WaitQueue :=
  match v with
  | some v => { q with state := Function.update q.state v st }
  | none => q

/-- `wake_up`. -/
def wakeUp : WaitQueue := { q.setState q.p .running with p := none }

/-- `sleep_on`, and `interruptible_sleep_on`, by the task `t`, as far as `schedule`. -/
def goToSleep (t : ℕ) (st : TaskState) : WaitQueue :=
  { q with
    p := some t
    state := Function.update q.state t st
    tmp := Function.update q.tmp t (some q.p)
    calls := Function.update q.calls t (q.calls t + 1) }

/-- The end of `sleep_on`, in a task that has saved `tmp`. -/
def leave (t : ℕ) (tmp : Option ℕ) : WaitQueue :=
  { q.setState tmp .running with tmp := Function.update q.tmp t none }

/-- `interruptible_sleep_on` after `schedule`. -/
def wakened (t : ℕ) (tmp : Option ℕ) : WaitQueue :=
  if ∃ v ∈ q.p, v ≠ t then
    (q.setState q.p .running).setState (some t) .interruptible
  else leave { q with p := none } t tmp

/-- Nobody is inside. -/
def Empty : Prop := q.p = none ∧ ∀ t, q.tmp t = none

/-- A task inside has saved `v`. -/
def Link (w v : ℕ) : Prop := q.tmp w = some (some v)

/-- A task that is going to be woken: it is the head, or a task that runs on will wake
it. -/
def Source (v : ℕ) : Prop := q.p = some v ∨ ∃ r, q.state r = .running ∧ q.Link r v

/-- **A task that can be reached** from the head or from a task inside that runs on. -/
def Reached (v : ℕ) : Prop := ∃ u, q.Source u ∧ Relation.ReflTransGen q.Link u v

/-- A task that is asleep inside. -/
def Asleep (v : ℕ) : Prop := q.tmp v ≠ none ∧ q.state v ≠ .running

end WaitQueue

section Reached

variable {q : WaitQueue} {t u v w : ℕ} {tmp : Option ℕ} {st : TaskState}

namespace WaitQueue

theorem Reached.source (h : q.Source v) : q.Reached v := ⟨v, h, .refl⟩

theorem Reached.link (h : q.Reached w) (hl : q.Link w v) : q.Reached v := by
  obtain ⟨u, hu, hp⟩ := h
  exact ⟨u, hu, hp.tail hl⟩

/-- **What is reached**, by induction along the links. -/
theorem Reached.elim {P : ℕ → Prop} (h : q.Reached v) (hs : ∀ u, q.Source u → P u)
    (hl : ∀ w u, P w → q.Link w u → P u) : P v := by
  obtain ⟨u, hu, hp⟩ := h
  induction hp with
  | refl => exact hs u hu
  | tail _ hlink ih => exact hl _ _ ih hlink

@[simp] theorem setState_p (x : Option ℕ) : (q.setState x st).p = q.p := by
  cases x <;> rfl

@[simp] theorem setState_tmp (x : Option ℕ) : (q.setState x st).tmp = q.tmp := by
  cases x <;> rfl

@[simp] theorem setState_calls (x : Option ℕ) : (q.setState x st).calls = q.calls := by
  cases x <;> rfl

theorem setState_state (x : Option ℕ) (v : ℕ) :
    (q.setState x st).state v = if x = some v then st else q.state v := by
  cases x with
  | none => rfl
  | some u =>
    change Function.update q.state u st v = _
    rw [Function.update_apply]
    by_cases huv : v = u
    · rw [if_pos huv, if_pos (congrArg some huv.symm)]
    · rw [if_neg huv, if_neg fun h => huv (Option.some.inj h).symm]

theorem link_goToSleep (ht : q.tmp t = none) :
    (q.goToSleep t st).Link w v ↔ q.Link w v ∨ (w = t ∧ q.p = some v) := by
  unfold Link goToSleep
  dsimp only
  by_cases hwt : w = t
  · rw [hwt, Function.update_self, ht]
    simp
  · rw [Function.update_of_ne hwt]
    simp [hwt]

theorem link_leave : (q.leave t tmp).Link w v ↔ w ≠ t ∧ q.Link w v := by
  unfold Link leave
  dsimp only
  by_cases hwt : w = t
  · rw [hwt, Function.update_self]
    simp
  · rw [Function.update_of_ne hwt]
    simp [hwt]

theorem link_wakeUp : q.wakeUp.Link w v ↔ q.Link w v := by
  unfold Link wakeUp
  simp

/-- **The one that comes** is pointed at, and points at the one before. -/
theorem Reached.goToSleep (hout : q.tmp t = none) (h : q.Reached v) :
    (q.goToSleep t st).Reached v := by
  refine h.elim (fun u hu => ?_) fun w u hw hl => hw.link ((link_goToSleep hout).mpr (Or.inl hl))
  rcases hu with hp | ⟨r, hr, hl⟩
  · exact (Reached.source (Or.inl rfl)).link ((link_goToSleep hout).mpr (Or.inr ⟨rfl, hp⟩))
  · refine Reached.source (Or.inr ⟨r, ?_, (link_goToSleep hout).mpr (Or.inl hl)⟩)
    have hrt : r ≠ t := by
      rintro rfl
      unfold Link at hl
      rw [hout] at hl
      cases hl
    exact (Function.update_of_ne hrt _ _).trans hr

/-- **The head is woken**: what it has saved is pointed at by a task that runs on. -/
theorem Reached.wakeUp (h : q.Reached v) : q.p = some v ∨ q.wakeUp.Reached v := by
  have hrun : ∀ r, q.state r = .running → q.wakeUp.state r = .running := fun r hr => by
    change (q.setState q.p .running).state r = _
    rw [setState_state, hr, ite_self]
  refine h.elim (P := fun v => q.p = some v ∨ q.wakeUp.Reached v)
    (fun u hu => ?_) fun w u hw hl => ?_
  · rcases hu with hp | ⟨r, hr, hl⟩
    · exact Or.inl hp
    · exact Or.inr (.source (Or.inr ⟨r, hrun r hr, link_wakeUp.mpr hl⟩))
  · refine Or.inr ?_
    rcases hw with hp | hw
    · refine .source (Or.inr ⟨w, ?_, link_wakeUp.mpr hl⟩)
      change (q.setState q.p .running).state w = _
      rw [setState_state, if_pos hp]
    · exact hw.link (link_wakeUp.mpr hl)

/-- **A task leaves**: what it has saved runs on, and points at what comes below. -/
theorem Reached.leave (h : q.Reached v) (htmp : q.tmp t = some tmp) :
    v = t ∨ tmp = some v ∨ (q.leave t tmp).Reached v := by
  have hstate : ∀ r, (q.leave t tmp).state r = if tmp = some r then .running else q.state r :=
    fun r => setState_state tmp r
  have hp' : (q.leave t tmp).p = q.p := setState_p tmp
  refine h.elim (P := fun v => v = t ∨ tmp = some v ∨ (q.leave t tmp).Reached v)
    (fun u hu => ?_) fun w u hw hl => ?_
  · rcases hu with hpu | ⟨r, hr, hl⟩
    · exact Or.inr (Or.inr (.source (Or.inl (hp'.trans hpu))))
    · by_cases hrt : r = t
      · refine Or.inr (Or.inl ?_)
        unfold Link at hl
        rw [hrt, htmp] at hl
        exact Option.some.inj hl
      · refine Or.inr (Or.inr (.source (Or.inr ⟨r, ?_, link_leave.mpr ⟨hrt, hl⟩⟩)))
        rw [hstate, hr, ite_self]
  · by_cases hwt : w = t
    · refine Or.inr (Or.inl ?_)
      unfold Link at hl
      rw [hwt, htmp] at hl
      exact Option.some.inj hl
    · refine Or.inr (Or.inr ?_)
      rcases hw with hw | hw | hw
      · exact absurd hw hwt
      · refine .source (Or.inr ⟨w, ?_, link_leave.mpr ⟨hwt, hl⟩⟩)
        rw [hstate, if_pos hw]
      · exact hw.link (link_leave.mpr ⟨hwt, hl⟩)

/-- Waking a task hides nobody. -/
theorem Reached.setState (h : q.Reached v) (x : Option ℕ) : (q.setState x .running).Reached v := by
  have hl' : ∀ w u, q.Link w u → (q.setState x .running).Link w u := fun w u hl => by
    unfold Link
    rw [setState_tmp]
    exact hl
  refine h.elim (fun u hu => ?_) fun w u hw hl => hw.link (hl' w u hl)
  rcases hu with hp | ⟨r, hr, hl⟩
  · exact .source (Or.inl ((setState_p x).trans hp))
  · refine .source (Or.inr ⟨r, ?_, hl' r u hl⟩)
    rw [setState_state, hr, ite_self]

end WaitQueue

end Reached

/-! ### `sleep_on` -/

section SleepOn

open WaitQueue

/-- **A step of a queue** that is used with `sleep_on`. Tasks outside do what they like. -/
inductive SleepStep (q : WaitQueue) : WaitQueue → Prop
  | call {t : ℕ} (ht : t ≠ 0) (hout : q.tmp t = none) (hrun : q.state t = .running) :
      SleepStep q (q.goToSleep t .uninterruptible)
  | resume {t : ℕ} {tmp : Option ℕ} (hin : q.tmp t = some tmp) (hrun : q.state t = .running) :
      SleepStep q (q.leave t tmp)
  | wake : SleepStep q q.wakeUp
  | elsewhere {t : ℕ} {st : TaskState} (hout : q.tmp t = none) :
      SleepStep q { q with state := Function.update q.state t st }

/-- **Every sleeper is pointed at exactly once**, and only sleepers are. -/
structure SleepOk (q : WaitQueue) : Prop where
  head : ∀ v, q.p = some v → q.Asleep v
  link : ∀ w v, q.Link w v → q.Asleep v
  reached : ∀ v, q.Asleep v → q.Reached v
  head_once : ∀ w v, q.p = some v → ¬q.Link w v
  link_once : ∀ w w' v, q.Link w v → q.Link w' v → w = w'

variable {q q' : WaitQueue} {t : ℕ} {tmp : Option ℕ}

theorem SleepOk.call (h : SleepOk q) (hout : q.tmp t = none) :
    SleepOk (q.goToSleep t .uninterruptible) := by
  have hlink {w v} : (q.goToSleep t .uninterruptible).Link w v ↔ _ := link_goToSleep hout
  have hne : ∀ v, q.Asleep v → v ≠ t := by
    rintro v ⟨hv, -⟩ rfl
    exact hv hout
  have hold : ∀ v, q.Asleep v → (q.goToSleep t .uninterruptible).Asleep v := fun v hv =>
    ⟨(Function.update_of_ne (hne v hv) _ _).trans_ne hv.1,
      (Function.update_of_ne (hne v hv) _ _).trans_ne hv.2⟩
  have hself : (q.goToSleep t .uninterruptible).Asleep t :=
    ⟨(Function.update_self t _ q.tmp).trans_ne (by simp),
      (Function.update_self t _ q.state).trans_ne (by simp)⟩
  refine ⟨fun v hv => ?_, fun w v hl => ?_, fun v hv => ?_, fun w v hv hl => ?_,
    fun w w' v hl hl' => ?_⟩
  · obtain rfl := Option.some.inj hv
    exact hself
  · rcases hlink.mp hl with hl | ⟨-, hp⟩
    · exact hold v (h.link w v hl)
    · exact hold v (h.head v hp)
  · by_cases hvt : v = t
    · exact .source (Or.inl (congrArg some hvt.symm))
    · refine (h.reached v ⟨?_, ?_⟩).goToSleep hout
      · exact (Function.update_of_ne hvt _ q.tmp).symm.trans_ne hv.1
      · exact (Function.update_of_ne hvt _ q.state).symm.trans_ne hv.2
  · obtain rfl := Option.some.inj hv
    rcases hlink.mp hl with hl | ⟨-, hp⟩
    · exact hne _ (h.link w _ hl) rfl
    · exact hne _ (h.head _ hp) rfl
  · rcases hlink.mp hl with hl | ⟨hw, hp⟩
    · rcases hlink.mp hl' with hl' | ⟨-, hp'⟩
      · exact h.link_once w w' v hl hl'
      · exact absurd hl (h.head_once w v hp')
    · rcases hlink.mp hl' with hl' | ⟨hw', -⟩
      · exact absurd hl' (h.head_once w' v hp)
      · rw [hw, hw']

theorem SleepOk.wakeUp (h : SleepOk q) : SleepOk q.wakeUp := by
  have hstate : ∀ v, q.wakeUp.state v = if q.p = some v then .running else q.state v := fun v =>
    setState_state q.p v
  have htmp : q.wakeUp.tmp = q.tmp := setState_tmp q.p
  have hnone : ∀ v, q.wakeUp.p ≠ some v := fun v hv => by cases hv
  refine ⟨fun v hv => absurd hv (hnone v), fun w v hl => ?_, fun v hv => ?_,
    fun w v hv => absurd hv (hnone v),
    fun w w' v hl hl' => h.link_once w w' v (link_wakeUp.mp hl) (link_wakeUp.mp hl')⟩
  · have hl := link_wakeUp.mp hl
    refine ⟨htmp ▸ (h.link w v hl).1, ?_⟩
    rw [hstate, if_neg fun hp => h.head_once w v hp hl]
    exact (h.link w v hl).2
  · obtain ⟨hin, hst⟩ := hv
    rw [hstate] at hst
    have hp : q.p ≠ some v := fun hp => by simp [hp] at hst
    rw [if_neg hp] at hst
    exact ((h.reached v ⟨htmp ▸ hin, hst⟩).wakeUp).resolve_left hp

theorem SleepOk.resume (h : SleepOk q) (hin : q.tmp t = some tmp) (hrun : q.state t = .running) :
    SleepOk (q.leave t tmp) := by
  have hstate : ∀ v, (q.leave t tmp).state v = if tmp = some v then .running else q.state v :=
    fun v => setState_state tmp v
  have hp : (q.leave t tmp).p = q.p := setState_p tmp
  have ht : ¬q.Asleep t := fun ha => ha.2 hrun
  have hsaved : ∀ v, tmp = some v → q.Link t v := fun v hv => by
    unfold Link
    rw [hin, hv]
  -- a sleeper that the leaving task has not saved stays asleep
  have hstay : ∀ v, q.Asleep v → tmp ≠ some v → (q.leave t tmp).Asleep v := fun v hv hne => by
    have hvt : v ≠ t := fun hvt => ht (hvt ▸ hv)
    refine ⟨(Function.update_of_ne hvt _ _).trans_ne hv.1, ?_⟩
    rw [hstate, if_neg hne]
    exact hv.2
  refine ⟨fun v hv => ?_, fun w v hl => ?_, fun v hv => ?_, fun w v hv hl => ?_,
    fun w w' v hl hl' => ?_⟩
  · rw [hp] at hv
    exact hstay v (h.head v hv) fun hs => h.head_once t v hv (hsaved v hs)
  · obtain ⟨hwt, hl⟩ := link_leave.mp hl
    exact hstay v (h.link w v hl) fun hs => hwt (h.link_once w t v hl (hsaved v hs))
  · obtain ⟨hv, hst⟩ := hv
    have hvt : v ≠ t := by
      rintro rfl
      exact hv (Function.update_self _ _ _)
    rw [hstate] at hst
    have hne : tmp ≠ some v := fun hs => by simp [hs] at hst
    rw [if_neg hne] at hst
    have ha : q.Asleep v := ⟨(Function.update_of_ne hvt _ _).symm.trans_ne hv, hst⟩
    exact (((h.reached v ha).leave hin).resolve_left hvt).resolve_left hne
  · rw [hp] at hv
    exact h.head_once w v hv (link_leave.mp hl).2
  · exact h.link_once w w' v (link_leave.mp hl).2 (link_leave.mp hl').2

/-- A task outside is not part of the queue. -/
theorem SleepOk.elsewhere (h : SleepOk q) {st : TaskState} (hout : q.tmp t = none) :
    SleepOk { q with state := Function.update q.state t st } := by
  have hstate : ∀ v, q.tmp v ≠ none → Function.update q.state t st v = q.state v := fun v hv =>
    Function.update_of_ne (fun hvt => hv (by rw [hvt, hout])) _ _
  have hasleep : ∀ v, ({ q with state := Function.update q.state t st } : WaitQueue).Asleep v ↔
      q.Asleep v := fun v => by
    refine ⟨fun ⟨hv, hs⟩ => ⟨hv, ?_⟩, fun ⟨hv, hs⟩ => ⟨hv, ?_⟩⟩
    · exact (hstate v hv).symm.trans_ne hs
    · exact (hstate v hv).trans_ne hs
  refine ⟨fun v hv => (hasleep v).mpr (h.head v hv), fun w v hl => (hasleep v).mpr (h.link w v hl),
    fun v hv => ?_, h.head_once, h.link_once⟩
  refine (h.reached v ((hasleep v).mp hv)).elim (fun u hu => ?_) fun w u hw hl => hw.link hl
  rcases hu with hp | ⟨r, hr, hl⟩
  · exact .source (Or.inl hp)
  · refine .source (Or.inr ⟨r, (hstate r ?_).trans hr, hl⟩)
    unfold Link at hl
    simp [hl]

theorem SleepOk.step (h : SleepOk q) (hs : SleepStep q q') : SleepOk q' := by
  cases hs with
  | call _ hout _ => exact h.call hout
  | resume hin hrun => exact h.resume hin hrun
  | wake => exact h.wakeUp
  | elsewhere hout => exact h.elsewhere hout

/-- **Whoever comes after a `wake_up`** has called since. -/
def NewSince (q₀ q : WaitQueue) : Prop :=
  (∀ v, q₀.calls v ≤ q.calls v) ∧
    ∀ u, q.p = some u → ∀ v, Relation.ReflTransGen q.Link u v → q₀.calls v < q.calls v

theorem NewSince.step {q₀ : WaitQueue} (h : NewSince q₀ q) (hs : SleepStep q q') :
    NewSince q₀ q' := by
  obtain ⟨hle, hnew⟩ := h
  cases hs with
  | @call t ht hout hrun =>
    have hcalls : ∀ v, q.calls v ≤ (q.goToSleep t .uninterruptible).calls v := fun v => by
      change _ ≤ Function.update q.calls t _ v
      by_cases hvt : v = t
      · rw [hvt, Function.update_self]
        omega
      · rw [Function.update_of_ne hvt]
    refine ⟨fun v => (hle v).trans (hcalls v), fun u hu v hpath => ?_⟩
    obtain rfl := Option.some.inj hu
    have hself : q₀.calls t < (q.goToSleep t .uninterruptible).calls t := by
      change _ < Function.update q.calls t _ t
      rw [Function.update_self]
      exact Nat.lt_succ_of_le (hle t)
    -- along the links: the task that has come, or what was below the head before
    have key : v = t ∨ ∃ u, q.p = some u ∧ Relation.ReflTransGen q.Link u v := by
      induction hpath with
      | refl => exact Or.inl rfl
      | @tail w v _ hl ih =>
        rcases (link_goToSleep hout).mp hl with hold | ⟨-, hp⟩
        · rcases ih with rfl | ⟨u, hp, hpath⟩
          · unfold Link at hold
            rw [hout] at hold
            cases hold
          · exact Or.inr ⟨u, hp, hpath.tail hold⟩
        · exact Or.inr ⟨v, hp, .refl⟩
    rcases key with rfl | ⟨u, hp, hpath⟩
    · exact hself
    · exact (hnew u hp v hpath).trans_le (hcalls v)
  | @resume t tmp hin hrun =>
    have hcalls : (q.leave t tmp).calls = q.calls := setState_calls tmp
    have hp : (q.leave t tmp).p = q.p := setState_p tmp
    refine ⟨hcalls ▸ hle, fun u hu v hpath => ?_⟩
    rw [hcalls]
    exact hnew u (hp ▸ hu) v
      (Relation.ReflTransGen.mono (fun _ _ hl => (link_leave.mp hl).2) _ _ hpath)
  | wake =>
    have hcalls : q.wakeUp.calls = q.calls := setState_calls q.p
    refine ⟨fun v => ?_, fun u hu => by cases hu⟩
    rw [hcalls]
    exact hle v
  | elsewhere hout => exact ⟨hle, hnew⟩

/-- The queue that nobody has used. -/
def noSleepers : WaitQueue := ⟨none, fun _ => .running, fun _ => none, fun _ => 0⟩

end SleepOn

/-! ### `interruptible_sleep_on` -/

section InterruptibleSleepOn

open WaitQueue

/-- The task `t` is reached otherwise than through itself. -/
def WaitQueue.StillReached (q : WaitQueue) (t : ℕ) : Prop :=
  ∃ u, (q.p = some u ∨ ∃ r, r ≠ t ∧ q.state r = .running ∧ q.Link r u) ∧
    Relation.ReflTransGen q.Link u t

/-- **A step of a queue** that is used with `interruptible_sleep_on`; a task `t` goes on after
`schedule` only where `ok q t`. -/
inductive InterruptibleStep (ok : WaitQueue → ℕ → Prop) (q : WaitQueue) : WaitQueue → Prop
  | call {t : ℕ} (ht : t ≠ 0) (hout : q.tmp t = none) (hrun : q.state t = .running) :
      InterruptibleStep ok q (q.goToSleep t .interruptible)
  | resume {t : ℕ} {tmp : Option ℕ} (hin : q.tmp t = some tmp) (hrun : q.state t = .running)
      (hok : ok q t) : InterruptibleStep ok q (q.wakened t tmp)
  | wake : InterruptibleStep ok q q.wakeUp
  /-- A signal wakes the task, in `schedule`. -/
  | signal {t : ℕ} (hint : q.state t = .interruptible) :
      InterruptibleStep ok q (q.setState (some t) .running)
  | elsewhere {t : ℕ} {st : TaskState} (hout : q.tmp t = none) :
      InterruptibleStep ok q { q with state := Function.update q.state t st }

/-- A task that finds another one in `*p` can still be reached. -/
def NotCutOff (q : WaitQueue) (t : ℕ) : Prop := (∃ v ∈ q.p, v ≠ t) → q.StillReached t

/-- **Nobody is lost**: every sleeper can be reached. -/
def NobodyLost (q : WaitQueue) : Prop := ∀ v, q.Asleep v → q.Reached v

variable {q q' : WaitQueue} {t v : ℕ} {tmp : Option ℕ}

/-- The state of the tasks after `interruptible_sleep_on` has woken the head. -/
theorem wakened_state (hp : q.p = some v) (r : ℕ) :
    ((q.setState q.p .running).setState (some t) .interruptible).state r =
      if r = t then .interruptible else if r = v then .running else q.state r := by
  rw [setState_state, setState_state, hp]
  by_cases hrt : r = t
  · rw [if_pos (congrArg some hrt.symm), if_pos hrt]
  · rw [if_neg fun h => hrt (Option.some.inj h).symm, if_neg hrt]
    by_cases hrv : r = v
    · rw [if_pos (congrArg some hrv.symm), if_pos hrv]
    · rw [if_neg fun h => hrv (Option.some.inj h).symm, if_neg hrv]

theorem link_setState {x : Option ℕ} {st : TaskState} {w u : ℕ} :
    (q.setState x st).Link w u ↔ q.Link w u := by
  unfold Link
  rw [setState_tmp]

/-- **Going back to sleep**: the task is reached then if it was reached otherwise before. -/
theorem reached_wakened (hp : q.p = some v) :
    ((q.setState q.p .running).setState (some t) .interruptible).Reached t ↔ q.StillReached t := by
  have hstate := wakened_state (q := q) (t := t) hp
  have hlink : ∀ w u, ((q.setState q.p .running).setState (some t) .interruptible).Link w u ↔
      q.Link w u := fun w u => link_setState.trans link_setState
  have hrtg : ∀ a b, Relation.ReflTransGen
      ((q.setState q.p .running).setState (some t) .interruptible).Link a b ↔
        Relation.ReflTransGen q.Link a b := fun a b =>
    ⟨Relation.ReflTransGen.mono (fun _ _ h => (hlink _ _).mp h) _ _,
      Relation.ReflTransGen.mono (fun _ _ h => (hlink _ _).mpr h) _ _⟩
  constructor
  · rintro ⟨u, hu, hpath⟩
    rw [hrtg] at hpath
    rcases hu with hu | ⟨r, hr, hl⟩
    · rw [setState_p, setState_p] at hu
      exact ⟨u, Or.inl hu, hpath⟩
    · rw [hlink] at hl
      rw [hstate] at hr
      have hrt : r ≠ t := by
        rintro rfl
        simp at hr
      rw [if_neg hrt] at hr
      by_cases hrv : r = v
      · exact ⟨v, Or.inl hp, .head (hrv ▸ hl) hpath⟩
      · rw [if_neg hrv] at hr
        exact ⟨u, Or.inr ⟨r, hrt, hr, hl⟩, hpath⟩
  · rintro ⟨u, hu, hpath⟩
    refine ⟨u, ?_, (hrtg u t).mpr hpath⟩
    rcases hu with hu | ⟨r, hrt, hr, hl⟩
    · exact Or.inl (by rw [setState_p, setState_p]; exact hu)
    · refine Or.inr ⟨r, ?_, (hlink r u).mpr hl⟩
      rw [hstate, if_neg hrt, hr, ite_self]

theorem NobodyLost.call (h : NobodyLost q) (hout : q.tmp t = none) :
    NobodyLost (q.goToSleep t .interruptible) := by
  intro v hv
  by_cases hvt : v = t
  · exact .source (Or.inl (congrArg some hvt.symm))
  · refine (h v ⟨?_, ?_⟩).goToSleep hout
    · exact (Function.update_of_ne hvt _ q.tmp).symm.trans_ne hv.1
    · exact (Function.update_of_ne hvt _ q.state).symm.trans_ne hv.2

theorem NobodyLost.wakeUp (h : NobodyLost q) : NobodyLost q.wakeUp := by
  have htmp : q.wakeUp.tmp = q.tmp := setState_tmp q.p
  rintro v ⟨hin, hst⟩
  change (q.setState q.p .running).state v ≠ _ at hst
  rw [setState_state] at hst
  have hp : q.p ≠ some v := fun hp => by simp [hp] at hst
  rw [if_neg hp] at hst
  exact (h v ⟨htmp ▸ hin, hst⟩).wakeUp.resolve_left hp

theorem NobodyLost.signal (h : NobodyLost q) (t : ℕ) :
    NobodyLost (q.setState (some t) .running) := by
  rintro v ⟨hin, hst⟩
  rw [setState_tmp] at hin
  rw [setState_state] at hst
  refine (h v ⟨hin, ?_⟩).setState (some t)
  split at hst
  · exact absurd rfl hst
  · exact hst

/-- **The task goes on** after `schedule`. -/
theorem NobodyLost.resume (h : NobodyLost q) (hin : q.tmp t = some tmp)
    (hok : NotCutOff q t) : NobodyLost (q.wakened t tmp) := by
  unfold WaitQueue.wakened
  split
  · next hother =>
    obtain ⟨v, hp, -⟩ := id hother
    have hstate := wakened_state (q := q) (t := t) hp
    have hself := (reached_wakened hp).mpr (hok hother)
    rintro w ⟨hw, hst⟩
    by_cases hwt : w = t
    · exact hwt ▸ hself
    rw [setState_tmp, setState_tmp] at hw
    rw [hstate, if_neg hwt] at hst
    have hwv : w ≠ v := fun hwv => by simp [hwv] at hst
    rw [if_neg hwv] at hst
    have hlink : ∀ {r u}, q.Link r u →
        ((q.setState q.p .running).setState (some t) .interruptible).Link r u := fun hl =>
      link_setState.mpr (link_setState.mpr hl)
    refine (h w ⟨hw, hst⟩).elim (fun u hu => ?_) fun w u hw hl => hw.link (hlink hl)
    rcases hu with hu | ⟨r, hr, hl⟩
    · exact .source (Or.inl (by rw [setState_p, setState_p]; exact hu))
    · have hl' := hlink hl
      by_cases hrt : r = t
      · exact hself.link (hrt ▸ hl')
      · refine .source (Or.inr ⟨r, ?_, hl'⟩)
        rw [hstate, if_neg hrt, hr, ite_self]
  · next hother =>
    -- the head is cleared; it was the task itself, if it was anybody
    have hstate : ∀ r, (({ q with p := none } : WaitQueue).leave t tmp).state r =
        if tmp = some r then .running else q.state r := fun r => setState_state tmp r
    rintro w ⟨hw, hst⟩
    have hwt : w ≠ t := by
      rintro rfl
      exact hw (Function.update_self _ _ _)
    rw [hstate] at hst
    have hne : tmp ≠ some w := fun hs => by simp [hs] at hst
    rw [if_neg hne] at hst
    have ha : q.Asleep w := ⟨(Function.update_of_ne hwt _ _).symm.trans_ne hw, hst⟩
    have hrun : ∀ u, q.Reached u → u = t ∨ tmp = some u ∨
        (({ q with p := none } : WaitQueue).leave t tmp).Reached u := by
      intro u hu
      refine hu.elim (P := fun u => u = t ∨ tmp = some u ∨
        (({ q with p := none } : WaitQueue).leave t tmp).Reached u) (fun u hu => ?_)
        fun w u hw hl => ?_
      · rcases hu with hpu | ⟨r, hr, hl⟩
        · exact Or.inl (by_contra fun hut => hother ⟨u, hpu, hut⟩)
        · exact Reached.leave (q := { q with p := none }) (.source (Or.inr ⟨r, hr, hl⟩)) hin
      · by_cases hwt : w = t
        · refine Or.inr (Or.inl ?_)
          unfold Link at hl
          rw [hwt, hin] at hl
          exact Option.some.inj hl
        · refine Or.inr (Or.inr ?_)
          have hl' : (({ q with p := none } : WaitQueue).leave t tmp).Link w u :=
            link_leave.mpr ⟨hwt, hl⟩
          rcases hw with hw | hw | hw
          · exact absurd hw hwt
          · refine .source (Or.inr ⟨w, ?_, hl'⟩)
            rw [hstate, if_pos hw]
          · exact hw.link hl'
    exact ((hrun w (h w ha)).resolve_left hwt).resolve_left hne

theorem NobodyLost.elsewhere (h : NobodyLost q) {st : TaskState} (hout : q.tmp t = none) :
    NobodyLost { q with state := Function.update q.state t st } := by
  have hstate : ∀ v, q.tmp v ≠ none → Function.update q.state t st v = q.state v := fun v hv =>
    Function.update_of_ne (fun hvt => hv (by rw [hvt, hout])) _ _
  rintro v ⟨hv, hst⟩
  refine (h v ⟨hv, (hstate v hv).symm.trans_ne hst⟩).elim (fun u hu => ?_) fun w u hw hl =>
    hw.link hl
  rcases hu with hp | ⟨r, hr, hl⟩
  · exact .source (Or.inl hp)
  · refine .source (Or.inr ⟨r, (hstate r ?_).trans hr, hl⟩)
    unfold Link at hl
    simp [hl]

theorem NobodyLost.step (h : NobodyLost q) (hs : InterruptibleStep NotCutOff q q') :
    NobodyLost q' := by
  cases hs with
  | call _ hout _ => exact h.call hout
  | resume hin _ hok => exact h.resume hin hok
  | wake => exact h.wakeUp
  | signal _ => exact h.signal _
  | elsewhere hout => exact h.elsewhere hout

/-- **A task that is cut off is lost**: it sleeps on, and no `wake_up` finds it. -/
theorem wakened_lost (hin : q.tmp t = some tmp) (hcut : ¬NotCutOff q t) :
    (q.wakened t tmp).tmp t ≠ none ∧ (q.wakened t tmp).state t = .interruptible ∧
      ¬(q.wakened t tmp).Reached t := by
  unfold NotCutOff at hcut
  rw [Classical.not_imp] at hcut
  obtain ⟨hother, hnot⟩ := hcut
  obtain ⟨v, hp, -⟩ := id hother
  unfold WaitQueue.wakened
  rw [if_pos hother, setState_tmp, setState_tmp]
  refine ⟨by simp [hin], ?_, fun hr => hnot ((reached_wakened hp).mp hr)⟩
  rw [wakened_state hp, if_pos rfl]

/-- **`interruptible_sleep_on` loses nobody** in a run in which a task that wakes up and
finds another one in `*p` can still be reached; and where that is not so, the task is
lost. -/
theorem interruptibleSleepOn_loses_nobody (q : WaitQueue) :
    (Reachable Empty (InterruptibleStep NotCutOff) q →
      ∀ v, q.tmp v ≠ none → q.state v = .interruptible → q.Reached v) ∧
    ∀ t tmp, q.tmp t = some tmp → q.state t = .running → ¬NotCutOff q t →
      (q.wakened t tmp).tmp t ≠ none ∧ (q.wakened t tmp).state t = .interruptible ∧
        ¬(q.wakened t tmp).Reached t := by
  refine ⟨fun h v hin hst => ?_, fun t tmp hin _ hcut => ?_⟩
  · have hlost := h.inv (I := NobodyLost) (fun q hq v hv => absurd (hq.2 v) hv.1)
      fun _ _ => NobodyLost.step
    exact hlost v ⟨hin, by rw [hst]; simp⟩
  · exact wakened_lost hin hcut

/-- The run that loses a task: the task 1 sleeps and is woken, the task 2 comes before it
has run on. -/
def lostSleeper : WaitQueue :=
  ((noSleepers.goToSleep 1 .interruptible).wakeUp.goToSleep 2 .interruptible).wakened 1 none

/-- **A task is lost** that is woken just before another one comes. -/
theorem not_nobodyLost : ¬∀ q, Reachable Empty (InterruptibleStep fun _ _ => True) q →
    ∀ v, q.tmp v ≠ none → q.state v = .interruptible → q.Reached v := by
  intro h
  have hreach : Reachable Empty (InterruptibleStep fun _ _ => True) lostSleeper :=
    ((((Reachable.start (s := noSleepers) ⟨rfl, fun _ => rfl⟩).next
      (.call (t := 1) (by decide) rfl rfl)).next .wake).next
      (.call (t := 2) (by decide) rfl rfl)).next (.resume (t := 1) rfl rfl trivial)
  have hcut : ¬NotCutOff
      ((noSleepers.goToSleep 1 .interruptible).wakeUp.goToSleep 2 .interruptible) 1 := by
    intro hcut
    obtain ⟨u, hu, hpath⟩ := hcut ⟨2, rfl, by decide⟩
    have hnolink : ∀ w v, ¬((noSleepers.goToSleep 1 .interruptible).wakeUp.goToSleep 2
        .interruptible).Link w v := by
      intro w v hl
      by_cases hw2 : w = 2
      · subst hw2
        cases hl
      · by_cases hw1 : w = 1
        · subst hw1
          cases hl
        · unfold Link goToSleep WaitQueue.wakeUp at hl
          simp [hw1, hw2, noSleepers] at hl
    rcases hu with hp | ⟨r, -, -, hl⟩
    · obtain rfl := Option.some.inj hp
      rcases Relation.ReflTransGen.cases_tail hpath with h12 | ⟨w, -, hl⟩
      · cases h12
      · exact hnolink w 1 hl
    · exact hnolink r u hl
  obtain ⟨hin, hst, hnot⟩ := wakened_lost (q := (noSleepers.goToSleep 1
    .interruptible).wakeUp.goToSleep 2 .interruptible) (t := 1) rfl hcut
  exact hnot (h _ hreach 1 hin hst)

end InterruptibleSleepOn

end Linux011.Kernel

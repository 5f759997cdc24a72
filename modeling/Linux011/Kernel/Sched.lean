import Linux011.Kernel.Process

/-!
# The scheduler

`schedule`, `sys_nice` and the part of `do_timer` that is about the time slice, from
`kernel/sched.c`, and what `copy_process` does to the scheduling fields, in 32 bits.

When the time slices of all running tasks are used up, `schedule` gives every task, asleep or not,
half of what it has left and its priority on top. What a task can save up in this way stays below
twice the highest priority it has ever had. The guard of `sys_nice` keeps a priority positive; but
it lets anybody have any positive priority, and above 2³⁰ the counter of a task that sleeps long
enough overflows (`Linux011.Kernel.Sched.recalculate_overflows`). Below, nothing goes wrong
(`Linux011.Kernel.Sched.scheduling_sane`).

A call of `schedule` is a step of its own: interrupts may come between what leads to it and the
call.
-/

namespace Linux011.Kernel.Sched

open Process (State)

/-! ### The tasks -/

/-- What the scheduler looks at in a task. -/
structure Task where
  state : State
  counter : BitVec 32
  priority : BitVec 32
  signal : BitVec 32
  blocked : BitVec 32
  alarm : BitVec 32

/-- `task[NR_TASKS]`, `current` and `jiffies`. -/
structure Sys where
  task : ℕ → Option Task
  current : ℕ
  jiffies : BitVec 32

/-- `NR_TASKS`. -/
def nrTasks : ℕ := 64

/-- A store into `task[p]`. -/
def Sys.set (s : Sys) (p : ℕ) (t : Option Task) : Sys :=
  { s with task := Function.update s.task p t }

theorem Sys.set_task (s : Sys) (p : ℕ) (t : Option Task) (q : ℕ) :
    (s.set p t).task q = if q = p then t else s.task q := Function.update_apply ..

/-- A loop from `LAST_TASK` down to the task after `FIRST_TASK`, that does something to each. -/
def Sys.each (s : Sys) (f : Task → Task) : Sys :=
  { s with task := fun p => if 0 < p ∧ p < nrTasks then (s.task p).map f else s.task p }

/-! ### `schedule` -/

/-- `1<<(SIGALRM-1)`. -/
def sigalrm : BitVec 32 := 0x2000#32

/-- `_BLOCKABLE`: all but `SIGKILL` and `SIGSTOP`. -/
def blockable : BitVec 32 := ~~~0x40100#32

/-- The alarm of a task, when it is over. -/
def checkAlarm (jiffies : BitVec 32) (p : Task) : Task :=
  if p.alarm ≠ 0#32 ∧ p.alarm.slt jiffies then
    { p with signal := p.signal ||| sigalrm, alarm := 0#32 }
  else p

/-- A task that can be interrupted is woken by a signal. -/
def checkSignal (p : Task) : Task :=
  if p.signal &&& ~~~(blockable &&& p.blocked) ≠ 0#32 ∧ p.state = .interruptible then
    { p with state := .running }
  else p

/-- The scheduler's look at all tasks but the first, from `i` down: `c` is the highest counter so
far, and `next` the task that has it. -/
def scan (task : ℕ → Option Task) : ℕ → BitVec 32 → ℕ → BitVec 32 × ℕ
  | 0, c, next => (c, next)
  | i + 1, c, next =>
    match task (i + 1) with
    | none => scan task i c next
    | some p =>
      if p.state = .running ∧ c.slt p.counter then scan task i p.counter (i + 1)
      else scan task i c next

/-- `(*p)->counter = ((*p)->counter >> 1) + (*p)->priority`. -/
def recalculate (p : Task) : Task := { p with counter := p.counter.sshiftRight 1 + p.priority }

/-- The scheduler proper, for so many rounds. -/
def pick : ℕ → Sys → Option (Sys × ℕ)
  | 0, _ => none
  | n + 1, s =>
    if (scan s.task (nrTasks - 1) (-1#32) 0).1 ≠ 0#32 then
      some (s, (scan s.task (nrTasks - 1) (-1#32) 0).2)
    else pick n (s.each recalculate)

/-- **`schedule`.** Two rounds are enough (`Linux011.Kernel.Sched.schedule_eq`). -/
def schedule (s : Sys) : Option Sys :=
  (pick 2 (s.each fun p => checkSignal (checkAlarm s.jiffies p))).map fun r =>
    { r.1 with current := r.2 }

/-! ### The clock, nice and fork -/

/-- `do_timer`, from `--current->counter` on, and whether it ends in a call of `schedule`. -/
def doTimer (cpl : Bool) (current : Task) : Task × Bool :=
  if (0#32).slt (current.counter - 1#32) then
    ({ current with counter := current.counter - 1#32 }, false)
  else ({ current with counter := 0#32 }, cpl)

/-- `sys_nice`. -/
def sysNice (increment : BitVec 32) (current : Task) : Task :=
  if (0#32).slt (current.priority - increment) then
    { current with priority := current.priority - increment }
  else current

/-- The scheduling fields of a new task. -/
def copyProcess (current : Task) : Task :=
  { current with
    state := .running
    counter := current.priority
    signal := 0#32
    alarm := 0#32 }

/-! ### Runs -/

/-- `INIT_TASK`. -/
def initTask : Task := ⟨.running, 15#32, 15#32, 0#32, 0#32, 0#32⟩

/-- Only task 0 is there, and it runs. -/
def Boot (s : Sys) : Prop :=
  s.task = Function.update (fun _ => none) 0 (some initTask) ∧ s.current = 0

/-- **A step.** The priorities that `sys_nice` leaves are those of `N`. Tasks are woken by others
and by interrupts, and so are signals raised. -/
inductive Step (N : BitVec 32 → Prop) (s : Sys) : Sys → Prop
  | nice {t : Task} (increment : BitVec 32) (hc : s.task s.current = some t)
    (hN : N (sysNice increment t).priority) :
    Step N s (s.set s.current (some (sysNice increment t)))
  | fork {t : Task} {nr : ℕ} (hc : s.task s.current = some t) (hnr : s.task nr = none)
    (hlt : nr < nrTasks) :
    Step N s (s.set nr (some (copyProcess t)))
  | tick {t : Task} (cpl : Bool) (hc : s.task s.current = some t) :
    Step N s { s.set s.current (some (doTimer cpl t).1) with jiffies := s.jiffies + 1#32 }
  | state {p : ℕ} {t : Task} (st : State) (hp : s.task p = some t) :
    Step N s (s.set p (some { t with state := st }))
  | signal {p : ℕ} {t : Task} (signal blocked alarm : BitVec 32) (hp : s.task p = some t) :
    Step N s (s.set p (some { t with signal := signal, blocked := blocked, alarm := alarm }))
  | schedule {s' : Sys} (h : schedule s = some s') : Step N s s'
  | release {p : ℕ} {t : Task} (hp : s.task p = some t) (hz : t.state = .zombie) :
    Step N s (s.set p none)

/-- **A priority that is not too high.** -/
def Moderate (priority : BitVec 32) : Prop := priority.toInt ≤ 2 ^ 30

/-! ### One task -/

variable {s s' : Sys} {t : Task} {p n : ℕ}

/-- **The scheduling parameters are sane.** -/
structure Sane (t : Task) : Prop where
  priority_pos : 1 ≤ t.priority.toInt
  priority_le : t.priority.toInt ≤ 2 ^ 30
  counter_nonneg : 0 ≤ t.counter.toInt

theorem toInt_lt (x : BitVec 32) : x.toInt < 2 ^ 31 := BitVec.toInt_lt

/-- What fits in 32 bits is not changed. -/
theorem bmod_of_lt {x : ℤ} (h : -2 ^ 31 ≤ x) (h' : x < 2 ^ 31) : x.bmod (2 ^ 32) = x := by
  rw [Int.bmod_def]
  omega

theorem toInt_add_of_lt {x y : BitVec 32} (h : -2 ^ 31 ≤ x.toInt + y.toInt)
    (h' : x.toInt + y.toInt < 2 ^ 31) : (x + y).toInt = x.toInt + y.toInt := by
  rw [BitVec.toInt_add]
  exact bmod_of_lt h h'

theorem toInt_half (x : BitVec 32) : (x.sshiftRight 1).toInt = x.toInt / 2 := by
  rw [BitVec.toInt_sshiftRight, Int.shiftRight_eq_div_pow]
  rfl

theorem pos_of_slt {x : BitVec 32} (h : (0#32).slt x = true) : 0 < x.toInt := by
  simpa [BitVec.slt] using h

/-- **A recalculation is exact**, and the counter it leaves is not negative. -/
theorem Sane.recalculate_toInt (h : Sane t) :
    (recalculate t).counter.toInt = t.counter.toInt / 2 + t.priority.toInt := by
  have hlt := toInt_lt t.counter
  have hp := h.priority_pos
  have hp' := h.priority_le
  have hc := h.counter_nonneg
  have hhalf := toInt_half t.counter
  rw [recalculate, toInt_add_of_lt (by omega) (by omega), hhalf]

theorem Sane.recalculate (h : Sane t) : Sane (recalculate t) := by
  refine ⟨h.priority_pos, h.priority_le, ?_⟩
  have hp := h.priority_pos
  have hc := h.counter_nonneg
  rw [h.recalculate_toInt]
  omega

theorem Sane.check (h : Sane t) (jiffies : BitVec 32) :
    Sane (checkSignal (checkAlarm jiffies t)) := by
  have halarm : Sane (checkAlarm jiffies t) := by
    rw [checkAlarm]
    split
    · exact ⟨h.1, h.2, h.3⟩
    · exact h
  rw [checkSignal]
  split
  · exact ⟨halarm.1, halarm.2, halarm.3⟩
  · exact halarm

theorem Sane.doTimer (h : Sane t) (cpl : Bool) : Sane (doTimer cpl t).1 := by
  rw [Sched.doTimer]
  split
  · next hs => exact ⟨h.1, h.2, (pos_of_slt hs).le⟩
  · exact ⟨h.1, h.2, (by decide : (0 : ℤ) ≤ (0#32).toInt)⟩

/-- `sys_nice` leaves a positive priority, whatever it is given. -/
theorem sysNice_pos (h : 1 ≤ t.priority.toInt) (increment : BitVec 32) :
    1 ≤ (sysNice increment t).priority.toInt := by
  rw [sysNice]
  split
  · next hs => exact pos_of_slt hs
  · exact h

theorem Sane.sysNice (h : Sane t) {increment : BitVec 32}
    (hN : Moderate (sysNice increment t).priority) : Sane (sysNice increment t) := by
  refine ⟨sysNice_pos h.priority_pos increment, hN, ?_⟩
  rw [Sched.sysNice]
  split <;> exact h.counter_nonneg

theorem Sane.copyProcess (h : Sane t) : Sane (copyProcess t) :=
  ⟨h.1, h.2, (Int.zero_le_ofNat 1).trans h.1⟩

/-! ### The scan -/

/-- **What a scan finds**, that goes on from the counter `c` of the task `next`: a running task
that has a counter as high as any, or nothing that is better than what it goes on from. -/
structure Found (task : ℕ → Option Task) (n : ℕ) (c : BitVec 32) (next : ℕ) (r : BitVec 32 × ℕ) :
    Prop where
  le : c.toInt ≤ r.1.toInt
  all : ∀ i t, 0 < i → i ≤ n → task i = some t → t.state = .running → t.counter.toInt ≤ r.1.toInt
  source : r = (c, next) ∨ ∃ t, 0 < r.2 ∧ r.2 ≤ n ∧ task r.2 = some t ∧ t.state = .running ∧
    t.counter = r.1

/-- A task that is no better is passed over. -/
theorem Found.pass {task : ℕ → Option Task} {c : BitVec 32} {next : ℕ} {r : BitVec 32 × ℕ}
    (h : Found task n c next r)
    (hp : ∀ t, task (n + 1) = some t → t.state = .running → t.counter.toInt ≤ c.toInt) :
    Found task (n + 1) c next r := by
  refine ⟨h.le, fun i t hi hn ht hr => ?_, ?_⟩
  · rcases Nat.lt_or_ge n i with hni | hni
    · obtain rfl : i = n + 1 := by omega
      exact (hp t ht hr).trans h.le
    · exact h.all i t hi hni ht hr
  · rcases h.source with hs | ⟨t, hpos, hn, ht⟩
    · exact Or.inl hs
    · exact Or.inr ⟨t, hpos, by omega, ht⟩

/-- A better task is taken. -/
theorem Found.take {task : ℕ → Option Task} {c : BitVec 32} {next : ℕ} {r : BitVec 32 × ℕ}
    (h : Found task n t.counter (n + 1) r) (ht : task (n + 1) = some t) (hr : t.state = .running)
    (hlt : c.toInt < t.counter.toInt) : Found task (n + 1) c next r := by
  refine ⟨hlt.le.trans h.le, fun i t' hi hn ht' hr' => ?_, Or.inr ?_⟩
  · rcases Nat.lt_or_ge n i with hni | hni
    · obtain rfl : i = n + 1 := by omega
      rw [ht] at ht'
      exact Option.some.inj ht' ▸ h.le
    · exact h.all i t' hi hni ht' hr'
  · rcases h.source with rfl | ⟨t', hpos, hn, ht'⟩
    · exact ⟨t, Nat.succ_pos n, le_rfl, ht, hr, rfl⟩
    · exact ⟨t', hpos, by omega, ht'⟩

theorem scan_found (task : ℕ → Option Task) (n : ℕ) (c : BitVec 32) (next : ℕ) :
    Found task n c next (scan task n c next) := by
  induction n generalizing c next with
  | zero => exact ⟨le_rfl, fun i t hi hn => absurd hn (by omega), Or.inl rfl⟩
  | succ n ih =>
    rw [scan]
    cases ht : task (n + 1) with
    | none =>
      refine (ih c next).pass fun t ht' => ?_
      cases ht.symm.trans ht'
    | some t =>
      dsimp only
      split
      · next hbetter =>
        exact (ih t.counter (n + 1)).take ht hbetter.1 (by simpa [BitVec.slt] using hbetter.2)
      · next hnot =>
        refine (ih c next).pass fun t' ht' hr => ?_
        obtain rfl := Option.some.inj (ht.symm.trans ht')
        simpa [BitVec.slt] using fun hs => hnot ⟨hr, hs⟩

/-! ### All tasks -/

/-- Every task is sane. -/
def AllSane (s : Sys) : Prop := ∀ p t, s.task p = some t → Sane t

theorem AllSane.set (h : AllSane s) {o : Option Task} (ho : ∀ t, o = some t → Sane t) :
    AllSane (s.set p o) := by
  intro q t hq
  rw [Sys.set_task] at hq
  split_ifs at hq
  · exact ho t hq
  · exact h q t hq

/-- What a loop over the tasks does to one. -/
theorem Sys.each_task (s : Sys) (f : Task → Task) (h : 0 < p) (hlt : p < nrTasks) :
    (s.each f).task p = (s.task p).map f := if_pos ⟨h, hlt⟩

theorem AllSane.each (h : AllSane s) {f : Task → Task} (hf : ∀ t, Sane t → Sane (f t)) :
    AllSane (s.each f) := by
  intro q t hq
  rw [Sys.each] at hq
  dsimp only at hq
  split at hq
  · obtain ⟨t', ht', rfl⟩ := Option.map_eq_some_iff.mp hq
    exact hf t' (h q t' ht')
  · exact h q t hq

/-- **The CPU is not given to task 0** while another task is running. -/
def NotIdle (s : Sys) (next : ℕ) : Prop :=
  next = 0 → ∀ p t, 0 < p → p < nrTasks → s.task p = some t → t.state ≠ .running

/-- The scan is over when it has not found zero: it has found the running task it returns, or there
is none. -/
theorem notIdle_scan (h : AllSane s) : NotIdle s (scan s.task (nrTasks - 1) (-1#32) 0).2 := by
  have hf := scan_found s.task (nrTasks - 1) (-1#32) 0
  intro hnext p t hp hlt ht hr
  rcases hf.source with hs | ⟨t', hpos, -⟩
  · have hle := hf.all p t hp (by omega) ht hr
    have hc := (h p t ht).counter_nonneg
    have hneg : (scan s.task (nrTasks - 1) (-1#32) 0).1.toInt = -1 := by
      rw [hs]
      decide
    omega
  · omega

/-- **One recalculation is enough**: a task whose counter was zero has its priority then. -/
theorem pick_two (h : AllSane s) : ∃ s' next, pick 2 s = some (s', next) ∧ AllSane s' ∧
    NotIdle s' next := by
  rw [pick]
  split
  · exact ⟨s, _, rfl, h, notIdle_scan h⟩
  · next hzero =>
    rw [ne_eq, Decidable.not_not] at hzero
    have h' : AllSane (s.each recalculate) := h.each fun _ => Sane.recalculate
    refine ⟨_, _, ?_, h', notIdle_scan h'⟩
    rw [pick, if_pos]
    intro hzero'
    have hf := scan_found s.task (nrTasks - 1) (-1#32) 0
    have hf' := scan_found (s.each recalculate).task (nrTasks - 1) (-1#32) 0
    rcases hf.source with hs | ⟨t, hpos, hn, ht, hr, hc⟩
    · rw [hs] at hzero
      exact absurd hzero (by decide)
    · obtain ⟨i, hi⟩ : ∃ i, (scan s.task (nrTasks - 1) (-1#32) 0).2 = i := ⟨_, rfl⟩
      rw [hi] at hpos hn ht
      have hlt : i < nrTasks := by rw [nrTasks] at hn ⊢; omega
      have hle := hf'.all i (recalculate t) hpos hn
        (by rw [Sys.each_task s _ hpos hlt, ht]; rfl) hr
      have hsane := h i t ht
      rw [hsane.recalculate_toInt, hzero'] at hle
      have hpr := hsane.priority_pos
      have hcn := hsane.counter_nonneg
      have hz : (0#32).toInt = 0 := by decide
      omega

/-- **`schedule` comes to an end**, and does not idle without need. -/
theorem schedule_eq (h : AllSane s) :
    ∃ s', schedule s = some s' ∧ AllSane s' ∧ NotIdle s' s'.current := by
  have h' : AllSane (s.each fun p => checkSignal (checkAlarm s.jiffies p)) :=
    h.each fun _ ht => ht.check s.jiffies
  obtain ⟨s', next, hpick, hsane, hidle⟩ := pick_two h'
  refine ⟨{ s' with current := next }, ?_, hsane, hidle⟩
  rw [schedule, hpick]
  rfl

/-! ### Every run -/

/-- **A step** keeps the parameters sane. -/
theorem AllSane.step (h : AllSane s) (hs : Step Moderate s s') : AllSane s' := by
  cases hs with
  | nice increment hc hN =>
    exact h.set fun _ ht => Option.some.inj ht ▸ (h _ _ hc).sysNice hN
  | fork hc => exact h.set fun _ ht => Option.some.inj ht ▸ (h _ _ hc).copyProcess
  | tick cpl hc => exact h.set fun _ ht => Option.some.inj ht ▸ (h _ _ hc).doTimer cpl
  | state st hp =>
    exact h.set fun _ ht => Option.some.inj ht ▸ ⟨(h _ _ hp).1, (h _ _ hp).2, (h _ _ hp).3⟩
  | signal signal blocked alarm hp =>
    exact h.set fun _ ht => Option.some.inj ht ▸ ⟨(h _ _ hp).1, (h _ _ hp).2, (h _ _ hp).3⟩
  | schedule hs =>
    obtain ⟨s'', heq, hsane, -⟩ := schedule_eq h
    exact Option.some.inj (heq.symm.trans hs) ▸ hsane
  | release hp => exact h.set (by rintro _ ⟨⟩)

theorem allSane_boot (h : Boot s) : AllSane s := by
  intro p t hp
  rw [h.1, Function.update_apply] at hp
  split_ifs at hp
  obtain rfl := Option.some.inj hp
  exact ⟨by decide, by decide, by decide⟩

/-! ### Priorities that are too high -/

/-- **A high priority overflows**: above 2³⁰, one of the next recalculations of a task that
sleeps is not exact. -/
theorem recalculate_overflows (hp : 2 ^ 30 < t.priority.toInt) (hc : 0 ≤ t.counter.toInt) :
    ∃ n, (recalculate (recalculate^[n] t)).counter.toInt ≠
      (recalculate^[n] t).counter.toInt / 2 + (recalculate^[n] t).priority.toInt := by
  by_contra hex
  push Not at hex
  have hprio : ∀ n, (recalculate^[n] t).priority = t.priority := by
    intro n
    induction n with
    | zero => rfl
    | succ n ih =>
      rw [Function.iterate_succ_apply']
      exact ih
  -- the counter grows at each recalculation, as long as it is below twice the priority
  have hgrow : ∀ n : ℕ, (n : ℤ) ≤ (recalculate^[n] t).counter.toInt := by
    intro n
    induction n with
    | zero => exact hc
    | succ n ih =>
      have hlt := toInt_lt (recalculate^[n] t).counter
      have hstep := hex n
      rw [hprio] at hstep
      rw [Function.iterate_succ_apply', hstep]
      push_cast
      omega
  obtain ⟨n, hn⟩ : ∃ n : ℕ, (n : ℤ) = 2 ^ 31 := ⟨2 ^ 31, rfl⟩
  have hle := hgrow n
  have hlt := toInt_lt (recalculate^[n] t).counter
  omega

/-- **The scheduling parameters stay sane** in every run in which no call of `sys_nice` leaves a
priority above 2³⁰: the priorities are positive and the counters not negative, a recalculation is
exact, and `schedule` gives the CPU to task 0 only when no other task is running. Above 2³⁰
the recalculations do not stay exact. -/
theorem scheduling_sane (s : Sys) :
    (Reachable Boot (Step Moderate) s →
      (∀ p t, s.task p = some t → 1 ≤ t.priority.toInt ∧ 0 ≤ t.counter.toInt ∧
        (recalculate t).counter.toInt = t.counter.toInt / 2 + t.priority.toInt) ∧
      ∃ s', schedule s = some s' ∧ (s'.current = 0 →
        ∀ p t, 0 < p → p < nrTasks → s'.task p = some t → t.state ≠ .running)) ∧
    ∀ t : Task, 2 ^ 30 < t.priority.toInt → 0 ≤ t.counter.toInt →
      ∃ n, (recalculate (recalculate^[n] t)).counter.toInt ≠
        (recalculate^[n] t).counter.toInt / 2 + (recalculate^[n] t).priority.toInt := by
  refine ⟨fun h => ?_, fun t => recalculate_overflows⟩
  have hs : AllSane s := h.inv (fun _ => allSane_boot) fun _ _ => AllSane.step
  constructor
  · intro p t hp
    have ht := hs p t hp
    exact ⟨ht.priority_pos, ht.counter_nonneg, ht.recalculate_toInt⟩
  · obtain ⟨s', heq, -, hidle⟩ := schedule_eq hs
    exact ⟨s', heq, hidle⟩

/-- The start, and task 1 forked. -/
def forked : Sys :=
  ⟨Function.update (Function.update (fun _ => none) 0 (some initTask)) 1
    (some (copyProcess initTask)), 0, 0#32⟩

/-- Task 1 is scheduled. -/
def forkedNext : Sys :=
  { forked.each fun p => checkSignal (checkAlarm 0#32 p) with current := 1 }

theorem schedule_forked : schedule forked = some forkedNext := rfl

/-- **A recalculation goes wrong** for a task that has asked for the highest priority there is. -/
theorem not_scheduling_sane :
    ¬∀ s, Reachable Boot (Step fun _ => True) s →
      (∀ p t, s.task p = some t → 1 ≤ t.priority.toInt ∧ 0 ≤ t.counter.toInt ∧
        (recalculate t).counter.toInt = t.counter.toInt / 2 + t.priority.toInt) ∧
      ∃ s', schedule s = some s' ∧ (s'.current = 0 →
        ∀ p t, 0 < p → p < nrTasks → s'.task p = some t → t.state ≠ .running) := by
  intro h
  have h0 : Reachable Boot (Step fun _ => True)
      ⟨Function.update (fun _ => none) 0 (some initTask), 0, 0#32⟩ := .start ⟨rfl, rfl⟩
  have h1 : Reachable Boot (Step fun _ => True) forked :=
    h0.next (.fork (t := initTask) rfl rfl (by decide))
  have h2 := h1.next (.schedule schedule_forked)
  have h3 := h2.next (.nice (t := copyProcess initTask) (BitVec.ofInt 32 (-2147483632)) rfl trivial)
  have hexact := ((h _ h3).1 1 _ rfl).2.2
  exact absurd hexact (by decide)

end Linux011.Kernel.Sched

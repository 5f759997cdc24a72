import Linux011.Kernel.Sched

/-!
# Whom the scheduler chooses

One call of `schedule` (`Linux011.Kernel.Sched.schedule`), from any task table whose counters can be
recalculated without an overflow (`Linux011.Kernel.Sched.Decent`). First the tasks are woken that
have got a signal. Then the counters are looked at, from the last task down: the choice falls on the
first that has the highest (`Linux011.Kernel.Sched.Best`), and on task 0 when nobody is running. It
is put off by one recalculation when the highest counter is 0, and not again
(`Linux011.Kernel.Sched.schedule_picks`).
-/

namespace Linux011.Kernel.Sched

/-- **A task whose counter can be recalculated.** -/
structure Decent (t : Task) : Prop where
  priority_pos : 1 ≤ t.priority.toInt
  counter_nonneg : 0 ≤ t.counter.toInt
  lt : t.counter.toInt / 2 + t.priority.toInt < 2 ^ 31

/-- Every task but the first is decent. -/
def AllDecent (s : Sys) : Prop :=
  ∀ p t, 0 < p → p < nrTasks → s.task p = some t → Decent t

/-- **A signal that is to wake the task**: it is pending, or that of an alarm that is over, and it
is not blocked or cannot be. -/
def Woken (jiffies : BitVec 32) (t : Task) : Prop :=
  (t.signal ||| if t.alarm ≠ 0#32 ∧ t.alarm.slt jiffies then sigalrm else 0#32) &&&
    ~~~(blockable &&& t.blocked) ≠ 0#32

/-- The tasks, when those that have got a signal have been woken. -/
def Sys.checked (s : Sys) : Sys := s.each fun p => checkSignal (checkAlarm s.jiffies p)

/-- **The choice** of `schedule`. -/
structure Chosen (s s' : Sys) : Prop where
  /-- The counters have been recalculated once, or not at all. -/
  rounds : s'.task = s.checked.task ∨ s'.task = (s.checked.each recalculate).task
  /-- Whoever has got a signal has been woken before. -/
  woken : ∀ p t, 0 < p → p < nrTasks → s.task p = some t → t.state = .interruptible →
    Woken s.jiffies t → ∃ t', s.checked.task p = some t' ∧ t'.state = .running
  /-- Task 0 is chosen when no other task is running. -/
  idle : s'.current = 0 ↔ ∀ p t, 0 < p → p < nrTasks → s'.task p = some t → t.state ≠ .running
  /-- Another that is chosen is running, and none has a higher counter, nor as high a counter and
  a higher number. -/
  best : s'.current ≠ 0 → s'.current < nrTasks ∧ ∃ t, s'.task s'.current = some t ∧
    t.state = .running ∧ ∀ p t', 0 < p → p < nrTasks → s'.task p = some t' → t'.state = .running →
      t'.counter.toInt ≤ t.counter.toInt ∧
        (t'.counter.toInt = t.counter.toInt → p ≤ s'.current)

/-! ### One task -/

variable {s : Sys} {t : Task} {task : ℕ → Option Task} {c : BitVec 32} {next n : ℕ}
  {r : BitVec 32 × ℕ}

theorem Decent.recalculate_toInt (h : Decent t) :
    (recalculate t).counter.toInt = t.counter.toInt / 2 + t.priority.toInt := by
  have hp := h.priority_pos
  have hc := h.counter_nonneg
  have hlt := h.lt
  have hhalf := toInt_half t.counter
  rw [recalculate, toInt_add_of_lt (by omega) (by omega), hhalf]

theorem checkAlarm_eq (jiffies : BitVec 32) (t : Task) : (checkAlarm jiffies t).signal =
    t.signal ||| if t.alarm ≠ 0#32 ∧ t.alarm.slt jiffies then sigalrm else 0#32 := by
  rw [checkAlarm]
  split
  · rfl
  · rw [BitVec.or_zero]

/-- What is looked at before the choice is not the counter. -/
theorem check_counter (jiffies : BitVec 32) (t : Task) :
    (checkSignal (checkAlarm jiffies t)).counter = t.counter ∧
      (checkSignal (checkAlarm jiffies t)).priority = t.priority := by
  rw [checkSignal, checkAlarm]
  split_ifs
  all_goals exact ⟨rfl, rfl⟩

theorem checkSignal_running (h : t.state = .interruptible) (jiffies : BitVec 32)
    (hw : Woken jiffies t) : (checkSignal (checkAlarm jiffies t)).state = .running := by
  have hstate : (checkAlarm jiffies t).state = t.state := by
    rw [checkAlarm]
    split
    · rfl
    · rfl
  have hblocked : (checkAlarm jiffies t).blocked = t.blocked := by
    rw [checkAlarm]
    split
    · rfl
    · rfl
  rw [checkSignal, if_pos]
  rw [checkAlarm_eq, hblocked, hstate]
  exact ⟨hw, h⟩

theorem AllDecent.checked (h : AllDecent s) : AllDecent s.checked := by
  intro p t hp hlt ht
  rw [Sys.checked, Sys.each_task s _ hp hlt] at ht
  obtain ⟨t', ht', rfl⟩ := Option.map_eq_some_iff.mp ht
  have hd := h p t' hp hlt ht'
  obtain ⟨hc, hpr⟩ := check_counter s.jiffies t'
  exact ⟨hpr ▸ hd.1, hc ▸ hd.2, by rw [hc, hpr]; exact hd.3⟩

/-- After a recalculation every counter is positive. -/
theorem AllDecent.recalculate (h : AllDecent s) {p : ℕ} (hp : 0 < p) (hlt : p < nrTasks)
    (ht : (s.each recalculate).task p = some t) : 1 ≤ t.counter.toInt := by
  rw [Sys.each_task s _ hp hlt] at ht
  obtain ⟨t', ht', rfl⟩ := Option.map_eq_some_iff.mp ht
  have hd := h p t' hp hlt ht'
  have hpr := hd.priority_pos
  have hc := hd.counter_nonneg
  rw [hd.recalculate_toInt]
  omega

/-! ### The scan -/

/-- **The best of the first `n` tasks**, when there is one that is better than `c`: the last of
those that have the highest counter. -/
inductive Best (task : ℕ → Option Task) (n : ℕ) (c : BitVec 32) (next : ℕ) :
    BitVec 32 × ℕ → Prop
  | keep (h : ∀ i t, 0 < i → i ≤ n → task i = some t → t.state = .running →
      t.counter.toInt ≤ c.toInt) : Best task n c next (c, next)
  | take {i : ℕ} {t : Task} (hi : 0 < i) (hn : i ≤ n) (ht : task i = some t)
      (hr : t.state = .running) (hlt : c.toInt < t.counter.toInt)
      (h : ∀ j t', 0 < j → j ≤ n → task j = some t' → t'.state = .running →
        t'.counter.toInt ≤ t.counter.toInt ∧ (t'.counter.toInt = t.counter.toInt → j ≤ i)) :
      Best task n c next (t.counter, i)

/-- A task that is no better is passed over. -/
theorem Best.pass (h : Best task n c next r)
    (hp : ∀ t, task (n + 1) = some t → t.state = .running → t.counter.toInt ≤ c.toInt) :
    Best task (n + 1) c next r := by
  cases h with
  | keep h =>
    refine .keep fun i t hi hn ht hr => ?_
    by_cases hin : i = n + 1
    · exact hp t (hin ▸ ht) hr
    · exact h i t hi (by omega) ht hr
  | take hi hn ht hr hlt h =>
    refine .take hi (by omega) ht hr hlt fun j t' hj hjn ht' hr' => ?_
    by_cases hin : j = n + 1
    · have hle := hp t' (hin ▸ ht') hr'
      exact ⟨by omega, fun heq => by omega⟩
    · exact h j t' hj (by omega) ht' hr'

/-- A better task is taken, and passed over for one that is better still. -/
theorem Best.better (h : Best task n t.counter (n + 1) r) (ht : task (n + 1) = some t)
    (hr : t.state = .running) (hlt : c.toInt < t.counter.toInt) :
    Best task (n + 1) c next r := by
  cases h with
  | keep h =>
    refine .take (Nat.succ_pos n) le_rfl ht hr hlt fun j t' hj hjn ht' hr' => ?_
    by_cases hin : j = n + 1
    · obtain rfl := Option.some.inj (ht.symm.trans (hin ▸ ht'))
      exact ⟨le_rfl, fun _ => hjn⟩
    · exact ⟨h j t' hj (by omega) ht' hr', fun _ => hjn⟩
  | take hi hn ht₁ hr₁ hlt₁ h =>
    refine .take hi (by omega) ht₁ hr₁ (by omega) fun j t' hj hjn ht' hr' => ?_
    by_cases hin : j = n + 1
    · obtain rfl := Option.some.inj (ht.symm.trans (hin ▸ ht'))
      exact ⟨hlt₁.le, fun heq => by omega⟩
    · exact h j t' hj (by omega) ht' hr'

theorem scan_best (task : ℕ → Option Task) (n : ℕ) (c : BitVec 32) (next : ℕ) :
    Best task n c next (scan task n c next) := by
  induction n generalizing c next with
  | zero => exact .keep fun i t hi hn => absurd hn (by omega)
  | succ n ih =>
    rw [scan]
    cases ht : task (n + 1) with
    | none =>
      refine (ih c next).pass fun t ht' => ?_
      cases ht.symm.trans ht'
    | some t =>
      dsimp only
      split
      · next hbetter =>
        exact (ih t.counter (n + 1)).better ht hbetter.1
          (by simpa [BitVec.slt] using hbetter.2)
      · next hnot =>
        refine (ih c next).pass fun t' ht' hr => ?_
        obtain rfl := Option.some.inj (ht.symm.trans ht')
        simpa [BitVec.slt] using fun hs => hnot ⟨hr, hs⟩

/-! ### The choice -/

/-- **What the scan comes to**, from −1 and task 0. -/
structure Picked (s : Sys) (next : ℕ) : Prop where
  idle : next = 0 ↔ ∀ p t, 0 < p → p < nrTasks → s.task p = some t → t.state ≠ .running
  best : next ≠ 0 → next < nrTasks ∧ ∃ t, s.task next = some t ∧ t.state = .running ∧
    ∀ p t', 0 < p → p < nrTasks → s.task p = some t' → t'.state = .running →
      t'.counter.toInt ≤ t.counter.toInt ∧ (t'.counter.toInt = t.counter.toInt → p ≤ next)

/-- The scan finds somebody when somebody is running whose counter is not negative. -/
theorem picked_scan (h : ∀ p t, 0 < p → p < nrTasks → s.task p = some t → 0 ≤ t.counter.toInt) :
    Picked s (scan s.task (nrTasks - 1) (-1#32) 0).2 := by
  have hmax : nrTasks - 1 + 1 = nrTasks := rfl
  have hneg : (-1#32).toInt = -1 := rfl
  cases hr : scan s.task (nrTasks - 1) (-1#32) 0 with
  | mk c next =>
    have hbest := hr ▸ scan_best s.task (nrTasks - 1) (-1#32) 0
    cases hbest with
    | keep hno =>
      refine ⟨⟨fun _ p t hp hlt ht hrun => ?_, fun _ => rfl⟩, fun h0 => absurd rfl h0⟩
      have hle := hno p t hp (by omega) ht hrun
      have hnonneg := h p t hp hlt ht
      omega
    | take hi hn ht hrun hlt hall =>
      constructor
      · constructor
        · intro h0
          exact absurd h0 (by omega)
        · intro hno
          exact absurd hrun (hno _ _ hi (by omega) ht)
      · intro _
        exact ⟨by omega, _, ht, hrun, fun p t' hp hlt' => hall p t' hp (by omega)⟩

/-- **One recalculation is enough**, with any counters that do not overflow. -/
theorem pick_picked (h : AllDecent s) : ∃ s' next, pick 2 s = some (s', next) ∧
    (s'.task = s.task ∨ s'.task = (s.each recalculate).task) ∧ Picked s' next := by
  rw [pick]
  split
  · exact ⟨s, _, rfl, Or.inl rfl, picked_scan fun p t hp hlt ht => (h p t hp hlt ht).2⟩
  · next hzero =>
    rw [ne_eq, Decidable.not_not] at hzero
    refine ⟨s.each recalculate, _, ?_, Or.inr rfl, picked_scan fun p t hp hlt ht => ?_⟩
    · rw [pick, if_pos]
      intro hzero'
      have hmax : nrTasks - 1 + 1 = nrTasks := rfl
      have hz : (0#32).toInt = 0 := rfl
      have hbest := scan_best s.task (nrTasks - 1) (-1#32) 0
      have hbest' := scan_best (s.each recalculate).task (nrTasks - 1) (-1#32) 0
      -- the task that had counter 0 is there the second time, with a counter that is positive
      cases hr : scan s.task (nrTasks - 1) (-1#32) 0 with
      | mk c i =>
        rw [hr] at hzero hbest
        cases hbest with
        | keep hno => exact absurd hzero (by decide)
        | @take _ t hi hn ht hrun hlt hall =>
          have ht' : (s.each recalculate).task i = some (recalculate t) := by
            rw [Sys.each_task s _ hi (by omega), ht]
            rfl
          have hpos := h.recalculate hi (by omega) ht'
          cases hr' : scan (s.each recalculate).task (nrTasks - 1) (-1#32) 0 with
          | mk c' next' =>
            rw [hr'] at hzero' hbest'
            cases hbest' with
            | keep hno => exact absurd hzero' (by decide)
            | take hi' hn' _ _ _ hall' =>
              have hle := (hall' i _ hi hn ht' hrun).1
              dsimp only at hzero'
              rw [hzero'] at hle
              omega
    · have := h.recalculate hp hlt ht
      omega

/-- **`schedule` picks well and comes to an end**: when it has recalculated the counters once, or
not at all, it takes the last of the running tasks with the highest counter, and task 0 if and only
if no other is running; those that have got a signal are woken before. -/
theorem schedule_picks (s : Sys) (h : AllDecent s) : ∃ s', schedule s = some s' ∧ Chosen s s' := by
  obtain ⟨s', next, hpick, hrounds, hpicked⟩ := pick_picked h.checked
  refine ⟨{ s' with current := next }, ?_, hrounds, fun p t hp hlt ht hint hw => ?_,
    hpicked.idle, hpicked.best⟩
  · rw [schedule]
    exact congrArg (Option.map _) hpick
  · refine ⟨_, ?_, checkSignal_running hint s.jiffies hw⟩
    rw [Sys.checked, Sys.each_task s _ hp hlt, ht]
    rfl

/-- Task 1 is forked and runs. -/
theorem schedule_picks_forked : ∃ s', schedule forked = some s' ∧ Chosen forked s' := by
  refine schedule_picks forked fun p t hp hlt ht => ?_
  by_cases h1 : p = 1
  · subst h1
    obtain rfl : copyProcess initTask = t := Option.some.inj ht
    exact ⟨by decide, by decide, by decide⟩
  · rw [forked] at ht
    dsimp only at ht
    rw [Function.update_of_ne h1, Function.update_of_ne (by omega)] at ht
    cases ht

end Linux011.Kernel.Sched

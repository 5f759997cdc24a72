import Linux011.Kernel.Signals

/-!
# `sys_kill`

`sys_kill` and `send_sig`, from `kernel/exit.c`.

`sys_kill` is one chain of `if` and `else` over four loops, with no braces where they would have
been needed. An `else` belongs to the last `if` that may have one, and the last `else` is meant for
the process groups, but follows the `if` in the loop of `pid == -1`. So no process group is ever
sent anything, and the loop of `pid == -1` becomes that of process group 1 as soon as it has sent
the signal once. Besides, `pid == 0` compares the group with the number of the caller, and
`pid == -1` takes an empty slot for an error.

| `pid` | what is done | when that is what was asked for |
|---|---|---|
| positive | `Linux011.Kernel.Kill.kill_pid` | always |
| 0 | `Linux011.Kernel.Kill.kill_group` | `Linux011.Kernel.Kill.GroupFine` |
| −1 | `Linux011.Kernel.Kill.kill_all` | `Linux011.Kernel.Kill.AllFine` |
| below | nothing | `Linux011.Kernel.Kill.NothingToDo` |
-/

namespace Linux011.Kernel.Kill

open Signals (bit)

/-! ### The tasks -/

/-- What of `struct task_struct` a signal is sent by. -/
structure Task where
  pid : ℤ
  pgrp : ℤ
  euid : BitVec 16
  signal : BitVec 32

/-- `task[NR_TASKS]`, and the `retval` of the call. -/
structure Sys where
  task : ℕ → Option Task
  retval : ℤ

/-- `NR_TASKS`. -/
def nrTasks : ℕ := 64

/-- `EPERM`. -/
def eperm : ℤ := 1

/-- `EINVAL`. -/
def einval : ℤ := 22

/-- `suser()`. -/
def Task.suser (t : Task) : Bool := t.euid = 0#16

/-- The signal is pending. -/
def Task.raise (t : Task) (sig : ℤ) : Task := { t with signal := t.signal ||| bit sig.toNat }

/-- **`send_sig`**: what becomes of `*p`, and what is returned. The `euid` of `current` stays. -/
def sendSig (current : Task) (sig : ℤ) (p : Option Task) (priv : Bool) : Option Task × ℤ :=
  match p with
  | none => (none, -einval)
  | some t =>
    if sig < 1 ∨ 32 < sig then (some t, -einval)
    else if priv ∨ current.euid = t.euid ∨ current.suser then (some (t.raise sig), 0)
    else (some t, -eperm)

/-! ### `sys_kill` -/

/-- `if (err=send_sig(sig,*p,priv)) retval = err;` -/
def Sys.send (s : Sys) (current : Task) (sig : ℤ) (priv : Bool) (p : ℕ) : Sys :=
  let r := sendSig current sig (s.task p) priv
  { task := Function.update s.task p r.1, retval := if r.2 ≠ 0 then r.2 else s.retval }

/-- `while (--p > &FIRST_TASK)`, when there are so many tasks to go, with `send_sig` to those of
`sel`. -/
def walk (current : Task) (sig : ℤ) (priv : Bool) (sel : Task → Bool) : ℕ → Sys → Sys
  | 0, s => s
  | p + 1, s =>
    walk current sig priv sel p
      (if (s.task (p + 1)).any sel then s.send current sig priv (p + 1) else s)

/-- The loop of `pid == -1`, with the `else` that follows the `if` in it. When the loop under that
`else` has come to its end, so has this one. -/
def walkAll (current : Task) (pid sig : ℤ) : ℕ → Sys → Sys
  | 0, s => s
  | p + 1, s =>
    if (sendSig current sig (s.task (p + 1)) false).2 ≠ 0 then
      walkAll current pid sig p (s.send current sig false (p + 1))
    else
      walk current sig false (fun t => t.pgrp = -pid) p (s.send current sig false (p + 1))

/-- **`sys_kill`** -/
def sysKill (task : ℕ → Option Task) (current : Task) (pid sig : ℤ) : Sys :=
  let s : Sys := ⟨task, 0⟩
  if pid = 0 then walk current sig true (fun t => t.pgrp = current.pid) (nrTasks - 1) s
  else if 0 < pid then walk current sig false (fun t => t.pid = pid) (nrTasks - 1) s
  else if pid = -1 then walkAll current pid sig (nrTasks - 1) s
  else s

/-! ### What is asked for -/

/-- **The tasks that are meant.** -/
def Selects (current : Task) (pid : ℤ) (t : Task) : Prop :=
  if pid = 0 then t.pgrp = current.pgrp
  else if 0 < pid then t.pid = pid
  else if pid = -1 then True
  else t.pgrp = -pid

/-- **Whom the caller may send a signal.** -/
def MaySend (current : Task) (pid : ℤ) (t : Task) : Prop :=
  pid = 0 ∨ current.euid = t.euid ∨ current.suser = true

/-- A slot that tasks other than the first are in. -/
def Slot (p : ℕ) : Prop := 0 < p ∧ p < nrTasks

instance (current : Task) (pid : ℤ) (t : Task) : Decidable (Selects current pid t) :=
  inferInstanceAs (Decidable (if pid = 0 then t.pgrp = current.pgrp
    else if 0 < pid then t.pid = pid else if pid = -1 then True else t.pgrp = -pid))

instance (current : Task) (pid : ℤ) (t : Task) : Decidable (MaySend current pid t) :=
  inferInstanceAs (Decidable (_ ∨ _ ∨ _))

instance (p : ℕ) : Decidable (Slot p) := inferInstanceAs (Decidable (_ ∧ _))

/-- **The targets are reached, and no other task**, and an error means that a task that was meant
has been refused. -/
structure Reaches (task : ℕ → Option Task) (current : Task) (pid sig : ℤ) : Prop where
  targets : ∀ p t, task p = some t → Slot p → Selects current pid t → MaySend current pid t →
    (sysKill task current pid sig).task p = some (t.raise sig)
  others : ∀ p, (∀ t, task p = some t → ¬(Slot p ∧ Selects current pid t ∧ MaySend current pid t)) →
    (sysKill task current pid sig).task p = task p
  error : (sysKill task current pid sig).retval ≠ 0 →
    ∃ p t, task p = some t ∧ Slot p ∧ Selects current pid t ∧ ¬MaySend current pid t

/-! ### When it is done -/

/-- The signal is pending already. -/
def Task.Has (t : Task) (sig : ℤ) : Prop := t.signal ||| bit sig.toNat = t.signal

/-- **The group of the caller is the one it leads**, as far as it makes a difference. -/
def GroupFine (task : ℕ → Option Task) (current : Task) (sig : ℤ) : Prop :=
  ∀ p t, task p = some t → Slot p →
    (t.pgrp = current.pid ↔ t.pgrp = current.pgrp) ∨ t.Has sig

/-- A task above `p` can be sent a signal. -/
def Above (task : ℕ → Option Task) (current : Task) (n p : ℕ) : Prop :=
  ∃ q t, p < q ∧ q ≤ n ∧ task q = some t ∧ MaySend current (-1) t

/-- **Below the first task that can be sent a signal**, those that can be are of process group 1;
and above it, there is no empty slot, if there is no other reason for an error. -/
def AllFine (task : ℕ → Option Task) (current : Task) (sig : ℤ) : Prop :=
  (∀ p t, task p = some t → Slot p → MaySend current (-1) t → Above task current (nrTasks - 1) p →
    t.pgrp = 1 ∨ t.Has sig) ∧
  ((∃ p t, task p = some t ∧ Slot p ∧ ¬MaySend current (-1) t) ∨
    ∀ p, Slot p → task p = none → Above task current (nrTasks - 1) p)

/-- **Nobody in the group is left** whom the signal could be sent. -/
def NothingToDo (task : ℕ → Option Task) (current : Task) (pid sig : ℤ) : Prop :=
  ∀ p t, task p = some t → Slot p → t.pgrp = -pid → MaySend current pid t → t.Has sig

/-- **When `sys_kill` does what is asked for.** -/
structure Fine (task : ℕ → Option Task) (current : Task) (pid sig : ℤ) : Prop where
  group : pid = 0 → GroupFine task current sig
  all : pid = -1 → AllFine task current sig
  below : pid < -1 → NothingToDo task current pid sig

/-! ### `send_sig` -/

variable {task : ℕ → Option Task} {current t : Task} {pid sig : ℤ} {priv : Bool}
  {sel : Task → Bool} {s : Sys} {n p q : ℕ}

/-- `send_sig` is not refused. -/
def Permits (current : Task) (priv : Bool) (t : Task) : Prop :=
  priv = true ∨ current.euid = t.euid ∨ current.suser = true

instance : Decidable (Permits current priv t) := inferInstanceAs (Decidable (_ ∨ _ ∨ _))

/-- What a loop leaves of a task. -/
def reached (current : Task) (sig : ℤ) (priv : Bool) (sel : Task → Bool) (t : Task) : Task :=
  if sel t = true ∧ Permits current priv t then t.raise sig else t

theorem raise_eq_self : t.raise sig = t ↔ t.Has sig := by
  constructor
  · intro h
    exact congrArg Task.signal h
  · intro h
    rw [Task.raise, h]

theorem maySend_all : MaySend current (-1) t ↔ Permits current false t := by
  simp [MaySend, Permits]

open Classical in
/-- What the loop of all tasks leaves of a task. -/
noncomputable def allReached (task : ℕ → Option Task) (current : Task) (pid sig : ℤ) (n p : ℕ)
    (t : Task) : Task :=
  if MaySend current (-1) t ∧ (Above task current n p → t.pgrp = -pid) then t.raise sig else t

theorem above_self : ¬Above task current p p := by
  rintro ⟨q, t, hlt, hle, -⟩
  omega

/-- A task that cannot be sent the signal makes no difference. -/
theorem above_succ_of_not (h : ∀ t, task (n + 1) = some t → ¬MaySend current (-1) t) :
    Above task current (n + 1) p = Above task current n p := by
  refine propext ⟨?_, ?_⟩
  · rintro ⟨q, t, hlt, hle, ht, hmay⟩
    have hq : q ≠ n + 1 := fun hq => h t (hq ▸ ht) hmay
    exact ⟨q, t, hlt, by omega, ht, hmay⟩
  · rintro ⟨q, t, hlt, hle, ht, hmay⟩
    exact ⟨q, t, hlt, by omega, ht, hmay⟩

section Valid

variable (h1 : 1 ≤ sig) (h32 : sig ≤ 32)

include h1 h32

theorem sendSig_some : sendSig current sig (some t) priv =
    if Permits current priv t then (some (t.raise sig), 0) else (some t, -eperm) := by
  rw [sendSig, if_neg (by omega)]
  rfl

/-- What a turn of a loop leaves. -/
theorem turn_task : (if (s.task p).any sel then s.send current sig priv p else s).task q =
    if q = p then (s.task p).map (reached current sig priv sel) else s.task q := by
  by_cases hq : q = p
  · subst hq
    rw [if_pos rfl]
    cases ht : s.task q with
    | none => exact ht
    | some t =>
      rw [Option.any_some, Option.map_some, reached]
      by_cases hsel : sel t = true
      · rw [if_pos hsel, Sys.send]
        dsimp only
        rw [Function.update_self, ht, sendSig_some h1 h32]
        by_cases hp : Permits current priv t
        · rw [if_pos hp, if_pos ⟨hsel, hp⟩]
        · rw [if_neg hp, if_neg fun h => hp h.2]
      · rw [if_neg hsel, if_neg fun h => hsel h.1, ht]
  · rw [if_neg hq]
    split
    · exact Function.update_of_ne hq _ _
    · rfl

theorem turn_retval : (if (s.task p).any sel then s.send current sig priv p else s).retval ≠ 0 ↔
    s.retval ≠ 0 ∨ ∃ t, s.task p = some t ∧ sel t = true ∧ ¬Permits current priv t := by
  cases ht : s.task p with
  | none => simp
  | some t =>
    rw [Option.any_some]
    by_cases hsel : sel t = true
    · rw [if_pos hsel, Sys.send, ht, sendSig_some h1 h32]
      by_cases hp : Permits current priv t
      · simp [hp]
      · simp [hp, hsel, eperm]
    · simp [hsel]

/-! ### The loops -/

/-- **A loop reaches those of its tasks that it may.** -/
theorem walk_task : (walk current sig priv sel n s).task p =
    if 0 < p ∧ p ≤ n then (s.task p).map (reached current sig priv sel) else s.task p := by
  induction n generalizing s with
  | zero => rw [walk, if_neg (by omega)]
  | succ n ih =>
    rw [walk, ih, turn_task h1 h32]
    by_cases hp : p = n + 1
    · rw [if_neg (by omega), if_pos hp, if_pos (by omega), hp]
    · rw [if_neg hp]
      by_cases hle : 0 < p ∧ p ≤ n
      · rw [if_pos hle, if_pos (by omega)]
      · rw [if_neg hle, if_neg (by omega)]

/-- A loop ends with an error when one of its tasks has refused. -/
theorem walk_retval : (walk current sig priv sel n s).retval ≠ 0 ↔ s.retval ≠ 0 ∨
    ∃ p t, 0 < p ∧ p ≤ n ∧ s.task p = some t ∧ sel t = true ∧ ¬Permits current priv t := by
  induction n generalizing s with
  | zero =>
    rw [walk]
    constructor
    · exact Or.inl
    · rintro (h | ⟨p, t, hp, hn, -⟩)
      · exact h
      · omega
  | succ n ih =>
    rw [walk, ih, turn_retval h1 h32]
    constructor
    · rintro ((h | ⟨t, ht⟩) | ⟨p, t, hp, hn, ht, hr⟩)
      · exact Or.inl h
      · exact Or.inr ⟨n + 1, t, by omega, le_rfl, ht⟩
      · rw [turn_task h1 h32, if_neg (by omega)] at ht
        exact Or.inr ⟨p, t, hp, by omega, ht, hr⟩
    · rintro (h | ⟨p, t, hp, hn, ht, hr⟩)
      · exact Or.inl (Or.inl h)
      · by_cases hpn : p = n + 1
        · exact Or.inl (Or.inr ⟨t, hpn ▸ ht, hr⟩)
        · refine Or.inr ⟨p, t, hp, by omega, ?_, hr⟩
          rw [turn_task h1 h32, if_neg hpn, ht]

/-! ### The loop of all tasks -/

theorem sendSig_err {o : Option Task} : (sendSig current sig o false).2 ≠ 0 ↔
    ∀ t, o = some t → ¬MaySend current (-1) t := by
  cases o with
  | none => simp [sendSig, einval]
  | some t =>
    rw [sendSig_some h1 h32]
    by_cases hp : Permits current false t
    · rw [if_pos hp]
      exact ⟨fun h => absurd rfl h, fun h => absurd (maySend_all.mpr hp) (h t rfl)⟩
    · rw [if_neg hp]
      constructor
      · rintro - t' ht' hmay
        exact hp (maySend_all.mp (Option.some.inj ht' ▸ hmay))
      · intro _
        exact (by decide : -eperm ≠ 0)

/-- Where the signal is not taken, nothing becomes of the task. -/
theorem send_task_of_err (herr : (sendSig current sig (s.task p) false).2 ≠ 0) :
    (s.send current sig false p).task = s.task := by
  have hsame : (sendSig current sig (s.task p) false).1 = s.task p := by
    rw [sendSig_err h1 h32] at herr
    cases ht : s.task p with
    | none => rfl
    | some t => rw [sendSig_some h1 h32, if_neg fun hp => herr t ht (maySend_all.mpr hp)]
  rw [Sys.send]
  dsimp only
  rw [hsame, Function.update_eq_self]

/-- **The loop of all tasks** reaches the first that it may, and below it those of one group. -/
theorem walkAll_task : (walkAll current pid sig n s).task p =
    if 0 < p ∧ p ≤ n then (s.task p).map (allReached s.task current pid sig n p)
    else s.task p := by
  induction n generalizing s with
  | zero => rw [walkAll, if_neg (by omega)]
  | succ n ih =>
    rw [walkAll]
    split
    · next herr =>
      rw [ih, send_task_of_err h1 h32 herr]
      rw [sendSig_err h1 h32] at herr
      by_cases hp : p = n + 1
      · rw [if_neg (by omega), if_pos (by omega)]
        cases ht : s.task p with
        | none => rfl
        | some t =>
          rw [Option.map_some, allReached, if_neg fun h => herr t (hp ▸ ht) h.1]
      · by_cases hle : 0 < p ∧ p ≤ n
        · rw [if_pos hle, if_pos (by omega)]
          refine congrFun (congrArg Option.map (funext fun t => ?_)) _
          rw [allReached, allReached, above_succ_of_not herr]
        · rw [if_neg hle, if_neg (by omega)]
    · next herr =>
      rw [sendSig_err h1 h32] at herr
      push Not at herr
      obtain ⟨t₀, ht₀, hmay⟩ := herr
      have hsend : ∀ q, (s.send current sig false (n + 1)).task q =
          if q = n + 1 then some (t₀.raise sig) else s.task q := by
        intro q
        rw [Sys.send]
        dsimp only
        rw [ht₀, sendSig_some h1 h32, if_pos (maySend_all.mp hmay), Function.update_apply]
      rw [walk_task h1 h32, hsend]
      by_cases hp : p = n + 1
      · have hfirst : ¬Above s.task current (n + 1) (n + 1) := above_self
        rw [if_neg (by omega), if_pos hp, if_pos (by omega), hp, ht₀, Option.map_some, allReached,
          if_pos ⟨hmay, fun h => absurd h hfirst⟩]
      · rw [if_neg hp]
        by_cases hle : 0 < p ∧ p ≤ n
        · rw [if_pos hle, if_pos (by omega)]
          refine congrFun (congrArg Option.map (funext fun t => ?_)) _
          have habove : Above s.task current (n + 1) p :=
            ⟨n + 1, t₀, by omega, le_rfl, ht₀, hmay⟩
          simp [reached, allReached, habove, maySend_all, and_comm]
        · rw [if_neg hle, if_neg (by omega)]

/-- **The loop of all tasks ends with an error** when a slot is empty, or a task refuses, that no
task that can be sent the signal is above; or when a task of the group refuses that one is above. -/
theorem walkAll_retval : (walkAll current pid sig n s).retval ≠ 0 ↔ s.retval ≠ 0 ∨
    (∃ p, 0 < p ∧ p ≤ n ∧ ¬Above s.task current n p ∧
      ∀ t, s.task p = some t → ¬MaySend current (-1) t) ∨
    ∃ p t, 0 < p ∧ p ≤ n ∧ Above s.task current n p ∧ s.task p = some t ∧ t.pgrp = -pid ∧
      ¬MaySend current (-1) t := by
  induction n generalizing s with
  | zero =>
    rw [walkAll]
    constructor
    · exact Or.inl
    · rintro (h | ⟨p, hp, hn, -⟩ | ⟨p, t, hp, hn, -⟩)
      · exact h
      · omega
      · omega
  | succ n ih =>
    rw [walkAll]
    split
    · next herr =>
      have hret : (s.send current sig false (n + 1)).retval ≠ 0 := by
        rw [Sys.send]
        dsimp only
        rw [if_pos herr]
        exact herr
      rw [sendSig_err h1 h32] at herr
      have hnot : ¬Above s.task current (n + 1) (n + 1) := above_self
      constructor
      · intro _
        exact Or.inr (Or.inl ⟨n + 1, by omega, le_rfl, hnot, herr⟩)
      · intro _
        exact ih.mpr (Or.inl hret)
    · next herr =>
      have herr' := herr
      rw [sendSig_err h1 h32] at herr
      push Not at herr
      obtain ⟨t₀, ht₀, hmay⟩ := herr
      have hret : (s.send current sig false (n + 1)).retval = s.retval := by
        rw [Sys.send]
        exact if_neg herr'
      have habove : ∀ p, p ≤ n → Above s.task current (n + 1) p := fun p hle =>
        ⟨n + 1, t₀, by omega, le_rfl, ht₀, hmay⟩
      have hsend : ∀ q, q ≤ n → (s.send current sig false (n + 1)).task q = s.task q :=
        fun q hq => Function.update_of_ne (by omega) _ _
      rw [walk_retval h1 h32, hret]
      refine or_congr_right ?_
      constructor
      · rintro ⟨p, t, hp, hn, ht, hsel, hno⟩
        rw [hsend p hn] at ht
        exact Or.inr ⟨p, t, hp, by omega, habove p hn, ht, of_decide_eq_true hsel,
          fun h => hno (maySend_all.mp h)⟩
      · rintro (⟨p, hp, hn, hnot, hno⟩ | ⟨p, t, hp, hn, -, ht, hsel, hno⟩)
        · by_cases hpn : p = n + 1
          · exact absurd hmay (hno t₀ (hpn ▸ ht₀))
          · exact absurd (habove p (by omega)) hnot
        · by_cases hpn : p = n + 1
          · obtain rfl := Option.some.inj ((hpn ▸ ht : s.task (n + 1) = some t).symm.trans ht₀)
            exact absurd hmay hno
          · exact ⟨p, t, hp, by omega, (hsend p (by omega)).trans ht, decide_eq_true hsel,
              fun h => hno (maySend_all.mpr h)⟩

end Valid

/-! ### What is done, and what is asked for -/

/-- What is to become of a task. -/
def asked (current : Task) (pid sig : ℤ) (t : Task) : Task :=
  if Selects current pid t ∧ MaySend current pid t then t.raise sig else t

/-- It makes a difference to whom the signal is sent, if it is not pending. -/
theorem raise_ite {A B : Prop} {_ : Decidable A} {_ : Decidable B} :
    (if A then t.raise sig else t) = (if B then t.raise sig else t) ↔ (A ↔ B) ∨ t.Has sig := by
  rw [← raise_eq_self]
  by_cases hA : A
  · by_cases hB : B
    · simp [hA, hB]
    · simp [hA, hB]
  · by_cases hB : B
    · simp [hA, hB, eq_comm]
    · simp [hA, hB]

/-- **A call does what is asked for** when it does so with each task. -/
theorem reaches_iff {g : ℕ → Task → Task} (hg : ∀ p, (sysKill task current pid sig).task p =
    if Slot p then (task p).map (g p) else task p) :
    Reaches task current pid sig ↔
      (∀ p t, task p = some t → Slot p → g p t = asked current pid sig t) ∧
      ((sysKill task current pid sig).retval ≠ 0 →
        ∃ p t, task p = some t ∧ Slot p ∧ Selects current pid t ∧ ¬MaySend current pid t) := by
  have hslot : ∀ p t, task p = some t → Slot p →
      (sysKill task current pid sig).task p = some (g p t) := by
    intro p t ht hp
    rw [hg, if_pos hp, ht, Option.map_some]
  constructor
  · intro h
    refine ⟨fun p t ht hp => ?_, h.error⟩
    rw [asked]
    split
    · next hmeant =>
      have htarget := h.targets p t ht hp hmeant.1 hmeant.2
      exact Option.some.inj ((hslot p t ht hp).symm.trans htarget)
    · next hnot =>
      have hother := h.others p fun t' ht' hmeant => by
        obtain rfl := Option.some.inj (ht.symm.trans ht')
        exact hnot hmeant.2
      rw [hslot p t ht hp, ht] at hother
      exact Option.some.inj hother
  · rintro ⟨htask, herror⟩
    refine ⟨fun p t ht hp hsel hmay => ?_, fun p hnot => ?_, herror⟩
    · rw [hslot p t ht hp, htask p t ht hp, asked, if_pos ⟨hsel, hmay⟩]
    · by_cases hp : Slot p
      · cases ht : task p with
        | none => rw [hg, if_pos hp, ht, Option.map_none]
        | some t =>
          rw [hslot p t ht hp, htask p t ht hp, asked, if_neg fun h => hnot t ht ⟨hp, h⟩]
      · rw [hg, if_neg hp]

theorem slot_iff : Slot p ↔ 0 < p ∧ p ≤ nrTasks - 1 := by
  rw [Slot, nrTasks]
  omega

section Valid

variable (h1 : 1 ≤ sig) (h32 : sig ≤ 32)

include h1 h32

/-- **A single task**, by its number. -/
theorem kill_pid (hpid : 0 < pid) : Reaches task current pid sig := by
  have hkill : sysKill task current pid sig =
      walk current sig false (fun t => t.pid = pid) (nrTasks - 1) ⟨task, 0⟩ := by
    rw [sysKill, if_neg (by omega), if_pos hpid]
  have hsel : ∀ t, Selects current pid t ↔ t.pid = pid := by
    intro t
    rw [Selects, if_neg (by omega), if_pos hpid]
  have hmay : ∀ t, MaySend current pid t ↔ Permits current false t := by
    intro t
    simp [MaySend, Permits, hpid.ne']
  rw [reaches_iff (g := fun _ => reached current sig false fun t => t.pid = pid) fun p => by
    simp_rw [hkill, walk_task h1 h32, slot_iff]]
  constructor
  · intro p t _ _
    simp [reached, asked, hsel, hmay]
  · intro herror
    rw [hkill, walk_retval h1 h32] at herror
    obtain ⟨p, t, hp, hn, ht, hpid, hno⟩ := herror.resolve_left fun h => h rfl
    exact ⟨p, t, ht, slot_iff.mpr ⟨hp, hn⟩, (hsel t).mpr (of_decide_eq_true hpid),
      fun h => hno ((hmay t).mp h)⟩

/-- **The caller's process group.** -/
theorem kill_group : Reaches task current 0 sig ↔ GroupFine task current sig := by
  have hkill : sysKill task current 0 sig =
      walk current sig true (fun t => t.pgrp = current.pid) (nrTasks - 1) ⟨task, 0⟩ := by
    rw [sysKill, if_pos rfl]
  rw [reaches_iff (g := fun _ => reached current sig true fun t => t.pgrp = current.pid)
    fun p => by simp_rw [hkill, walk_task h1 h32, slot_iff]]
  have hno : (sysKill task current 0 sig).retval = 0 := by
    by_contra h
    rw [hkill, ← ne_eq, walk_retval h1 h32] at h
    obtain ⟨p, t, -, -, -, -, hno⟩ := h.resolve_left fun h => h rfl
    exact hno (Or.inl rfl)
  rw [and_iff_left fun h => absurd hno h]
  refine forall₄_congr fun p t _ _ => ?_
  rw [reached, asked, raise_ite]
  simp [Selects, MaySend, Permits]

/-- **Everybody.** -/
theorem kill_all : Reaches task current (-1) sig ↔ AllFine task current sig := by
  have hkill : sysKill task current (-1) sig =
      walkAll current (-1) sig (nrTasks - 1) ⟨task, 0⟩ := by
    rw [sysKill, if_neg (by decide), if_neg (by decide), if_pos rfl]
  have hsel : ∀ t, Selects current (-1) t := fun t => trivial
  rw [reaches_iff (g := fun p => allReached task current (-1) sig (nrTasks - 1) p)
    fun p => by simp_rw [hkill, walkAll_task h1 h32, slot_iff]]
  refine and_congr (forall₄_congr fun p t _ _ => ?_) ?_
  · rw [allReached, asked, raise_ite, neg_neg]
    have := hsel t
    tauto
  · rw [hkill, walkAll_retval h1 h32]
    constructor
    · intro h
      by_cases hex : ∃ p t, task p = some t ∧ Slot p ∧ ¬MaySend current (-1) t
      · exact Or.inl hex
      · refine Or.inr fun p hp hnone => ?_
        by_contra habove
        obtain ⟨q, t, ht, hq, -, hno⟩ := h (Or.inr (Or.inl ⟨p, (slot_iff.mp hp).1,
          (slot_iff.mp hp).2, habove, fun t ht => by cases hnone.symm.trans ht⟩))
        exact hex ⟨q, t, ht, hq, hno⟩
    · rintro (⟨p, t, ht, hp, hno⟩ | hempty)
      · exact fun _ => ⟨p, t, ht, hp, hsel t, hno⟩
      · rintro (h | ⟨p, hp, hn, hnot, hno⟩ | ⟨p, t, hp, hn, -, ht, -, hno⟩)
        · exact absurd rfl h
        · cases ht : task p with
          | none => exact absurd (hempty p (slot_iff.mpr ⟨hp, hn⟩) ht) hnot
          | some t => exact ⟨p, t, ht, slot_iff.mpr ⟨hp, hn⟩, hsel t, hno t ht⟩
        · exact ⟨p, t, ht, slot_iff.mpr ⟨hp, hn⟩, hsel t, hno⟩

end Valid

/-- **A process group**: nothing is done. -/
theorem kill_below (hpid : pid < -1) :
    Reaches task current pid sig ↔ NothingToDo task current pid sig := by
  have hkill : sysKill task current pid sig = ⟨task, 0⟩ := by
    rw [sysKill, if_neg (by omega), if_neg (by omega), if_neg (by omega)]
  have hsel : ∀ t, Selects current pid t ↔ t.pgrp = -pid := by
    intro t
    rw [Selects, if_neg (by omega), if_neg (by omega), if_neg (by omega)]
  rw [reaches_iff (g := fun _ t => t) fun p => by
    rw [hkill, Option.map_id']
    simp]
  rw [and_iff_left fun h => absurd (congrArg Sys.retval hkill) h]
  refine forall₄_congr fun p t _ _ => ?_
  have hasked : t = asked current pid sig t ↔
      (if False then t.raise sig else t) = asked current pid sig t := by rw [if_neg not_false]
  rw [hasked, asked, raise_ite, hsel]
  tauto

/-- **`sys_kill` reaches its targets**, and nobody else, exactly when: for `pid` 0, the group of the
caller has the caller's number; for −1, all tasks below the first that can be sent the signal are of
group 1, and the slots above it are not empty; and for a process group, there is nobody to send it
to. Tasks that the signal is pending for already make no difference. -/
theorem kill_reaches (task : ℕ → Option Task) (current : Task) (pid : ℤ) {sig : ℤ} (h1 : 1 ≤ sig)
    (h32 : sig ≤ 32) : Reaches task current pid sig ↔ Fine task current pid sig := by
  rcases lt_trichotomy pid 0 with hneg | rfl | hpos
  · by_cases hall : pid = -1
    · subst hall
      rw [kill_all h1 h32]
      constructor
      · intro h
        exact ⟨fun h0 => absurd h0 (by decide), fun _ => h, fun h0 => absurd h0 (by decide)⟩
      · intro h
        exact h.all rfl
    · rw [kill_below (by omega)]
      constructor
      · intro h
        exact ⟨fun h0 => absurd h0 hneg.ne, fun h0 => absurd h0 hall, fun _ => h⟩
      · intro h
        exact h.below (by omega)
  · rw [kill_group h1 h32]
    constructor
    · intro h
      exact ⟨fun _ => h, fun h0 => absurd h0 (by decide), fun h0 => absurd h0 (by decide)⟩
    · intro h
      exact h.group rfl
  · refine iff_of_true (kill_pid h1 h32 hpos) ?_
    exact ⟨fun h0 => absurd h0 hpos.ne', fun h0 => by omega, fun h0 => by omega⟩

/-- The first process, task 1, and a shell that has a job in process group 5, its own. -/
def shell : ℕ → Option Task
  | 1 => some ⟨1, 0, 0#16, 0#32⟩
  | 2 => some ⟨4, 4, 7#16, 0#32⟩
  | 3 => some ⟨5, 5, 7#16, 0#32⟩
  | _ => none

/-- `kill(5, SIGTERM)` by the shell. -/
theorem kill_reaches_shell : Reaches shell ⟨4, 4, 7#16, 0#32⟩ 5 15 := by
  rw [kill_reaches shell ⟨4, 4, 7#16, 0#32⟩ 5 (by decide) (by decide)]
  constructor
  · exact fun h => absurd h (by decide)
  · exact fun h => absurd h (by decide)
  · exact fun h => absurd h (by decide)

/-- **`kill(-5, SIGTERM)`** by the shell: the job does not get the signal. -/
theorem not_kill_reaches : ¬Reaches shell ⟨4, 4, 7#16, 0#32⟩ (-5) 15 := by
  intro h
  have htarget := h.targets 3 ⟨5, 5, 7#16, 0#32⟩ rfl ⟨by decide, by decide⟩ (by decide)
    (Or.inr (Or.inl rfl))
  have hsignal := congrArg (Option.map Task.signal) htarget
  exact absurd hsignal (by decide)

end Linux011.Kernel.Kill

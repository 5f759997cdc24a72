import Linux011.Lib.Bits
import Linux011.Lib.Run

/-!
# Signals

`kernel/signal.c`, the end of `kernel/system_call.s` where signals are delivered, and what
`copy_process` and `do_execve` do to the signal fields of a task.

`sys_signal` and `sys_sigaction` refuse `SIGKILL`, and `sys_ssetmask` takes it out of the mask it
is given. So the handler of `SIGKILL` is the default one in every task
(`Linux011.Kernel.Signals.Defaults`). But `sys_sigaction` leaves `sa_mask` as the user gave it, and
`do_signal` adds it to what is blocked: a handler that blocks `SIGKILL` is all it takes
(`Linux011.Kernel.Signals.not_sigkill_unblocked`), and nothing else does
(`Linux011.Kernel.Signals.sigkill_unblocked`).
-/

namespace Linux011.Kernel.Signals

/-! ### The tasks -/

/-- `struct sigaction`. -/
structure Sigaction where
  handler : BitVec 32
  mask : BitVec 32
  flags : BitVec 32
  restorer : BitVec 32

/-- What of `struct task_struct` is about signals; a zombie runs no more. -/
structure Task where
  signal : BitVec 32
  blocked : BitVec 32
  sigaction : ℕ → Sigaction
  zombie : Bool

/-- `task[NR_TASKS]`. -/
structure Sys where
  task : ℕ → Option Task

/-- `SIGKILL`. -/
def sigkill : ℕ := 9

/-- `SIGCHLD`. -/
def sigchld : ℕ := 17

/-- `SA_NOMASK`. -/
def saNomask : BitVec 32 := 0x40000000#32

/-- `SA_ONESHOT`. -/
def saOneshot : BitVec 32 := 0x80000000#32

/-- The bit of a signal. -/
def bit (signr : ℕ) : BitVec 32 := 1#32 <<< (signr - 1)

/-- A store into `task[p]`. -/
def Sys.set (s : Sys) (p : ℕ) (t : Option Task) : Sys := ⟨Function.update s.task p t⟩

theorem Sys.set_task (s : Sys) (p : ℕ) (t : Option Task) (q : ℕ) :
    (s.set p t).task q = if q = p then t else s.task q := Function.update_apply ..

/-- A store into `sigaction[i]`. -/
def Task.setAction (t : Task) (i : ℕ) (sa : Sigaction) : Task :=
  { t with sigaction := Function.update t.sigaction i sa }

theorem setAction_of_ne {t : Task} {i j : ℕ} {sa : Sigaction} (h : j ≠ i) :
    (t.setAction i sa).sigaction j = t.sigaction j := Function.update_of_ne h ..

/-- The action has this flag. -/
def Sigaction.has (sa : Sigaction) (flag : BitVec 32) : Bool := sa.flags &&& flag ≠ 0#32

/-! ### The calls -/

/-- `sys_ssetmask`. -/
def sysSsetmask (newmask : BitVec 32) (current : Task) : Task × BitVec 32 :=
  ({ current with blocked := newmask &&& ~~~bit sigkill }, current.blocked)

/-- The signals that have an action of their own to be set. -/
def Settable (signum : ℤ) : Prop := ¬(signum < 1 ∨ 32 < signum ∨ signum = sigkill)

instance (signum : ℤ) : Decidable (Settable signum) := inferInstanceAs (Decidable ¬_)

/-- `sys_signal`. -/
def sysSignal (signum : ℤ) (handler restorer : BitVec 32) (current : Task) : Task × BitVec 32 :=
  if Settable signum then
    (current.setAction (signum.toNat - 1) ⟨handler, 0#32, saOneshot ||| saNomask, restorer⟩,
      (current.sigaction (signum.toNat - 1)).handler)
  else (current, -1#32)

/-- What `sys_sigaction` makes of the mask that the user gave. -/
def ownMask (signum : ℕ) (sa : Sigaction) : Sigaction :=
  if sa.has saNomask then { sa with mask := 0#32 } else { sa with mask := sa.mask ||| bit signum }

/-- `sys_sigaction`: what it returns, and what it stores through `oldaction`. -/
def sysSigaction (signum : ℤ) (action : Sigaction) (oldaction : Bool) (current : Task) :
    Task × ℤ × Option Sigaction :=
  if Settable signum then
    (current.setAction (signum.toNat - 1) (ownMask signum.toNat action), 0,
      if oldaction then some (current.sigaction (signum.toNat - 1)) else none)
  else (current, -1, none)

/-! ### Delivery -/

/-- The registers that `do_signal` saves. -/
structure Regs where
  eax : BitVec 32
  ecx : BitVec 32
  edx : BitVec 32
  eip : BitVec 32
  eflags : BitVec 32

/-- **How a delivery ends.** -/
inductive Delivery
  /-- The task goes on where it was. -/
  | back
  /-- `do_exit`. -/
  | exit (code : BitVec 32)
  /-- It goes on at its handler, with these words on its stack. -/
  | handler (eip : BitVec 32) (frame : List (BitVec 32))

/-- The action has a handler of the user's. -/
def Sigaction.Caught (sa : Sigaction) : Prop := sa.handler ≠ 1#32 ∧ sa.handler ≠ 0#32

/-- `do_signal`. -/
def doSignal (signr : ℕ) (regs : Regs) (current : Task) : Task × Delivery :=
  let sa := current.sigaction (signr - 1)
  if sa.handler = 1#32 then (current, .back)
  else if sa.handler = 0#32 then
    if signr = sigchld then (current, .back)
    else ({ current with zombie := true }, .exit (bit signr))
  else
    ({ current.setAction (signr - 1)
          { sa with handler := if sa.has saOneshot then 0#32 else sa.handler } with
        blocked := current.blocked ||| sa.mask },
      .handler sa.handler
        ([sa.restorer, BitVec.ofNat 32 signr] ++
          (if sa.has saNomask then [] else [current.blocked]) ++
          [regs.eax, regs.ecx, regs.edx, regs.eflags, regs.eip]))

/-- `bsfl`, on the signals that are pending and not blocked. -/
def Task.deliverable (t : Task) : Option ℕ := lowestBit (~~~t.blocked &&& t.signal)

/-- `ret_from_sys_call`; `user` says that it returns to user mode, from the code segment and with
the stack segment of a task. -/
def retFromSysCall (p : ℕ) (user : Bool) (regs : Regs) (current : Task) : Task × Delivery :=
  if p = 0 ∨ user = false then (current, .back)
  else match current.deliverable with
    | none => (current, .back)
    | some i =>
      doSignal (i + 1) regs { current with signal := current.signal &&& ~~~bit (i + 1) }

/-! ### Fork and exec -/

/-- The signal fields of a new task. -/
def copyProcess (current : Task) : Task := { current with signal := 0#32 }

/-- `do_execve`, when it succeeds. -/
def doExecve (current : Task) : Task :=
  { current with sigaction := fun i => { current.sigaction i with handler := 0#32 } }

/-! ### Runs -/

/-- `INIT_TASK`. -/
def initTask : Task := ⟨0#32, 0#32, fun _ => ⟨0#32, 0#32, 0#32, 0#32⟩, false⟩

/-- Only task 0 is there. -/
def Boot (s : Sys) : Prop := s.task = Function.update (fun _ => none) 0 (some initTask)

/-- **What a task does.** The actions that it may install are those of `A`, and a signal is
delivered to it when `D` holds. -/
inductive Call (A : Sigaction → Prop) (D : Task → ℕ → Prop) (p : ℕ) (t : Task) : Task → Prop
  | ssetmask (newmask : BitVec 32) : Call A D p t (sysSsetmask newmask t).1
  | signal (signum : ℤ) (handler restorer : BitVec 32) :
    Call A D p t (sysSignal signum handler restorer t).1
  | sigaction (signum : ℤ) (action : Sigaction) (oldaction : Bool) (hA : A action) :
    Call A D p t (sysSigaction signum action oldaction t).1
  | ret (user : Bool) (regs : Regs) (hD : ∀ i, t.deliverable = some i → D t (i + 1)) :
    Call A D p t (retFromSysCall p user regs t).1
  | execve : Call A D p t (doExecve t)

/-- **A step.** Signals are raised by other tasks, by the alarm and from the keyboard. -/
inductive Step (A : Sigaction → Prop) (D : Task → ℕ → Prop) (s : Sys) : Sys → Prop
  | call {p : ℕ} {t t' : Task} (hp : s.task p = some t) (hz : t.zombie = false)
    (h : Call A D p t t') : Step A D s (s.set p (some t'))
  | raise {p : ℕ} {t : Task} (signal : BitVec 32) (hp : s.task p = some t) :
    Step A D s (s.set p (some { t with signal := t.signal ||| signal }))
  | fork {p : ℕ} {t : Task} (nr : ℕ) (hp : s.task p = some t) (hz : t.zombie = false)
    (hnr : s.task nr = none) : Step A D s (s.set nr (some (copyProcess t)))
  | release {p : ℕ} {t : Task} (hp : s.task p = some t) (hz : t.zombie = true) :
    Step A D s (s.set p none)

/-- **The handler does not block `SIGKILL`**, or there is none. -/
def Unblocking (t : Task) (signr : ℕ) : Prop :=
  (t.sigaction (signr - 1)).Caught → (t.sigaction (signr - 1)).mask.getLsbD (sigkill - 1) = false

/-! ### Every task of every run -/

variable {s s' : Sys} {t : Task} {i signr : ℕ} {A : Sigaction → Prop} {D : Task → ℕ → Prop}

/-- A store into one slot, read at all of them. -/
theorem Sys.set_all {P : Task → Prop} (h : ∀ p t, s.task p = some t → P t) {p : ℕ}
    {o : Option Task} (ho : ∀ t, o = some t → P t) :
    ∀ q t, (s.set p o).task q = some t → P t := by
  intro q t hq
  rw [Sys.set_task] at hq
  split_ifs at hq
  · exact ho t hq
  · exact h q t hq

/-- **What holds of task 0 at the start**, is kept by every call and has nothing to do with the
signals that are pending, holds of every task: the others are copies. -/
theorem forall_task {P : Task → Prop} (h : Reachable Boot (Step A D) s) (h0 : P initTask)
    (hsignal : ∀ t signal, P t → P { t with signal := signal })
    (hcall : ∀ p t t', P t → Call A D p t t' → P t') : ∀ p t, s.task p = some t → P t := by
  refine h.inv (I := fun s => ∀ p t, s.task p = some t → P t) ?_ ?_
  · intro s hs p t hp
    rw [Boot] at hs
    rw [hs, Function.update_apply] at hp
    split_ifs at hp
    exact Option.some.inj hp ▸ h0
  · intro s s' h hs
    cases hs with
    | call hp hz hc =>
      exact Sys.set_all h fun t ht => Option.some.inj ht ▸ hcall _ _ _ (h _ _ hp) hc
    | raise signal hp =>
      exact Sys.set_all h fun t ht => Option.some.inj ht ▸ hsignal _ _ (h _ _ hp)
    | fork nr hp =>
      exact Sys.set_all h fun t ht => Option.some.inj ht ▸ hsignal _ _ (h _ _ hp)
    | release hp => exact Sys.set_all h (by rintro t ⟨⟩)

/-! ### The handler of `SIGKILL` -/

/-- **Killed by default.** -/
def Defaults (t : Task) : Prop := (t.sigaction (sigkill - 1)).handler = 0#32

/-- A signal that may be set has an entry of its own. -/
theorem Settable.ne {signum : ℤ} (h : Settable signum) : sigkill - 1 ≠ signum.toNat - 1 := by
  simp only [Settable, sigkill, Nat.cast_ofNat] at h
  rw [sigkill]
  omega

theorem sysSignal_sigkill (signum : ℤ) (handler restorer : BitVec 32) :
    (sysSignal signum handler restorer t).1.sigaction (sigkill - 1) =
      t.sigaction (sigkill - 1) := by
  rw [sysSignal]
  split_ifs with h
  · exact setAction_of_ne h.ne
  · rfl

theorem sysSigaction_sigkill (signum : ℤ) (action : Sigaction) (oldaction : Bool) :
    (sysSigaction signum action oldaction t).1.sigaction (sigkill - 1) =
      t.sigaction (sigkill - 1) := by
  rw [sysSigaction]
  by_cases h : Settable signum
  · rw [if_pos h]
    exact setAction_of_ne h.ne
  · rw [if_neg h]

theorem Defaults.doSignal (h : Defaults t) (regs : Regs) : Defaults (doSignal signr regs t).1 := by
  by_cases hign : (t.sigaction (signr - 1)).handler = 1#32
  · simpa only [Signals.doSignal, if_pos hign] using h
  by_cases hdfl : (t.sigaction (signr - 1)).handler = 0#32
  · simp only [Signals.doSignal, if_neg hign, if_pos hdfl]
    split <;> exact h
  · -- the signal that has a handler is another one
    have hne : sigkill - 1 ≠ signr - 1 := by
      intro heq
      rw [Defaults, heq] at h
      exact hdfl h
    simp only [Signals.doSignal, if_neg hign, if_neg hdfl]
    rw [Defaults]
    exact (congrArg Sigaction.handler (setAction_of_ne hne)).trans h

/-! ### What is blocked -/

theorem sysSsetmask_blocked (newmask : BitVec 32) :
    (sysSsetmask newmask t).1.blocked.getLsbD (sigkill - 1) = false := by
  rw [sysSsetmask]
  simp [sigkill, bit]

theorem sysSignal_blocked (signum : ℤ) (handler restorer : BitVec 32) :
    (sysSignal signum handler restorer t).1.blocked = t.blocked := by
  rw [sysSignal]
  split_ifs <;> rfl

theorem sysSigaction_blocked (signum : ℤ) (action : Sigaction) (oldaction : Bool) :
    (sysSigaction signum action oldaction t).1.blocked = t.blocked := by
  rw [sysSigaction]
  by_cases h : Settable signum
  · rw [if_pos h]
    rfl
  · rw [if_neg h]

/-- **A handler adds its mask**; nothing else in `do_signal` changes what is blocked. -/
theorem doSignal_blocked (regs : Regs) (i : ℕ) :
    (doSignal signr regs t).1.blocked.getLsbD i = true ↔ t.blocked.getLsbD i = true ∨
      (t.sigaction (signr - 1)).Caught ∧ (t.sigaction (signr - 1)).mask.getLsbD i = true := by
  by_cases hign : (t.sigaction (signr - 1)).handler = 1#32
  · simp [doSignal, Sigaction.Caught, hign]
  by_cases hdfl : (t.sigaction (signr - 1)).handler = 0#32
  · simp only [doSignal, Sigaction.Caught, if_neg hign, if_pos hdfl]
    split <;> simp [hdfl]
  · simp [doSignal, Sigaction.Caught, hign, hdfl]

/-! ### Killed in every run -/

/-- **`SIGKILL` gets through.** -/
structure Killable (t : Task) : Prop where
  unblocked : t.blocked.getLsbD (sigkill - 1) = false
  defaults : Defaults t

/-- What is pending of `SIGKILL` is what `ret_from_sys_call` sees of it. -/
theorem Killable.pending (h : Killable t) :
    (~~~t.blocked &&& t.signal).getLsbD (sigkill - 1) = t.signal.getLsbD (sigkill - 1) := by
  have hb := h.unblocked
  rw [BitVec.getLsbD_and, BitVec.getLsbD_not, hb]
  simp [sigkill]

theorem Killable.doSignal (h : Killable t) (hu : Unblocking t signr) (regs : Regs) :
    Killable (doSignal signr regs t).1 := by
  refine ⟨?_, h.defaults.doSignal regs⟩
  rw [← Bool.not_eq_true, doSignal_blocked, h.unblocked]
  rintro (hf | ⟨hc, hm⟩)
  · cases hf
  · rw [hu hc] at hm
    cases hm

theorem Killable.retFromSysCall {p : ℕ} {user : Bool} (h : Killable t)
    (hu : ∀ i, t.deliverable = some i → Unblocking t (i + 1)) (regs : Regs) :
    Killable (retFromSysCall p user regs t).1 := by
  rw [Signals.retFromSysCall]
  split_ifs with hp
  · exact h
  · cases hd : t.deliverable with
    | none => exact h
    | some i =>
      have hk : Killable { t with signal := t.signal &&& ~~~bit (i + 1) } := ⟨h.1, h.2⟩
      exact hk.doSignal (hu i hd) regs

/-- **A call** keeps the task killable. -/
theorem Killable.call {p : ℕ} {t' : Task} (h : Killable t) (hc : Call A Unblocking p t t') :
    Killable t' := by
  cases hc with
  | ssetmask newmask => exact ⟨sysSsetmask_blocked newmask, h.defaults⟩
  | signal signum handler restorer =>
    constructor
    · rw [sysSignal_blocked]
      exact h.unblocked
    · rw [Defaults, sysSignal_sigkill]
      exact h.defaults
  | sigaction signum action oldaction =>
    constructor
    · rw [sysSigaction_blocked]
      exact h.unblocked
    · rw [Defaults, sysSigaction_sigkill]
      exact h.defaults
  | ret user regs hD => exact h.retFromSysCall hD regs
  | execve => exact ⟨h.unblocked, rfl⟩

/-! ### What the user may ask for -/

/-! ### Held off, and not -/

/-- **`SIGKILL` cannot be held off**, as long as no handler is entered whose action blocks it: no
task blocks `SIGKILL` or has a handler for it, and `ret_from_sys_call` sees it when it is pending.
A handler whose action blocks it is enough to block it. -/
theorem sigkill_unblocked (s : Sys) :
    (Reachable Boot (Step (fun _ => True) Unblocking) s → ∀ p t, s.task p = some t →
      t.blocked.getLsbD (sigkill - 1) = false ∧
        (t.sigaction (sigkill - 1)).handler = 0#32 ∧
        (~~~t.blocked &&& t.signal).getLsbD (sigkill - 1) = t.signal.getLsbD (sigkill - 1)) ∧
      ∀ p t i regs, p ≠ 0 → t.deliverable = some i → ¬Unblocking t (i + 1) →
        (retFromSysCall p true regs t).1.blocked.getLsbD (sigkill - 1) = true := by
  constructor
  · intro h p t hp
    have hk : Killable t :=
      forall_task h ⟨by decide, rfl⟩ (fun _ _ hk => ⟨hk.1, hk.2⟩) (fun _ _ _ hk => hk.call) p t hp
    exact ⟨hk.unblocked, hk.defaults, hk.pending⟩
  · intro p t i regs hp hi hu
    rw [Unblocking, Classical.not_imp, Bool.not_eq_false] at hu
    have hret : retFromSysCall p true regs t =
        doSignal (i + 1) regs { t with signal := t.signal &&& ~~~bit (i + 1) } := by
      simp only [retFromSysCall, if_neg (show ¬(p = 0 ∨ true = false) by simp [hp]), hi]
    rw [hret, doSignal_blocked]
    exact Or.inr hu

/-! ### A handler that blocks it -/

/-- The action of the handler: at 0x1000, and all signals blocked. -/
def blockAll : Sigaction := ⟨0x1000#32, 0xffffffff#32, 0#32, 0x2000#32⟩

/-- Task 1 has installed it for `SIGINT`, and `SIGINT` comes. -/
def interrupted : Task :=
  let t := (sysSigaction 2 blockAll false (copyProcess initTask)).1
  { t with signal := t.signal ||| bit 2 }

/-- The registers of a task, all zero. -/
def noRegs : Regs := ⟨0#32, 0#32, 0#32, 0#32, 0#32⟩

/-- **`SIGKILL` is held off** by a task that handles `SIGINT` with all signals blocked. -/
theorem not_sigkill_unblocked :
    ¬∀ s, Reachable Boot (Step (fun _ => True) fun _ _ => True) s → ∀ p t, s.task p = some t →
      t.blocked.getLsbD (sigkill - 1) = false ∧
        (t.sigaction (sigkill - 1)).handler = 0#32 ∧
        (~~~t.blocked &&& t.signal).getLsbD (sigkill - 1) = t.signal.getLsbD (sigkill - 1) := by
  intro h
  have h0 : Reachable Boot (Step (fun _ => True) fun _ _ => True)
      ⟨Function.update (fun _ => none) 0 (some initTask)⟩ := .start rfl
  have h1 := h0.next (.fork (p := 0) (t := initTask) 1 rfl rfl rfl)
  have h2 := h1.next (.call (p := 1) (t := copyProcess initTask) rfl rfl
    (.sigaction 2 blockAll false trivial))
  have h3 := h2.next (.raise (p := 1) (bit 2) rfl)
  have h4 := h3.next (.call (p := 1) (t := interrupted) rfl rfl
    (.ret true noRegs fun _ _ => trivial))
  have hb := (h _ h4 1 _ rfl).1
  exact absurd hb (by decide)

end Linux011.Kernel.Signals

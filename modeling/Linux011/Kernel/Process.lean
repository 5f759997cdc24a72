import Linux011.Lib.Run
import Mathlib.Data.BitVec

/-!
# Fork, exit and waitpid

The process table of `kernel/sched.c`, and the three calls that change it:
`find_empty_process` and `copy_process` of `kernel/fork.c`, `do_exit`, `sys_waitpid` and
what they use of `kernel/exit.c`.

A task is known by the page of its structure, which is also its kernel stack; `task[]`
points from slots to pages. Father and child know each other by pid only, and pids are
given out again once the counter has gone round.

The calls are cut where they can sleep. `do_exit` may sleep while it closes its files,
after it has given its children to init and before it is a zombie; `sys_waitpid` sleeps
when no child has anything to tell. Anybody else may run in between.

Task 0 runs `main`: it forks once, which makes init, and pauses for ever.
-/

namespace Linux011.Kernel.Process

/-! ### The state -/

/-- The states of a task. -/
inductive State
  | running
  | interruptible
  | uninterruptible
  | zombie
  | stopped
  deriving DecidableEq

/-- **The task structure**, as far as the three calls look at it. -/
structure Task where
  state : State
  signal : BitVec 32
  exitCode : ℤ
  pid : ℤ
  father : ℤ
  pgrp : ℤ
  session : ℤ
  leader : Bool
  utime : ℕ
  stime : ℕ
  cutime : ℕ
  cstime : ℕ

/-- Where a task is in the code. -/
inductive Ctl
  /-- Task 0, before its fork. -/
  | main
  /-- Task 0, from then on. -/
  | idle
  /-- Outside the three calls. -/
  | user
  /-- Asleep in `sys_waitpid`. -/
  | waiting (pid : ℤ) (options : BitVec 32)
  /-- In `do_exit`, after the loop over the children. -/
  | exiting (code : ℤ)
  deriving DecidableEq

/-- **The process table**, the pages the structures are in, and the console. The last
three fields are a record only: how many tasks there have been, which of them is in a
page, and which have been released. -/
structure Sys where
  task : ℕ → Option ℕ
  proc : ℕ → Task
  ctl : ℕ → Ctl
  lastPid : ℤ
  console : List String
  births : ℕ
  birth : ℕ → ℕ
  released : List ℕ

/-- What stops the machine. -/
inductive Halt
  | panic (message : String)
  /-- A loop of the kernel that does not end. -/
  | hang

/-- Code of the kernel. -/
abbrev M := EStateM Halt Sys

namespace Sys

variable (s : Sys)

/-- `p->... = ...`. -/
def setProc (p : ℕ) (f : Task → Task) : Sys :=
  { s with proc := Function.update s.proc p (f (s.proc p)) }

@[simp] theorem proc_setProc_self {p : ℕ} {f : Task → Task} :
    (s.setProc p f).proc p = f (s.proc p) := Function.update_self ..

theorem proc_setProc_of_ne {p q : ℕ} {f : Task → Task} (h : q ≠ p) :
    (s.setProc p f).proc q = s.proc q := Function.update_of_ne h ..

/-- `task[i] = p`. -/
def setTask (i : ℕ) (p : Option ℕ) : Sys := { s with task := Function.update s.task i p }

/-- The task goes on elsewhere. -/
def setCtl (p : ℕ) (c : Ctl) : Sys := { s with ctl := Function.update s.ctl p c }

/-- Whether some task has the pid. -/
def pidUsed (pid : ℤ) : Bool :=
  (List.range 64).any fun i => match s.task i with
    | none => false
    | some p => (s.proc p).pid == pid

end Sys

/-- `printk`. -/
def printk (message : String) : M Unit :=
  modify fun s => { s with console := s.console ++ [message] }

/-! ### Fork -/

/-- `if ((++last_pid)<0) last_pid=1;` -/
def nextPid (lastPid : ℤ) : ℤ :=
  let pid := if lastPid = 2 ^ 31 - 1 then -2 ^ 31 else lastPid + 1
  if pid < 0 then 1 else pid

/-- The `repeat` of `find_empty_process`, for so many rounds. -/
def freePid (used : ℤ → Bool) : ℕ → ℤ → Option ℤ
  | 0, _ => none
  | n + 1, lastPid =>
    if used (nextPid lastPid) then freePid used n (nextPid lastPid) else some (nextPid lastPid)

/-- `find_empty_process`. There are 64 tasks, so that 65 rounds are enough. -/
def findEmptyProcess : M (Option ℕ) := do
  let s ← get
  match freePid s.pidUsed 65 s.lastPid with
  | none => throw .hang
  | some pid => do
    modify fun s => { s with lastPid := pid }
    pure ((List.range' 1 63).find? fun i => (s.task i).isNone)

/-- The structure of a new task. -/
def child (current : Task) (lastPid : ℤ) : Task :=
  { current with
    state := .uninterruptible
    pid := lastPid
    father := current.pid
    signal := 0#32
    leader := false
    utime := 0
    stime := 0
    cutime := 0
    cstime := 0 }

/-- `copy_process`: the page it gets for the structure, if any, and whether there is room
for the page tables. -/
def copyProcess (cur nr : ℕ) (page : Option ℕ) (room : Bool) : M ℤ := do
  match page with
  | none => pure (-11)
  | some p => do
    modify fun s => s.setTask nr (some p)
    modify fun s => s.setProc p fun _ => child (s.proc cur) s.lastPid
    if room then
      modify fun s => { s with births := s.births + 1, birth := Function.update s.birth p s.births }
      modify fun s => (s.setProc p fun t => { t with state := .running }).setCtl p .user
      pure (← get).lastPid
    else
      modify fun s => s.setTask nr none
      pure (-11)

/-- `sys_fork`. -/
def sysFork (cur : ℕ) (page : Option ℕ) (room : Bool) : M ℤ := do
  match ← findEmptyProcess with
  | none => pure (-11)
  | some nr => copyProcess cur nr page room

/-! ### Exit -/

/-- `release`. -/
def release (p : Option ℕ) : M Unit := do
  match p with
  | none => pure ()
  | some p => do
    match ← forUntil 1 63 fun i => do
        if (← get).task i = some p then
          modify fun s => { s.setTask i none with released := s.released ++ [s.birth p] }
          pure (some ())
        else pure none with
    | some _ => pure ()
    | none => throw (.panic "trying to release non-existent task")

/-- The bit of a signal. -/
def sigBit (sig : ℕ) : BitVec 32 := 1#32 <<< (sig - 1)

/-- `send_sig`, with `priv` set. -/
def sendSig (sig : ℕ) (p : Option ℕ) : M ℤ := do
  match p with
  | none => pure (-22)
  | some p =>
    if sig < 1 ∨ 32 < sig then pure (-22)
    else do
      modify fun s => s.setProc p fun t => { t with signal := t.signal ||| sigBit sig }
      pure 0

/-- `SIGHUP`. -/
def sighup : ℕ := 1

/-- `SIGCHLD`. -/
def sigchld : ℕ := 17

/-- `kill_session`. -/
def killSession (cur : ℕ) : M Unit :=
  forFrom 0 63 fun i => do
    let s ← get
    match s.task (63 - i) with
    | none => pure ()
    | some p =>
      if (s.proc p).session = (s.proc cur).session then
        modify fun s => s.setProc p fun t => { t with signal := t.signal ||| sigBit sighup }
      else pure ()

/-- `tell_father`. -/
def tellFather (cur : ℕ) (pid : ℤ) : M Unit := do
  let found ← if pid ≠ 0 then
      forUntil 0 64 fun i => do
        let s ← get
        match s.task i with
        | none => pure none
        | some p =>
          if (s.proc p).pid ≠ pid then pure none
          else do
            modify fun s => s.setProc p fun t => { t with signal := t.signal ||| sigBit sigchld }
            pure (some ())
    else pure none
  match found with
  | some _ => pure ()
  | none => do
    printk "BAD BAD - no father found\n\r"
    release (some cur)

/-- The children of a task that exits are given to init. -/
def reparent (cur : ℕ) : M Unit :=
  forFrom 0 64 fun i => do
    let s ← get
    match s.task i with
    | none => pure ()
    | some p =>
      if (s.proc p).father = (s.proc cur).pid then do
        modify fun s => s.setProc p fun t => { t with father := 1 }
        if (s.proc p).state = .zombie then
          -- assumption task[1] is always init
          let _ ← sendSig sigchld (s.task 1)
        else pure ()
      else pure ()

/-- `do_exit`, up to the closing of the files. -/
def doExit (cur : ℕ) (code : ℤ) : M Unit := do
  reparent cur
  modify fun s => s.setCtl cur (.exiting code)

/-- `do_exit`, after the closing of the files. -/
def finishExit (cur : ℕ) (code : ℤ) : M Unit := do
  let s ← get
  (if (s.proc cur).leader then killSession cur else pure ())
  modify fun s => s.setProc cur fun t => { t with state := .zombie, exitCode := code }
  tellFather cur ((← get).proc cur).father

/-! ### Waitpid -/

/-- Whether a task is one of those `sys_waitpid` is asked for. -/
def asked (pid : ℤ) (current p : Task) : Bool :=
  if 0 < pid then p.pid == pid
  else if pid = 0 then p.pgrp == current.pgrp
  else if pid ≠ -1 then p.pgrp == -pid
  else true

/-- `WNOHANG`. -/
def wnohang : BitVec 32 := 1#32

/-- `WUNTRACED`. -/
def wuntraced : BitVec 32 := 2#32

/-- The loop of `sys_waitpid`, from `&task[n]` down: what it returns and stores at
`stat_addr`, and `flag`. -/
def waitLoop (cur : ℕ) (pid : ℤ) (options : BitVec 32) : ℕ → Bool → M (Option (ℤ × ℤ) × Bool)
  | 0, flag => pure (none, flag)
  | n + 1, flag => do
    let s ← get
    match s.task (n + 1) with
    | none => waitLoop cur pid options n flag
    | some p =>
      if p = cur then waitLoop cur pid options n flag
      else if (s.proc p).father ≠ (s.proc cur).pid then waitLoop cur pid options n flag
      else if ¬asked pid (s.proc cur) (s.proc p) then waitLoop cur pid options n flag
      else match (s.proc p).state with
        | .stopped =>
          if options &&& wuntraced = 0#32 then waitLoop cur pid options n flag
          else pure (some ((s.proc p).pid, 0x7f), flag)
        | .zombie => do
          modify fun s => s.setProc cur fun t =>
            { t with cutime := t.cutime + (s.proc p).utime, cstime := t.cstime + (s.proc p).stime }
          release (some p)
          pure (some ((s.proc p).pid, (s.proc p).exitCode), flag)
        | _ => waitLoop cur pid options n true

/-- `sys_waitpid`, from `repeat` on: what it returns and stores, if it does not go to
sleep. -/
def sysWaitpid (cur : ℕ) (pid : ℤ) (options : BitVec 32) : M (Option (ℤ × Option ℤ)) := do
  match ← waitLoop cur pid options 63 false with
  | (some (v, code), _) => do
    modify fun s => s.setCtl cur .user
    pure (some (v, some code))
  | (none, true) =>
    if options &&& wnohang ≠ 0#32 then do
      modify fun s => s.setCtl cur .user
      pure (some (0, none))
    else do
      modify fun s => (s.setProc cur fun t => { t with state := .interruptible }).setCtl cur
        (.waiting pid options)
      pure none
  | (none, false) => do
    modify fun s => s.setCtl cur .user
    pure (some (-10, none))

/-- `sys_waitpid`, when it has slept. -/
def resumeWaitpid (cur : ℕ) (pid : ℤ) (options : BitVec 32) : M (Option (ℤ × Option ℤ)) := do
  modify fun s => s.setProc cur fun t => { t with signal := t.signal &&& ~~~sigBit sigchld }
  if ((← get).proc cur).signal = 0#32 then sysWaitpid cur pid options
  else do
    modify fun s => s.setCtl cur .user
    pure (some (-4, none))

/-! ### Steps -/

/-- The steps; a task is named by its page. -/
inductive Act
  /-- `sys_fork`, with the page `get_free_page` finds and whether there is room for the
  page tables. -/
  | fork (cur : ℕ) (page : Option ℕ) (room : Bool)
  | exit (cur : ℕ) (code : ℤ)
  /-- A file that is closed puts the task to sleep. -/
  | sleepExit (cur : ℕ)
  | finishExit (cur : ℕ)
  | waitpid (cur : ℕ) (pid : ℤ) (options : BitVec 32)
  | resumeWaitpid (cur : ℕ)
  /-- A task that sleeps is woken. -/
  | wake (p : ℕ)
  /-- What other calls and the clock do to the fields the three calls look at. -/
  | adjust (p : ℕ) (signal : BitVec 32) (pgrp session : ℤ) (leader : Bool) (utime stime : ℕ)

/-- **What a step does.** -/
def perform : Act → M Unit
  | .fork cur page room => do
    modify fun s => if s.ctl cur = .main then s.setCtl cur .idle else s
    let _ ← sysFork cur page room
  | .exit cur code => doExit cur code
  | .sleepExit cur => modify fun s => s.setProc cur fun t => { t with state := .uninterruptible }
  | .finishExit cur => do
    match (← get).ctl cur with
    | .exiting code => finishExit cur code
    | _ => pure ()
  | .waitpid cur pid options => do
    let _ ← sysWaitpid cur pid options
  | .resumeWaitpid cur => do
    match (← get).ctl cur with
    | .waiting pid options => do
      let _ ← resumeWaitpid cur pid options
    | _ => pure ()
  | .wake p => modify fun s => s.setProc p fun t => { t with state := .running }
  | .adjust p signal pgrp session leader utime stime => modify fun s => s.setProc p fun t =>
    { t with
      signal := signal
      pgrp := pgrp
      session := session
      leader := leader
      utime := utime
      stime := stime }

/-- The page is that of a task. -/
def Sys.Listed (s : Sys) (p : ℕ) : Prop := ∃ i, i < 64 ∧ s.task i = some p

/-- A task that runs. -/
def Sys.Runs (s : Sys) (p : ℕ) : Prop := s.Listed p ∧ (s.proc p).state = .running

/-- **When a step can happen.** Task 0 only forks, and init does not exit; a page that is
free holds no task. -/
def Enabled (s : Sys) : Act → Prop
  | .fork cur page _ => s.Runs cur ∧ (s.ctl cur = .user ∨ s.ctl cur = .main) ∧
    ∀ p, page = some p → ¬s.Listed p
  | .exit cur _ => s.Runs cur ∧ s.ctl cur = .user ∧ s.task 1 ≠ some cur
  | .sleepExit cur => s.Runs cur ∧ ∃ code, s.ctl cur = .exiting code
  | .finishExit cur => s.Runs cur ∧ ∃ code, s.ctl cur = .exiting code
  | .waitpid cur _ _ => s.Runs cur ∧ s.ctl cur = .user
  | .resumeWaitpid cur => s.Runs cur ∧ ∃ pid options, s.ctl cur = .waiting pid options
  | .wake p => s.Listed p ∧ (s.proc p).state ≠ .zombie
  | .adjust p _ _ _ _ _ _ => s.Listed p

/-- **One step.** -/
def Step (s s' : Sys) : Prop := ∃ a, Enabled s a ∧ perform a s = .ok () s'

/-- `INIT_TASK`. -/
def initTask : Task where
  state := .running
  signal := 0#32
  exitCode := 0
  pid := 0
  father := -1
  pgrp := 0
  session := 0
  leader := false
  utime := 0
  stime := 0
  cutime := 0
  cstime := 0

/-- **The machine when `main` forks**: there is task 0 only. -/
def Boot (s : Sys) : Prop :=
  ∃ p, s.task = Function.update (fun _ => none) 0 (some p) ∧ s.proc p = initTask ∧
    s.ctl p = .main ∧ s.lastPid = 0 ∧ s.console = [] ∧ s.births = 1 ∧ s.birth p = 0 ∧
    s.released = []

end Linux011.Kernel.Process

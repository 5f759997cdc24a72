import Linux011.Buffer.Frames
import Linux011.Lib.Run
import Mathlib.Algebra.BigOperators.Fin

/-!
# Tasks over the buffer cache

Any number of tasks, each with a stack of calls into `fs/buffer.c`, and the drivers.
What the rest of the kernel does with a buffer between two calls is an `Act`: it asks
for a buffer, changes the data of one it holds, marks it, releases it. An `Event` is a
step of the whole: a task runs on, a driver works, a task acts; `step` is a function
of the event, so that all that is left open in a run is the order of its events and
what the tasks choose to do.
-/

namespace Linux011.Buffer

/-- Where a call begins. -/
def Call.frame : Call → Frame
  | .getHashTable dev block => .getHashTable dev block
  | .getblk dev block => .getblk dev block
  | .bread dev block => .bread dev block
  | .breada dev first ahead => .breada dev first ahead
  | .syncDev dev => .sync (some dev) false 0
  | .sysSync => .syncInodes none

/-- **A task**, as the cache sees it. -/
structure Task where
  /-- Its calls under way, the innermost first. -/
  stack : List Frame
  /-- What the last of them returned. -/
  ret : Option Ref
  /-- The buffers it has been given and has not released. -/
  held : List Ref
  /-- The buffers it has changed and not yet marked. -/
  changed : List ℕ

/-- A task that is outside the cache, or in a function that calls it. -/
def Task.idle (t : Task) : Bool :=
  match t.stack with
  | [] => true
  | .syncInodes _ :: _ => true
  | _ => false

/-- What a task may do between two calls. -/
inductive Act
  /-- It takes what a call has returned. -/
  | take
  | call (c : Call)
  /-- `brelse`. -/
  | release (e : Ref)
  /-- A change of `b_data`. -/
  | store (e : Ref) (f : Block → Block)
  /-- `b_dirt = 1`. -/
  | mark (e : Ref)
  /-- `b_uptodate = 1`. -/
  | validate (e : Ref)

/-- A step of the whole. -/
inductive Event (n : ℕ)
  /-- A task runs on. -/
  | run (t : Fin n)
  /-- A task acts. -/
  | act (t : Fin n) (a : Act)
  /-- The driver of a major number moves the block of its current request. -/
  | move (maj : ℕ)
  /-- It ends the request. -/
  | endRequest (maj : ℕ) (uptodate : Bool) (junk : Block)

/-- **The whole**: the cache and the disks, the tasks, and what has been stored in each
block, which is a record only. -/
structure State (n : ℕ) where
  sys : Sys
  task : Fin n → Task
  stored : ℕ → ℕ → Block

namespace State

variable {n : ℕ} (s : State n)

/-- A store into the state of a task. -/
def setTask (t : Fin n) (v : Task) : State n := { s with task := Function.update s.task t v }

/-- The task `t` runs on. -/
def run (t : Fin n) : Option (State n) :=
  match (s.task t).stack with
  | [] => none
  | f :: st =>
    match f.step s.sys (s.task t).ret with
    | .go sys fs ret =>
      some { s.setTask t { s.task t with stack := fs ++ st, ret := ret } with sys := sys }
    | .wait => none
    | .panic => none

/-- The task `t` acts. -/
def act (t : Fin n) (a : Act) : Option (State n) :=
  let v := s.task t
  match a with
  | .take =>
    match v.stack with
    | .caller _ :: st =>
      some (s.setTask t { v with stack := st, ret := none, held := v.ret.toList ++ v.held })
    | _ => none
  | .call c =>
    if v.idle then
      some (s.setTask t { v with stack := c.frame :: .caller (some c) :: v.stack, ret := none })
    else none
  | .release e =>
    if v.idle ∧ e ∈ v.held then
      some (s.setTask t { v with
        stack := .brelse e :: .caller none :: v.stack
        ret := none
        held := v.held.erase e
        changed := v.changed.filter (· ≠ e.bh) })
    else none
  | .store e f =>
    if v.idle ∧ e ∈ v.held then
      some { s.setTask t { v with changed := e.bh :: v.changed } with
        sys := s.sys.setHead e.bh fun h => { h with data := f h.data }
        stored := Function.update s.stored e.dev
          (Function.update (s.stored e.dev) e.block (f (s.stored e.dev e.block))) }
    else none
  | .mark e =>
    if v.idle ∧ e ∈ v.held then
      some { s.setTask t { v with changed := v.changed.filter (· ≠ e.bh) } with
        sys := s.sys.setHead e.bh fun h => { h with dirt := true } }
    else none
  | .validate e =>
    if v.idle ∧ e ∈ v.held then
      some { s with sys := s.sys.setHead e.bh fun h => { h with uptodate := true } }
    else none

/-- **A step.** -/
def step : Event n → Option (State n)
  | .run t => s.run t
  | .act t a => s.act t a
  | .move maj => (s.sys.move maj).map fun sys => { s with sys := sys }
  | .endRequest maj uptodate junk =>
    (s.sys.endRequest maj uptodate junk).map fun sys => { s with sys := sys }

/-- **The start**: the heads are as `buffer_init` leaves them, there are no requests and
no calls, and what is stored in a block is what is on the disk. -/
structure Start : Prop where
  cache : ∃ m old, 0 < m ∧ s.sys.cache = bufferInit m old
  slot : ∀ i, s.sys.slot i = none
  queue : ∀ maj, s.sys.queue maj = []
  moved : ∀ maj, s.sys.moved maj = false
  task : ∀ t, s.task t = ⟨[], none, [], []⟩
  stored : s.stored = s.sys.disk

end State

end Linux011.Buffer

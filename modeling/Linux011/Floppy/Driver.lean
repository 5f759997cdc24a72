import Linux011.Block.Requests
import Linux011.Lib.Logged

/-!
# The floppy driver

`kernel/blk_drv/floppy.c`. `do_fd_request` sets the globals up for the first request of the queue
and has a timer start the motor; `transfer` goes to the track, if `seek` says so, and
`setup_rw_floppy` programs the transfer. An interrupt goes on from where `do_floppy` says. All
routines that call `do_fd_request` do so at their end, so that the call is a step of its own here
(`Linux011.Floppy.State.calling`).

The controller takes its commands byte by byte, and may refuse any of them. It has a head on each
drive, which only a seek or a recalibration moves that has been completed. Which interrupts come,
and what the controller answers, is left open, but for one thing: when it says that a seek has
ended as it should, that is so, and the cylinder it names is where the head has been sent
(`Linux011.Floppy.State.Due`).

For the record, what `setup_rw_floppy` has programmed is kept, with the place the head was at, and
with what queue `CURRENT` has been used. Where there is none, the routines would go on at
address 0, where the page directory is; that is a crash here, unless nothing but a number is
read there.
-/

namespace Linux011.Floppy

open Block (Request Cmd)

/-- `struct floppy_struct`. -/
structure FloppyStruct where
  size : ℕ
  sect : ℕ
  head : ℕ
  track : ℕ
  stretch : ℕ
  gap : ℕ
  rate : ℕ
  spec1 : ℕ
  deriving DecidableEq

/-- `floppy_type`. -/
def floppyTable : List FloppyStruct :=
  [⟨0, 0, 0, 0, 0, 0x00, 0x00, 0x00⟩,
    ⟨720, 9, 2, 40, 0, 0x2A, 0x02, 0xDF⟩,
    ⟨2400, 15, 2, 80, 0, 0x1B, 0x00, 0xDF⟩,
    ⟨720, 9, 2, 40, 1, 0x2A, 0x02, 0xDF⟩,
    ⟨1440, 9, 2, 80, 0, 0x2A, 0x02, 0xDF⟩,
    ⟨720, 9, 2, 40, 1, 0x23, 0x01, 0xDF⟩,
    ⟨1440, 9, 2, 80, 0, 0x23, 0x01, 0xDF⟩,
    ⟨2880, 18, 2, 80, 0, 0x1B, 0x00, 0xCF⟩]

/-- **How the kernel lies in memory**: what a type beyond the table finds there, and where
`tmp_floppy_area` is. -/
structure Image where
  beyond : ℕ → FloppyStruct
  tmpFloppyArea : ℕ

/-- `floppy_type + n`. -/
def Image.floppyType (M : Image) (n : ℕ) : FloppyStruct := floppyTable.getD n (M.beyond n)

/-- `MINOR(dev)>>2`, the type. -/
def typeOf (r : Request) : ℕ := (r.dev % 256).toNat / 4

/-- `DEVICE_NR(dev)`, the drive. -/
def deviceNr (r : Request) : ℕ := (r.dev % 4).toNat

/-- The cylinder that a sector lies on, `track << stretch`; both are bytes. -/
def FloppyStruct.cylinder (f : FloppyStruct) (block : ℕ) : ℕ :=
  (block / f.sect / f.head % 256) <<< (f.stretch % 32) % 256

/-- What `do_floppy` may be. -/
inductive Handler
  | rwInterrupt
  | seekInterrupt
  | recalInterrupt
  | resetInterrupt
  deriving DecidableEq

/-- What a timer may be set to call. -/
inductive Timer
  | floppyOnInterrupt
  | transfer
  deriving DecidableEq

/-- What `setup_DMA` has put out: the address, and whether it is read from the disk. -/
structure Dma where
  addr : ℕ
  read : Bool

/-- **A transfer that has been programmed**: for which drive and cylinder, and where the head of
that drive was. -/
structure Programmed where
  drive : ℕ
  seekTrack : ℕ
  head : ℕ
  deriving DecidableEq

/-- Why the kernel stops. -/
inductive Fault
  /-- A panic, or a division by 0. -/
  | panic
  /-- `CURRENT` has been used, and there was none. -/
  | absent
  deriving DecidableEq

/-- **The driver and the controller.** -/
structure State where
  recalibrate : Bool
  reset : Bool
  seek : Bool
  /-- -1 at the start, as is `curRate`. -/
  curSpec1 : ℤ
  curRate : ℤ
  /-- The number of the type. -/
  floppy : ℕ
  currentDrive : ℕ
  sector : ℕ
  head : ℕ
  track : ℕ
  seekTrack : ℕ
  /-- 255 at the start. -/
  currentTrack : ℕ
  command : ℕ
  selected : Bool
  currentDOR : ℕ
  replyBuffer : List ℕ
  doFloppy : Option Handler
  /-- The first one is `CURRENT`. -/
  queue : List Request
  /-- What timers will call. -/
  timers : List Timer
  /-- `do_fd_request` is called next. -/
  calling : Bool
  dma : Dma
  /-- The bytes of a command that is not complete. -/
  fdc : List ℕ
  /-- Where a head is sent by a command that is under way. -/
  moving : ℕ → Option ℕ
  heads : ℕ → ℕ
  /-- Whether the controller takes the next bytes. -/
  outs : List Bool
  /-- What was ended, and how. -/
  ended : List (Request × Bool)
  programmed : List Programmed
  uses : List (Block.Use Request)

/-- Code of the driver. -/
abbrev FdM : Type → Type := EStateM Fault State

/-! ### The controller -/

/-- `FD_RECALIBRATE` -/
def fdRecalibrate : ℕ := 0x07

/-- `FD_SEEK` -/
def fdSeek : ℕ := 0x0F

/-- `FD_READ` -/
def fdRead : ℕ := 0xE6

/-- `FD_WRITE` -/
def fdWrite : ℕ := 0xC5

/-- `FD_SENSEI` -/
def fdSensei : ℕ := 0x08

/-- `FD_SPECIFY` -/
def fdSpecify : ℕ := 0x03

/-- How many bytes a command has; those to read and to write have nine. -/
def commandLength (b : ℕ) : ℕ :=
  if b = fdSensei then 1
  else if b = fdRecalibrate then 2
  else if b = fdSeek ∨ b = fdSpecify then 3
  else 9

/-- **What the controller answers** to `result`: so many bytes, and whether it is ready then or
keeps silent. -/
structure Reply where
  bytes : List ℕ
  ready : Bool
  deriving DecidableEq

/-- **A seek has ended as it should**, the controller says: the drive and the cylinder. -/
def Reply.arrived (a : Reply) : Option (ℕ × ℕ) :=
  match a.bytes with
  | [st0, pcn] => if a.ready ∧ st0 &&& 0xE0 = 0x20 then some (st0 % 4, pcn) else none
  | _ => none

/-- Where a command that is complete sends the heads. -/
def execute (moving : ℕ → Option ℕ) : List ℕ → ℕ → Option ℕ
  | [b, d] => if b = fdRecalibrate then Function.update moving (d % 4) (some 0) else moving
  | [b, d, c] => if b = fdSeek then Function.update moving (d % 4) (some c) else moving
  | _ => moving

namespace State

variable (s : State)

/-- The controller takes a byte. -/
def take (b : ℕ) : State :=
  let bytes := s.fdc ++ [b]
  if bytes.length < commandLength (bytes.headD 0) then { s with fdc := bytes }
  else { s with fdc := [], moving := execute s.moving bytes }

/-- With an interrupt a movement of the head of a drive may have ended, and been completed. -/
def settle : Option (ℕ × Bool) → State
  | none => s
  | some (d, completed) =>
    { s with
      moving := Function.update s.moving d none
      heads := match completed, s.moving d with
        | true, some c => Function.update s.heads d c
        | _, _ => s.heads }

/-! ### The routines -/

/-- `output_byte`. -/
def outputByte (b : ℕ) : State :=
  if s.reset then s
  else
    match s.outs with
    | false :: outs => { s with reset := true, outs := outs }
    | true :: outs => { s with outs := outs }.take (b % 256)
    | [] => s.take (b % 256)

/-- Bytes, one after the other. -/
def outputBytes (bytes : List ℕ) : State := bytes.foldl outputByte s

/-- `result`; `none` is -1. -/
def result (a : Reply) : Option ℕ × State :=
  if s.reset then (none, s)
  else
    let s := { s with replyBuffer := (a.bytes.take 7 ++ s.replyBuffer.drop a.bytes.length) }
    if a.ready ∧ a.bytes.length ≤ 7 then (some a.bytes.length, s)
    else (none, { s with reset := true })

/-- `ST0` -/
def st0 : ℕ := s.replyBuffer.getD 0 0

/-- `ST1` -/
def st1 : ℕ := s.replyBuffer.getD 1 0

/-- `ST2` -/
def st2 : ℕ := s.replyBuffer.getD 2 0

/-- `head<<2 | current_drive` -/
def unit : ℕ := s.head <<< 2 ||| s.currentDrive

/-- `floppy_deselect`. -/
def floppyDeselect : State := { s with selected := false }

/-- `ticks_to_floppy_on`; how long that will be is left open. -/
def ticksToFloppyOn (nr : ℕ) : State :=
  let mask := 0x10 <<< nr ||| s.currentDOR
  { s with currentDOR := if s.selected then mask else mask &&& 0xFC ||| nr }

end State

variable (M : Image)

/-- `*CURRENT`. -/
def current : FdM Request := do
  let s ← get
  set { s with uses := .deref s.queue :: s.uses }
  match s.queue with
  | [] => throw .absent
  | r :: _ => pure r

/-- `end_request`; the buffer gets to know whether it is up to date. -/
def endRequest (uptodate : Bool) : FdM Unit := do
  let r ← current
  modify fun s => { s with queue := s.queue.tail, ended := (r, uptodate) :: s.ended }

/-- `do_fd_request()`, at the end of a routine. -/
def callDoFdRequest : FdM Unit := modify fun s => { s with calling := true }

/-- `MAX_ERRORS` -/
def maxErrors : ℕ := 8

/-- `bad_flp_intr`. After `end_request(0)` it looks at the errors of the next request; `junk` says
whether what stands at address 0 is a number of errors that calls for a reset. -/
def badFlpIntr (junk : Bool) : FdM Unit := do
  let r ← current
  let failed := { r with errors := r.errors + 1 }
  modify fun s => { s with queue := failed :: s.queue.tail }
  let before ← get
  if maxErrors < failed.errors then
    modify State.floppyDeselect
    endRequest false
  modify fun s => { s with uses := .errors before.queue s.queue :: s.uses }
  let s ← get
  let many := match s.queue with
    | [] => junk
    | r :: _ => decide (maxErrors / 2 < r.errors)
  if many then modify fun s => { s with reset := true }
  else modify fun s => { s with recalibrate := true }

/-- `setup_DMA`; what is copied to `tmp_floppy_area` is left out. -/
def setupDMA : FdM Unit := do
  let r ← current
  let addr := if 0x100000 ≤ r.buffer then M.tmpFloppyArea else r.buffer
  modify fun s => { s with dma := ⟨addr % 0x1000000, s.command == fdRead⟩ }

/-- `setup_rw_floppy`. -/
def setupRwFloppy : FdM Unit := do
  setupDMA M
  modify fun s =>
    { s with
      doFloppy := some .rwInterrupt
      programmed := ⟨s.currentDrive, s.seekTrack, s.heads s.currentDrive⟩ :: s.programmed }
  modify fun s => s.outputBytes
    [s.command, s.unit, s.track, s.head, s.sector, 2, (M.floppyType s.floppy).sect,
      (M.floppyType s.floppy).gap, 0xFF]
  let s ← get
  if s.reset then callDoFdRequest

/-- `rw_interrupt`. -/
def rwInterrupt (a : Reply) (junk : Bool) : FdM Unit := do
  let r ← modifyGet fun s => s.result a
  let s ← get
  if r ≠ some 7 ∨ s.st0 &&& 0xF8 ≠ 0 ∨ s.st1 &&& 0xBF ≠ 0 ∨ s.st2 &&& 0x73 ≠ 0 then
    if s.st1 &&& 0x02 ≠ 0 then
      modify State.floppyDeselect
      endRequest false
    else badFlpIntr junk
    callDoFdRequest
  else
    -- what has been read may have to be copied to `CURRENT->buffer`
    if s.command = fdRead then
      let _ ← current
      pure ()
    modify State.floppyDeselect
    endRequest true
    callDoFdRequest

/-- `seek_interrupt`. -/
def seekInterrupt (a : Reply) (junk : Bool) : FdM Unit := do
  modify fun s => s.outputByte fdSensei
  let r ← modifyGet fun s => s.result a
  let s ← get
  if r ≠ some 2 ∨ s.st0 &&& 0xF8 ≠ 0x20 ∨ s.st1 ≠ s.seekTrack then
    badFlpIntr junk
    callDoFdRequest
  else
    modify fun s => { s with currentTrack := s.st1 }
    setupRwFloppy M

/-- What `transfer` puts out first, where the parameters of the drive have changed. -/
def State.specify (s : State) : State :=
  let spec1 := (M.floppyType s.floppy).spec1
  let rate := (M.floppyType s.floppy).rate
  let s := if s.curSpec1 ≠ spec1 then
    { s with curSpec1 := spec1 }.outputBytes [fdSpecify, spec1, 6]
  else s
  { s with curRate := rate }

/-- `transfer`. -/
def transfer : FdM Unit := do
  modify fun s => s.specify M
  let s ← get
  if s.reset then callDoFdRequest
  else if s.seek = false then setupRwFloppy M
  else
    modify fun s => { s with doFloppy := some .seekInterrupt }
    if s.seekTrack ≠ 0 then modify fun s => s.outputBytes [fdSeek, s.unit, s.seekTrack]
    else modify fun s => s.outputBytes [fdRecalibrate, s.unit]
    let s ← get
    if s.reset then callDoFdRequest

/-- `recal_interrupt`. -/
def recalInterrupt (a : Reply) : FdM Unit := do
  modify fun s => s.outputByte fdSensei
  let r ← modifyGet fun s => s.result a
  let s ← get
  if r ≠ some 2 ∨ s.st0 &&& 0xE0 = 0x60 then modify fun s => { s with reset := true }
  else modify fun s => { s with recalibrate := false }
  callDoFdRequest

/-- `unexpected_floppy_interrupt`. -/
def unexpectedFloppyInterrupt (a : Reply) : FdM Unit := do
  modify fun s => s.outputByte fdSensei
  let r ← modifyGet fun s => s.result a
  let s ← get
  if r ≠ some 2 ∨ s.st0 &&& 0xE0 = 0x60 then modify fun s => { s with reset := true }
  else modify fun s => { s with recalibrate := true }

/-- `recalibrate_floppy`. -/
def recalibrateFloppy : FdM Unit := do
  modify fun s =>
    { s with recalibrate := false, currentTrack := 0, doFloppy := some .recalInterrupt }
  modify fun s => s.outputBytes [fdRecalibrate, s.unit]
  let s ← get
  if s.reset then callDoFdRequest

/-- `reset_interrupt`. -/
def resetInterrupt (a : Reply) : FdM Unit := do
  modify fun s => s.outputByte fdSensei
  let _ ← modifyGet fun s => s.result a
  modify fun s => s.outputBytes [fdSpecify, (s.curSpec1 % 256).toNat, 6]
  callDoFdRequest

/-- `reset_floppy`: the controller forgets what it was doing. -/
def resetFloppy : FdM Unit :=
  modify fun s =>
    { s with
      reset := false
      curSpec1 := -1
      curRate := -1
      recalibrate := true
      doFloppy := some .resetInterrupt
      fdc := []
      moving := fun _ => none }

/-- `floppy_on_interrupt`. -/
def floppyOnInterrupt : FdM Unit := do
  modify fun s => { s with selected := true }
  let s ← get
  if s.currentDrive ≠ s.currentDOR &&& 3 then
    set { s with
      currentDOR := s.currentDOR &&& 0xFC ||| s.currentDrive
      timers := .transfer :: s.timers }
  else transfer M

/-- **The globals for a request** that `do_fd_request` sets. -/
def State.prepare (s : State) (r : Request) : State :=
  let f := M.floppyType s.floppy
  let block := r.sector % 0x100000000
  { s with
    sector := (block % f.sect + 1) % 256
    head := block / f.sect % f.head % 256
    track := block / f.sect / f.head % 256
    seekTrack := f.cylinder block
    seek := s.seek || f.cylinder block ≠ s.currentTrack
    command := match r.cmd with
      | .read => fdRead
      | .write => fdWrite }

/-- `add_timer(ticks_to_floppy_on(current_drive),&floppy_on_interrupt)`; with no time to wait the
function is called at once. There is room for the timer. -/
def startMotor (ticks : ℕ) : FdM Unit := do
  modify fun s => s.ticksToFloppyOn s.currentDrive
  if ticks = 0 then floppyOnInterrupt M
  else modify fun s => { s with timers := .floppyOnInterrupt :: s.timers }

/-- The request asks for more than there is on a disk of its type. -/
def Image.outOfRange (r : Request) : Prop :=
  (M.floppyType (typeOf r)).size < (r.sector + 2) % 0x100000000

instance (r : Request) : Decidable (M.outOfRange r) := inferInstanceAs (Decidable (_ < _))

/-- `do_fd_request` from `repeat` on, for so many requests; their buffers are locked. -/
def nextRequest (ticks : ℕ) : ℕ → FdM Unit
  | 0 => pure ()
  | n + 1 => do
    let s ← get
    if s.queue = [] then return
    let r ← current
    if Block.major r.dev ≠ 2 then throw .panic
    modify fun s =>
      { s with
        floppy := typeOf r
        seek := s.seek || s.currentDrive ≠ deviceNr r
        currentDrive := deviceNr r }
    if M.outOfRange r then
      endRequest false
      nextRequest ticks n
    else if (M.floppyType (typeOf r)).sect = 0 ∨ (M.floppyType (typeOf r)).head = 0 then
      throw .panic
    else
      modify fun s => s.prepare M r
      startMotor M ticks

/-- **`do_fd_request`** -/
def doFdRequest (ticks : ℕ) : FdM Unit := do
  modify fun s => { s with seek := false, calling := false }
  let s ← get
  if s.reset then resetFloppy
  else if s.recalibrate then recalibrateFloppy
  else nextRequest M ticks (s.queue.length + 1)

/-! ### The system -/

/-- **What happens next.** -/
inductive Event
  /-- `add_request`, behind so many of the requests that wait. -/
  | request (r : Request) (behind : ℕ)
  /-- `do_fd_request`, with the ticks until the motor is on. -/
  | doFdRequest (ticks : ℕ) (outs : List Bool)
  /-- A timer is up. -/
  | timer (t : Timer) (outs : List Bool)
  /-- An interrupt; with it a movement of a head may have ended. -/
  | interrupt (ended : Option (ℕ × Bool)) (a : Reply) (outs : List Bool) (junk : Bool)

/-- `add_request`; the first one is served at once. -/
def addRequest (r : Request) (behind : ℕ) : FdM Unit :=
  modify fun s =>
    match s.queue with
    | [] => { s with queue := [r], calling := true }
    | e :: q => { s with queue := e :: (q.take behind ++ r :: q.drop behind) }

/-- What a timer calls. -/
def Timer.run : Timer → FdM Unit
  | .floppyOnInterrupt => Floppy.floppyOnInterrupt M
  | .transfer => Floppy.transfer M

/-- What an interrupt calls. -/
def handle (a : Reply) (junk : Bool) : Option Handler → FdM Unit
  | none => unexpectedFloppyInterrupt a
  | some .rwInterrupt => rwInterrupt a junk
  | some .seekInterrupt => seekInterrupt M a junk
  | some .recalInterrupt => recalInterrupt a
  | some .resetInterrupt => resetInterrupt a

/-- `floppy_interrupt`: the routine in `do_floppy` is called; `do_floppy` has been set to `NULL`. -/
def floppyInterrupt (a : Reply) (junk : Bool) : FdM Unit := do
  let s ← get
  set { s with doFloppy := none }
  handle M a junk s.doFloppy

/-- What is run when something happens. -/
def Event.run : Event → FdM Unit
  | .request r behind => addRequest r behind
  | .doFdRequest ticks outs => do
    modify fun s => { s with outs := outs }
    Floppy.doFdRequest M ticks
  | .timer t outs => do
    modify fun s => { s with outs := outs, timers := s.timers.erase t }
    t.run M
  | .interrupt ended a outs junk => do
    modify fun s => { s.settle ended with outs := outs }
    floppyInterrupt M a junk

/-- **What the controller says is so**: when it answers an interrupt with the end of a seek, a
movement of that drive has been completed, and it went to that cylinder. What follows a transfer
is another answer. -/
def State.Due (s : State) (ended : Option (ℕ × Bool)) (a : Reply) : Prop :=
  s.doFloppy ≠ some .rwInterrupt →
    ∀ d ∈ a.arrived, ended = some (d.1, true) ∧ s.moving d.1 = some d.2

/-- When something may happen. A request that is made has no errors. -/
def State.Enabled (s : State) : Event → Prop
  | .request r _ => s.calling = false ∧ r.errors = 0
  | .doFdRequest _ _ => s.calling = true
  | .timer t _ => s.calling = false ∧ t ∈ s.timers
  | .interrupt ended a _ _ => s.calling = false ∧ s.Due ended a

/-- **A step.** -/
def Step (s : State) (ev : Event) (t : State) : Prop :=
  s.Enabled ev ∧ ev.run M s = .ok () t

/-- Before the first request. The heads may be anywhere, and any drive may be on. -/
structure State.Start (s : State) : Prop where
  recalibrate : s.recalibrate = false
  reset : s.reset = false
  currentDrive : s.currentDrive = 0
  seekTrack : s.seekTrack = 0
  currentTrack : s.currentTrack = 255
  command : s.command = 0
  doFloppy : s.doFloppy = none
  queue : s.queue = []
  timers : s.timers = []
  calling : s.calling = false
  fdc : s.fdc = []
  moving : ∀ d, s.moving d = none
  programmed : s.programmed = []
  uses : s.uses = []

end Linux011.Floppy

import Linux011.Block.Requests
import Linux011.Lib.Run

/-!
# The hard-disk driver

`kernel/blk_drv/hd.c`. `do_hd_request` gives the controller a command for the first request of the
queue, and an interrupt goes on from where `do_hd` says. How far a request has come stands in
three of its fields, which `read_intr` and `write_intr` move on; a request that is tried again goes
on from there.

The controller is what the registers say: it goes through as many sectors as it was told, from the
one it was told, and says so with an interrupt for each; for a write it waits for the data first.
An interrupt after an error ends the command. Which interrupts come, and whether the controller is
ready or wants data, is left open. With no request in the queue the routines would go on at
address 0, where the page directory is; that is a crash here, as a panic is.

For the record, a request is kept as it was made, and with it what has been transferred for it
(`Linux011.Hd.Entry`); so are the commands to read and to write, and the requests that were
ended as they should.
-/

namespace Linux011.Hd

open Block (Request Cmd)

/-- `struct hd_i_struct`; `cyl` and `lzone` are not used by the driver. -/
structure HdInfo where
  head : ℕ
  sect : ℕ
  cyl : ℕ
  wpcom : ℕ
  ctl : ℕ

/-- `struct hd_struct`, a partition; the numbers are unsigned words here. -/
structure HdStruct where
  startSect : ℕ
  nrSects : ℕ

/-- **The drives** and their partitions. -/
structure Disks where
  nrHd : ℕ
  info : ℕ → HdInfo
  hd : ℕ → HdStruct

/-- `MINOR(a)`. -/
def minor (dev : ℤ) : ℕ := (dev % 256).toNat

/-- The commands of the controller. -/
inductive Win
  | restore
  | read
  | write
  | specify
  deriving DecidableEq

/-- The value of a command. -/
def Win.num : Win → ℕ
  | .restore => 0x10
  | .read => 0x20
  | .write => 0x30
  | .specify => 0x91

/-- What `do_hd` may be. -/
inductive Handler
  | readIntr
  | writeIntr
  | recalIntr
  deriving DecidableEq

/-! ### The controller -/

/-- The bytes that are put out to the controller. -/
structure Regs where
  ctl : ℕ
  precomp : ℕ
  nsector : ℕ
  sector : ℕ
  lcyl : ℕ
  hcyl : ℕ
  /-- 101dhhhh -/
  current : ℕ
  command : ℕ

/-- **A command that is under way**: the sector that comes next, how many are left, and for a
write the data that has been put out for that sector, by where it came from. -/
structure Active where
  win : Win
  drive : ℕ
  next : ℕ
  left : ℕ
  staged : Option ℕ
  deriving DecidableEq

/-- The number of the sector that the registers name, on a drive of that geometry. -/
def Regs.lba (info : HdInfo) (r : Regs) : ℕ :=
  ((r.lcyl + 256 * r.hcyl) * info.head + r.current % 16) * info.sect + r.sector - 1

/-- The drive that they name. -/
def Regs.drive (r : Regs) : ℕ := r.current / 16 % 2

/-- What the controller makes of its registers; a count of 0 stands for 256. -/
def Disks.accept (D : Disks) (win : Win) (r : Regs) : Active where
  win := win
  drive := r.drive
  next := r.lba (D.info r.drive)
  left := if r.nsector = 0 then 256 else r.nsector
  staged := none

/-! ### The state -/

/-- **A sector that has been transferred**, and the place in memory. -/
structure Transfer where
  cmd : Cmd
  drive : ℕ
  sector : ℕ
  buffer : ℕ
  deriving DecidableEq

/-- **A request**, as it was made and as it is now, and what has been transferred for it. -/
structure Entry where
  made : Request
  now : Request
  log : List Transfer
  deriving DecidableEq

/-- **A call of `hd_out`** with a command to read or write, and the request it is for. -/
structure Call where
  made : Request
  now : Request
  sec : ℕ
  head : ℕ
  cyl : ℕ
  deriving DecidableEq

/-- **The driver and the controller.** -/
structure State where
  recalibrate : Bool
  reset : Bool
  doHd : Option Handler
  /-- The first one is `CURRENT`. -/
  queue : List Entry
  active : Option Active
  /-- What was ended with `end_request(1)`. -/
  done : List Entry
  calls : List Call
  deriving DecidableEq

/-- What the hardware answers in one round of `do_hd_request`, and whether what stands at address 0
is a number of errors that calls for a reset. -/
structure Answers where
  ready : Bool
  drq : Bool
  junk : Bool

namespace State

variable (s : State)

/-- `hd_out`; `none` is a panic. -/
def hdOut (D : Disks) (ready : Bool) (drive nsect sect head cyl : ℕ) (win : Win) (h : Handler) :
    Option State :=
  if 1 < drive ∨ 15 < head then none
  else if ready = false then none
  else
    let r : Regs :=
      { ctl := (D.info drive).ctl % 256
        precomp := (D.info drive).wpcom / 4 % 256
        nsector := nsect % 256
        sector := sect % 256
        lcyl := cyl % 256
        hcyl := cyl / 256 % 256
        current := 0xA0 ||| drive * 16 ||| head
        command := win.num }
    some { s with doHd := some h, active := some (D.accept win r) }

/-- `end_request`; with no request there is nothing to end. -/
def endRequest (uptodate : Bool) : Option State :=
  match s.queue with
  | [] => none
  | e :: q => some { s with queue := q, done := if uptodate then e :: s.done else s.done }

/-- A change of `*CURRENT`. -/
def setCurrent (f : Entry → Entry) : State :=
  match s.queue with
  | [] => s
  | e :: q => { s with queue := f e :: q }

/-- `bad_rw_intr`. After `end_request(0)` it looks at the errors of the next request. -/
def badRwIntr (junk : Bool) : Option State :=
  match s.queue with
  | [] => none
  | e :: _ =>
    let s := s.setCurrent fun e => { e with now := { e.now with errors := e.now.errors + 1 } }
    match (if 7 ≤ e.now.errors + 1 then s.endRequest false else some s) with
    | none => none
    | some s =>
      let bad := match s.queue with
        | [] => junk
        | e :: _ => decide (7 / 2 < e.now.errors)
      some (if bad then { s with reset := true } else s)

/-- `port_write(HD_DATA,CURRENT->buffer,256)`. -/
def portWrite : State :=
  match s.queue with
  | [] => s
  | e :: _ => { s with active := s.active.map fun a => { a with staged := some e.now.buffer } }

end State

/-! ### `do_hd_request` -/

/-- What comes of a round of `do_hd_request`. -/
inductive Round
  | ret (s : State)
  | repeat_ (s : State)
  | panic

/-- What an optional state comes to. -/
def Round.of (f : State → Round) : Option State → Round
  | none => .panic
  | some s => f s

/-- A round of `do_hd_request`, from `repeat` on. -/
def round (D : Disks) (a : Answers) (s : State) : Round :=
  match s.queue with
  | [] => .ret s
  | e :: _ =>
    if Block.major e.now.dev ≠ 3 then .panic
    else
      let dev := minor e.now.dev
      if 5 * D.nrHd ≤ dev ∨ (D.hd dev).nrSects < (e.now.sector + 2) % 0x100000000 then
        .of .repeat_ (s.endRequest false)
      else
        let block := (e.now.sector + (D.hd dev).startSect) % 0x100000000
        let drive := dev / 5
        let info := D.info drive
        let sec := block % info.sect + 1
        let head := block / info.sect % info.head
        let cyl := block / info.sect / info.head
        if s.reset then
          .of .ret ({ s with reset := false, recalibrate := true }.hdOut D a.ready drive info.sect
            info.sect ((info.head + 0xffffffff) % 0x100000000) info.cyl .specify .recalIntr)
        else if s.recalibrate then
          .of .ret ({ s with recalibrate := false }.hdOut D a.ready drive info.sect 0 0 0 .restore
            .recalIntr)
        else
          let s := { s with calls := ⟨e.made, e.now, sec, head, cyl⟩ :: s.calls }
          match e.now.cmd with
          | .write =>
            .of (fun s => if a.drq then .ret s.portWrite else .of .repeat_ (s.badRwIntr a.junk))
              (s.hdOut D a.ready drive e.now.nrSectors sec head cyl .write .writeIntr)
          | .read => .of .ret (s.hdOut D a.ready drive e.now.nrSectors sec head cyl .read .readIntr)

/-- **`do_hd_request`**: rounds, until one returns. -/
inductive DoHdRequest (D : Disks) : State → State → Prop
  | ret {s s' : State} (a : Answers) (h : round D a s = .ret s') : DoHdRequest D s s'
  | repeat_ {s t s' : State} (a : Answers) (h : round D a s = .repeat_ t)
      (ht : DoHdRequest D t s') : DoHdRequest D s s'

/-! ### The interrupt -/

/-- The next sector has been gone through. -/
def Active.advance (a : Active) : Active :=
  { a with next := a.next + 1, left := a.left - 1, staged := none }

namespace State

variable (s : State)

/-- `port_read(HD_DATA,CURRENT->buffer,256)`. -/
def portRead : State :=
  match s.active with
  | none => s
  | some a =>
    { s.setCurrent fun e => { e with log := e.log ++ [⟨.read, a.drive, a.next, e.now.buffer⟩] } with
      active := some a.advance }

/-- The data that was put out has been written. -/
def written : State :=
  match s.active with
  | none => s
  | some a =>
    match a.staged with
    | none => s
    | some b =>
      { s.setCurrent fun e => { e with log := e.log ++ [⟨.write, a.drive, a.next, b⟩] } with
        active := some a.advance }

/-- A sector less is to be transferred, and the fields move on. -/
def moveOn (r : Request) : Request :=
  { r with
    buffer := r.buffer + 512
    sector := (r.sector + 1) % 0x100000000
    nrSectors := (r.nrSectors + 0xffffffff) % 0x100000000 }

/-- `read_intr`; whether `do_hd_request` is called at the end is returned. -/
def readIntr (bad junk : Bool) : Option (Bool × State) :=
  if bad then (s.badRwIntr junk).map fun s => (true, s)
  else
    match s.queue with
    | [] => none
    | e :: _ =>
      let s := s.portRead
      let s := s.setCurrent fun e => { e with now := moveOn { e.now with errors := 0 } }
      if (moveOn e.now).nrSectors ≠ 0 then some (false, { s with doHd := some .readIntr })
      else (s.endRequest true).map fun s => (true, s)

/-- `write_intr`. -/
def writeIntr (bad junk : Bool) : Option (Bool × State) :=
  if bad then (s.badRwIntr junk).map fun s => (true, s)
  else
    match s.queue with
    | [] => none
    | e :: _ =>
      if (moveOn e.now).nrSectors ≠ 0 then
        let s := s.setCurrent fun e => { e with now := moveOn e.now }
        some (false, { s with doHd := some .writeIntr }.portWrite)
      else
        let s := s.setCurrent fun e => { e with now := { e.now with nrSectors := 0 } }
        (s.endRequest true).map fun s => (true, s)

/-- `recal_intr`. -/
def recalIntr (bad junk : Bool) : Option (Bool × State) :=
  if bad then (s.badRwIntr junk).map fun s => (true, s) else some (true, s)

/-- What the controller has done when it interrupts: after an error the command is over, and with a
good interrupt after a write the data has been written. -/
def settle (h : Handler) (bad : Bool) : State :=
  if bad then { s with active := none }
  else if h = .writeIntr then s.written
  else s

/-- The routine in `do_hd` is called; `do_hd` has been set to `NULL`. -/
def handle (h : Handler) (bad junk : Bool) : Option (Bool × State) :=
  let s := ({ s with doHd := none }).settle h bad
  match h with
  | .readIntr => s.readIntr bad junk
  | .writeIntr => s.writeIntr bad junk
  | .recalIntr => s.recalIntr bad junk

/-- **A good interrupt** comes for a sector of the command that is under way; for a write, when
its data has been put out. -/
def Due : Handler → Prop
  | .readIntr => ∃ a, s.active = some a ∧ a.win = .read ∧ 0 < a.left
  | .writeIntr => ∃ a b, s.active = some a ∧ a.win = .write ∧ 0 < a.left ∧ a.staged = some b
  | .recalIntr => True

/-- Before the first request. -/
structure Start : Prop where
  recalibrate : s.recalibrate = true
  reset : s.reset = true
  doHd : s.doHd = none
  queue : s.queue = []
  active : s.active = none
  done : s.done = []
  calls : s.calls = []

end State

/-- A request that has just been made. -/
def Entry.new (r : Request) : Entry := ⟨r, r, []⟩

/-- **A step**: a request is added, somewhere behind the first one; or it is the first one, and
`do_hd_request` is called; or there is an interrupt. With nothing in `do_hd` it is unexpected, and
nothing happens. -/
inductive Step (D : Disks) (s : State) : State → Prop
  | add {e : Entry} {q₁ q₂ : List Entry} (r : Request) (hq : s.queue = e :: (q₁ ++ q₂)) :
    Step D s { s with queue := e :: (q₁ ++ .new r :: q₂) }
  | first {s' : State} (r : Request) (hq : s.queue = [])
      (h : DoHdRequest D { s with queue := [.new r] } s') : Step D s s'
  | interrupt {h : Handler} {t : State} (bad junk : Bool) (hh : s.doHd = some h)
      (hdue : bad = false → s.Due h) (ht : s.handle h bad junk = some (false, t)) : Step D s t
  | interruptNext {h : Handler} {t s' : State} (bad junk : Bool) (hh : s.doHd = some h)
      (hdue : bad = false → s.Due h) (ht : s.handle h bad junk = some (true, t))
      (hnext : DoHdRequest D t s') : Step D s s'

end Linux011.Hd

import Linux011.Lib.Run
import Mathlib.Data.List.Basic
import Mathlib.Logic.Function.Basic

/-!
# Inodes and mounted devices

The functions that take, change and give back inodes while devices are mounted and unmounted:
`iget`, `iput`, `get_empty_inode`, `read_inode`, `write_inode` and `sync_inodes` of `fs/inode.c`,
`free_inode` and `new_inode` of `fs/bitmap.c`, `get_super`, `put_super`, `read_super`, `sys_mount`
and `sys_umount` of `fs/super.c`. Any number of tasks are in them, each with a stack of calls; a
task runs on alone to the next place where it may sleep.

Who has an inode, by a reference of its own, may change it. No disk is changed. References are
counted without end: `i_count` has 16 bits, and 64 tasks never have as many.
-/

namespace Linux011.Inodes.Mounting

/-! ### The tables -/

/-- **`struct m_inode`**, as far as it is looked at here. -/
structure MInode where
  mode : BitVec 16
  nlinks : BitVec 8
  dev : ℕ
  num : ℕ
  count : ℕ
  dirt : Bool
  lock : Bool
  pipe : Bool
  mount : Bool

/-- What `memset` makes of an inode. -/
def MInode.zero : MInode := ⟨0#16, 0#8, 0, 0, 0, false, false, false, false⟩

/-- `S_ISREG`. -/
def MInode.isReg (n : MInode) : Bool := n.mode &&& 0xF000#16 == 0x8000#16

/-- `S_ISDIR`. -/
def MInode.isDir (n : MInode) : Bool := n.mode &&& 0xF000#16 == 0x4000#16

/-- `S_ISBLK`. -/
def MInode.isBlk (n : MInode) : Bool := n.mode &&& 0xF000#16 == 0x6000#16

/-- **`struct super_block`** -/
structure Super where
  dev : ℕ
  lock : Bool
  imount : Option ℕ

/-- `NR_INODE`. -/
def nrInode : ℕ := 32

/-- `NR_SUPER`. -/
def nrSuper : ℕ := 8

/-- `ROOT_INO`. -/
def rootIno : ℕ := 1

/-- **`inode_table`, `last_inode`, `super_block` and `ROOT_DEV`.** -/
structure World where
  slot : ℕ → MInode
  last : ℕ
  super : ℕ → Super
  rootDev : ℕ

namespace World

variable (w : World)

/-- A store into one inode. -/
def setSlot (i : ℕ) (f : MInode → MInode) : World :=
  { w with slot := Function.update w.slot i (f (w.slot i)) }

/-- A store into one super block. -/
def setSuper (k : ℕ) (f : Super → Super) : World :=
  { w with super := Function.update w.super k (f (w.super k)) }

/-- `inode->i_count++`. -/
def inc (i : ℕ) : World := w.setSlot i fun n => { n with count := n.count + 1 }

/-- `inode->i_count--`. -/
def dec (i : ℕ) : World := w.setSlot i fun n => { n with count := n.count - 1 }

/-- `memset`. -/
def reset (i : ℕ) : World := w.setSlot i fun _ => .zero

/-- The end of `get_empty_inode`. -/
def clear (i : ℕ) : World := w.setSlot i fun _ => { MInode.zero with count := 1 }

/-- The inode is locked, or unlocked. -/
def setLock (i : ℕ) (b : Bool) : World := w.setSlot i fun n => { n with lock := b }

/-- The super block that `get_super` comes to. -/
def getSuper (dev : ℕ) : Option ℕ :=
  if dev = 0 then none else (List.range nrSuper).find? fun k => (w.super k).dev = dev

/-- The super block of what is mounted on the inode. -/
def sbOf (i : ℕ) : Option ℕ := (List.range nrSuper).find? fun k => (w.super k).imount = some i

/-- A super block that is not in use. -/
def emptySuper : Option ℕ := (List.range nrSuper).find? fun k => (w.super k).dev = 0

/-- The inode is in the table. -/
def find (dev nr : ℕ) : Option ℕ :=
  (List.range nrInode).find? fun i => (w.slot i).dev = dev ∧ (w.slot i).num = nr

/-- An inode of the device is in use. -/
def busy (dev : ℕ) : Bool :=
  (List.range nrInode).any fun i => (w.slot i).dev = dev ∧ (w.slot i).count ≠ 0

/-- The loop of `get_empty_inode` over the table, with `n` slots to go. -/
def lookEmpty : ℕ → ℕ → Option ℕ → ℕ × Option ℕ
  | 0, last, inode => (last, inode)
  | n + 1, last, inode =>
    let last := if nrInode ≤ last + 1 then 0 else last + 1
    if (w.slot last).count = 0 then
      if (w.slot last).dirt = false ∧ (w.slot last).lock = false then (last, some last)
      else lookEmpty n last (some last)
    else lookEmpty n last inode

end World

/-! ### Calls under way -/

/-- What the empty inode is for. -/
inductive Purpose
  | iget (dev nr : ℕ)
  | new (dev : ℕ)
  deriving DecidableEq

/-- **A call under way**, and the place it is at. Where `sys_umount` gives back the inode that a
super block is mounted on, `iput` is told which super block that is, and its device. -/
inductive Frame
  /-- `iget`, at its beginning. -/
  | iget (dev nr : ℕ)
  /-- `new_inode`, at its beginning. -/
  | new (dev : ℕ)
  /-- `get_empty_inode`, in `wait_on_inode`. -/
  | getEmpty (p : Purpose) (i : ℕ)
  /-- `iget`, in `wait_on_inode`. -/
  | igetWait (dev nr empty i : ℕ)
  /-- `iget`, when the inode that the super block is mounted on has been given back. -/
  | igetCross (empty k : ℕ)
  /-- `iget`, when the empty inode has been given back. -/
  | igetPut (i : ℕ)
  /-- `iget`, when `read_inode` has returned. -/
  | igetRead (i : ℕ)
  /-- `new_inode`, in `get_super`. -/
  | newSuper (dev i : ℕ)
  /-- `iput`, in `wait_on_inode`. -/
  | iput (i : ℕ) (u : Option (ℕ × ℕ))
  /-- `iput`, in `wait_on_inode` before `repeat`. -/
  | iputRepeat (i : ℕ) (u : Option (ℕ × ℕ))
  /-- `truncate`, for `iput`. -/
  | truncate (i : ℕ) (u : Option (ℕ × ℕ))
  /-- `free_inode`, in `get_super`. -/
  | freeSuper (i : ℕ) (u : Option (ℕ × ℕ))
  /-- `read_inode`, in `lock_inode`. -/
  | readLock (i : ℕ)
  /-- `read_inode`, in `get_super`. -/
  | readSuper (i : ℕ)
  /-- `read_inode`, in `bread`. -/
  | readBread (i : ℕ)
  /-- `read_inode`, in `brelse`. -/
  | readDone (i : ℕ)
  /-- `write_inode`, in `lock_inode`. -/
  | writeLock (i : ℕ)
  /-- `write_inode`, in `get_super`. -/
  | writeSuper (i : ℕ)
  /-- `write_inode`, in `bread`. -/
  | writeBread (i : ℕ)
  /-- `write_inode`, in `brelse`. -/
  | writeDone (i : ℕ)
  /-- `sync_dev`, among the buffers. -/
  | syncDev
  /-- `sync_inodes`, in `wait_on_inode`. -/
  | syncInodes (i : ℕ)
  /-- `sync_dev`, among the buffers once more. -/
  | syncBuffers
  /-- `sys_mount`, with the directory. -/
  | sysMount (dev dir : ℕ)
  /-- `read_super`, in `get_super`. -/
  | mountSuper (dev dir : ℕ)
  /-- `read_super`, in `lock_super`. -/
  | mountLock (k dir : ℕ)
  /-- `read_super`, in `bread`. -/
  | mountRead (k dir : ℕ)
  /-- `sys_umount`, in `get_super`. -/
  | umount (dev : ℕ)
  /-- `put_super`, in `get_super`. -/
  | putSuper (dev : ℕ)
  /-- `put_super`, in `brelse`. -/
  | putBrelse (k : ℕ)
  /-- The caller has the inode all the time. -/
  | keep (i : ℕ)
  deriving DecidableEq

/-- **What the disk has to say**: whether the buffer could be had without `sync_dev`, whether it
could be read, the inode in it, and a number whose bit in the inode map is 0. -/
structure Io where
  sync : Bool
  ok : Bool
  mode : BitVec 16
  nlinks : BitVec 8
  num : Option ℕ

/-- What a call comes to. -/
inductive Turn
  /-- The task sleeps. -/
  | wait
  | panic (message : String)
  /-- It goes on as the calls `fs`, and the caller has the references `out`. -/
  | go (w : World) (fs : List Frame) (out : List ℕ)

/-- What comes after a call. -/
def Turn.andThen (st : List Frame) : Turn → Turn
  | .go w fs out => .go w (fs ++ st) out
  | t => t

namespace World

variable (w : World) (io : Io)

/-- `bread`: on its way it may come to `sync_dev`. -/
def bread (f : Frame) (ok : Turn) (message : String) : Turn :=
  if io.sync then .go w [.syncDev, f] []
  else if io.ok then ok
  else .panic message

/-- **`read_inode`**, when it has locked the inode. -/
def readSuper (i : ℕ) : Turn :=
  match w.getSuper (w.slot i).dev with
  | none => .panic "trying to read inode without dev"
  | some k => .go w [if (w.super k).lock then .readSuper i else .readBread i] []

/-- `read_inode`. -/
def readInode (i : ℕ) : Turn :=
  if (w.slot i).lock then .go w [.readLock i] [] else (w.setLock i true).readSuper i

/-- **`write_inode`**, when it has locked the inode and made sure it is to be written. -/
def writeSuper (i : ℕ) : Turn :=
  match w.getSuper (w.slot i).dev with
  | none => .panic "trying to write inode without device"
  | some k => .go w [if (w.super k).lock then .writeSuper i else .writeBread i] []

/-- `write_inode`. -/
def writeInode (i : ℕ) : Turn :=
  if (w.slot i).lock then .go w [.writeLock i] []
  else if (w.slot i).dirt = false ∨ (w.slot i).dev = 0 then .go w [] []
  else (w.setLock i true).writeSuper i

/-- **`put_super`**, and `sync_dev` behind it. -/
def putSuper (dev : ℕ) : Turn :=
  match w.getSuper dev with
  | none => .go w [.syncDev] []
  | some k =>
    if (w.super k).lock then .go w [.putSuper dev] []
    else if (w.super k).imount.isSome then .go w [.syncDev] []
    else .go (w.setSuper k fun b => { b with dev := 0, lock := true }) [.putBrelse k] []

/-- `iput` returns: for `sys_umount`, which goes on. The inode `s_isup` is there for the root
device only. -/
def returned : Option (ℕ × ℕ) → Turn
  | none => .go w [] []
  | some (k, dev) => (w.setSuper k fun b => { b with imount := none }).putSuper dev

/-- `free_inode`, in `get_super`. Its number is one of the device's. -/
def freeSuper (i : ℕ) (u : Option (ℕ × ℕ)) : Turn :=
  match w.getSuper (w.slot i).dev with
  | none => .panic "trying to free inode on nonexistent device"
  | some k =>
    if (w.super k).lock then .go w [.freeSuper i u] [] else (w.reset i).returned u

/-- **`free_inode`** -/
def freeInode (i : ℕ) (u : Option (ℕ × ℕ)) : Turn :=
  if (w.slot i).dev = 0 then (w.reset i).returned u
  else if 1 < (w.slot i).count then .panic "free_inode"
  else if (w.slot i).nlinks ≠ 0#8 then .panic "trying to free inode with links"
  else w.freeSuper i u

/-- `iput`, from `repeat` on. -/
def iputLoop (i : ℕ) (u : Option (ℕ × ℕ)) : Turn :=
  if 1 < (w.slot i).count then (w.dec i).returned u
  else if (w.slot i).nlinks = 0#8 then
    if (w.slot i).isReg ∨ (w.slot i).isDir then .go w [.truncate i u] [] else w.freeInode i u
  else if (w.slot i).dirt then (w.writeInode i).andThen [.iputRepeat i u]
  else (w.dec i).returned u

/-- **`iput`**, when it has waited for the inode. -/
def iput (i : ℕ) (u : Option (ℕ × ℕ)) : Turn :=
  if (w.slot i).count = 0 then .panic "iput: trying to free free inode"
  else if (w.slot i).pipe then
    if 1 < (w.slot i).count then (w.dec i).returned u
    else (w.setSlot i fun n => { n with count := 0, dirt := false, pipe := false }).returned u
  else if (w.slot i).dev = 0 then (w.dec i).returned u
  else if (w.slot i).isBlk then .go w [.syncDev, .iputRepeat i u] []
  else w.iputLoop i u

/-- `iget` has found the inode. -/
def found (empty i : ℕ) : Turn :=
  if (w.slot i).mount then
    match w.sbOf i with
    | none => .go (w.inc i) [.iput empty none, .igetPut i] []
    | some k => .go (w.inc i) [.iput i none, .igetCross empty k] []
  else .go (w.inc i) [.iput empty none, .igetPut i] []

/-- **`iget`**, from the head of its loop on. -/
def igetLoop (dev nr empty : ℕ) : Turn :=
  match w.find dev nr with
  | some i => if (w.slot i).lock then .go w [.igetWait dev nr empty i] [] else w.found empty i
  | none =>
    ((w.setSlot empty fun n => { n with dev := dev, num := nr }).readInode empty).andThen
      [.igetRead empty]

/-- **`new_inode`**, in `get_super`. -/
def newSuper (dev i : ℕ) : Turn :=
  match w.getSuper dev with
  | none => .panic "new_inode with unknown device"
  | some k =>
    if (w.super k).lock then .go w [.newSuper dev i] []
    else
      match io.num with
      | none => .go w [.iput i none] []
      | some num =>
        .go (w.setSlot i fun n =>
          { n with count := 1, nlinks := 1#8, dev := dev, dirt := true, num := num }) [] [i]

/-- The empty inode is there. -/
def gotEmpty (i : ℕ) : Purpose → Turn
  | .iget dev nr => (w.clear i).igetLoop dev nr i
  | .new dev => (w.clear i).newSuper io dev i

/-- **`get_empty_inode`**, from the head of its loop on. -/
def getEmptyInode (p : Purpose) : Turn :=
  match w.lookEmpty nrInode w.last none with
  | (_, none) => .panic "No free inodes in mem"
  | (last, some i) =>
    let w := { w with last := last }
    if (w.slot i).lock then .go w [.getEmpty p i] []
    else if (w.slot i).dirt then (w.writeInode i).andThen [.getEmpty p i]
    else w.gotEmpty io i p

/-- **`sys_mount`**, when the super block is there. -/
def mountOn (k dir : ℕ) : Turn :=
  if (w.super k).imount.isSome ∨ (w.slot dir).mount then .go w [.iput dir none] []
  else
    .go ((w.setSuper k fun b => { b with imount := some dir }).setSlot dir fun n =>
      { n with mount := true, dirt := true }) [] []

/-- **`read_super`** -/
def mountSuper (dev dir : ℕ) : Turn :=
  if dev = 0 then .go w [.iput dir none] []
  else
    match w.getSuper dev with
    | some k => if (w.super k).lock then .go w [.mountSuper dev dir] [] else w.mountOn k dir
    | none =>
      match w.emptySuper with
      | none => .go w [.iput dir none] []
      | some k =>
        .go (w.setSuper k fun _ => ⟨dev, true, none⟩)
          [if (w.super k).lock then .mountLock k dir else .mountRead k dir] []

/-- **`sys_umount`**; the name has been looked up. -/
def umount (dev : ℕ) : Turn :=
  if dev = w.rootDev then .go w [] []
  else
    match w.getSuper dev with
    | none => .go w [] []
    | some k =>
      if (w.super k).lock then .go w [.umount dev] []
      else
        match (w.super k).imount with
        | none => .go w [] []
        | some i =>
          if w.busy dev then .go w [] []
          else .go (w.setSlot i fun n => { n with mount := false }) [.iput i (some (k, dev))] []

end World

/-- **From one place to the next.** -/
def Frame.step (w : World) (io : Io) : Frame → Turn
  | .iget dev nr =>
    if dev = 0 then .panic "iget with dev==0" else w.getEmptyInode io (.iget dev nr)
  | .new dev => w.getEmptyInode io (.new dev)
  | .getEmpty p i =>
    if (w.slot i).lock then .wait
    else if (w.slot i).dirt then (w.writeInode i).andThen [.getEmpty p i]
    else if (w.slot i).count ≠ 0 then w.getEmptyInode io p
    else w.gotEmpty io i p
  | .igetWait dev nr empty i =>
    if (w.slot i).lock then .wait
    else if (w.slot i).dev = dev ∧ (w.slot i).num = nr then w.found empty i
    else w.igetLoop dev nr empty
  | .igetCross empty k => w.igetLoop (w.super k).dev rootIno empty
  | .igetPut i => .go w [] [i]
  | .igetRead i => .go w [] [i]
  | .newSuper dev i => w.newSuper io dev i
  | .iput i u => if (w.slot i).lock then .wait else w.iput i u
  | .iputRepeat i u => if (w.slot i).lock then .wait else w.iputLoop i u
  | .truncate i u => (w.setSlot i fun n => { n with dirt := true }).freeInode i u
  | .freeSuper i u => w.freeSuper i u
  | .readLock i => if (w.slot i).lock then .wait else w.readInode i
  | .readSuper i => w.readSuper i
  | .readBread i =>
    w.bread io (.readBread i)
      (.go (w.setSlot i fun n => { n with mode := io.mode, nlinks := io.nlinks }) [.readDone i] [])
      "unable to read i-node block"
  | .readDone i => .go (w.setLock i false) [] []
  | .writeLock i => if (w.slot i).lock then .wait else w.writeInode i
  | .writeSuper i => w.writeSuper i
  | .writeBread i =>
    w.bread io (.writeBread i)
      (.go (w.setSlot i fun n => { n with dirt := false }) [.writeDone i] [])
      "unable to read i-node block"
  | .writeDone i => .go (w.setLock i false) [] []
  | .syncDev => .go w [.syncInodes 0, .syncBuffers] []
  | .syncInodes i =>
    if nrInode ≤ i then .go w [] []
    else if (w.slot i).lock then .wait
    else if (w.slot i).dirt = true ∧ (w.slot i).pipe = false then
      (w.writeInode i).andThen [.syncInodes (i + 1)]
    else .go w [.syncInodes (i + 1)] []
  | .syncBuffers => .go w [] []
  | .sysMount dev dir =>
    if (w.slot dir).count ≠ 1 ∨ (w.slot dir).num = rootIno ∨ (w.slot dir).isDir = false then
      .go w [.iput dir none] []
    else w.mountSuper dev dir
  | .mountSuper dev dir => w.mountSuper dev dir
  | .mountLock k dir =>
    if (w.super k).lock then .wait
    else .go (w.setSuper k fun b => { b with lock := true }) [.mountRead k dir] []
  | .mountRead k dir =>
    if io.sync then .go w [.syncDev, .mountRead k dir] []
    else if io.ok then (w.setSuper k fun b => { b with lock := false }).mountOn k dir
    else .go (w.setSuper k fun b => { b with dev := 0, lock := false }) [.iput dir none] []
  | .umount dev => w.umount dev
  | .putSuper dev => w.putSuper dev
  | .putBrelse k => .go (w.setSuper k fun b => { b with lock := false }) [.syncDev] []
  | .keep i => .go w [] [i]

/-! ### The tasks -/

/-- **The tables, the references that tasks have, and their calls.** -/
structure State where
  world : World
  refs : List ℕ
  calls : List (List Frame)

/-- All calls under way. -/
def State.frames (s : State) : List Frame := s.calls.flatten

/-- **A step**: a task calls something, with a reference it has; or it changes an inode; or it goes
on, if that is as `ok` says. -/
inductive Step (ok : State → Frame → Prop) (s : State) : State → Prop
  /-- An inode is changed, and marked. -/
  | change {i : ℕ} (hi : i ∈ s.refs) (mode : BitVec 16) (nlinks : BitVec 8) :
    Step ok s { s with world := s.world.setSlot i fun n =>
      { n with mode := mode, nlinks := nlinks, dirt := true } }
  | iput {i : ℕ} {l₁ l₂ : List ℕ} (hi : s.refs = l₁ ++ i :: l₂) :
    Step ok s { s with refs := l₁ ++ l₂, calls := [.iput i none] :: s.calls }
  /-- `iput(dir)` and `iget(dev,inr)`, as in `namei`. -/
  | lookup {i : ℕ} {l₁ l₂ : List ℕ} (hi : s.refs = l₁ ++ i :: l₂) (nr : ℕ) :
    Step ok s { s with
      refs := l₁ ++ l₂
      calls := [.iput i none, .iget (s.world.slot i).dev nr] :: s.calls }
  /-- `iget(dir->i_dev,inr)`, as in `sys_unlink`. -/
  | iget {i : ℕ} {l₁ l₂ : List ℕ} (hi : s.refs = l₁ ++ i :: l₂) (nr : ℕ) :
    Step ok s { s with
      refs := l₁ ++ l₂
      calls := [.iget (s.world.slot i).dev nr, .keep i] :: s.calls }
  /-- `new_inode(dir->i_dev)`. -/
  | new {i : ℕ} {l₁ l₂ : List ℕ} (hi : s.refs = l₁ ++ i :: l₂) :
    Step ok s { s with
      refs := l₁ ++ l₂
      calls := [.new (s.world.slot i).dev, .keep i] :: s.calls }
  | sync : Step ok s { s with calls := [.syncInodes 0] :: s.calls }
  | mount {i : ℕ} {l₁ l₂ : List ℕ} (hi : s.refs = l₁ ++ i :: l₂) (dev : ℕ) :
    Step ok s { s with refs := l₁ ++ l₂, calls := [.sysMount dev i] :: s.calls }
  | umount (dev : ℕ) : Step ok s { s with calls := [.umount dev] :: s.calls }
  | run {f : Frame} {st fs : List Frame} {l₁ l₂ : List (List Frame)} {w : World} {out : List ℕ}
    (io : Io) (hc : s.calls = l₁ ++ (f :: st) :: l₂) (hok : ok s f)
    (h : f.step s.world io = .go w fs out) :
    Step ok s ⟨w, out ++ s.refs, l₁ ++ (fs ++ st) :: l₂⟩

end Linux011.Inodes.Mounting

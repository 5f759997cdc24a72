import Linux011.Buffer.Frames
import Linux011.Lib.Run

/-!
# The inode table, and the inodes on the disk

`read_inode`, `write_inode` and `sync_inodes` of `fs/inode.c`, over the functions of
`fs/buffer.c`. An inode is locked for as long as it is read or written; in between,
`bread` may sleep, and it may come to write inodes itself: where `getblk` finds no clean
buffer it calls `sync_dev`, and `sync_dev` calls `sync_inodes`.

What is followed is one task, from the call of `read_inode` or `write_inode` to its
return, as a stack of calls that are under way. The others may do whatever they like
between two of its steps, but do not unlock what it has locked.
-/

namespace Linux011.Inodes

open Buffer (Sys Ref)

/-! ### The state -/

/-- The 32 bytes of a `struct d_inode`. -/
abbrev DInode : Type := Fin 32 → BitVec 8

/-- `struct m_inode`, which begins with what is on the disk. -/
structure MInode where
  d : DInode
  dev : ℕ
  num : ℕ
  lock : Bool
  dirt : Bool
  pipe : Bool

/-- `struct super_block`, as far as it is asked where an inode is. -/
structure SuperBlock where
  imapBlocks : ℕ
  zmapBlocks : ℕ
  dev : ℕ
  lock : Bool

/-- **The buffers, the inode table and the super blocks.** -/
structure World where
  sys : Sys
  inode : ℕ → MInode
  super : ℕ → SuperBlock

/-- `NR_INODE`. -/
def nrInode : ℕ := 32

/-- `NR_SUPER`. -/
def nrSuper : ℕ := 8

namespace World

variable (w : World)

/-- A store into one inode. -/
def setInode (i : ℕ) (f : MInode → MInode) : World :=
  { w with inode := Function.update w.inode i (f (w.inode i)) }

/-- The super block that `get_super` waits for. -/
def getSuper (dev : ℕ) : Option SuperBlock :=
  if dev = 0 then none
  else ((List.range nrSuper).find? fun i => (w.super i).dev = dev).map w.super

/-- The end of `lock_inode`. -/
def lockInode (i : ℕ) : World := w.setInode i fun n => { n with lock := true }

/-- `unlock_inode`. -/
def unlockInode (i : ℕ) : World := w.setInode i fun n => { n with lock := false }

/-- Which inodes are locked. -/
def locks (i : ℕ) : Bool := (w.inode i).lock

end World

/-- The block an inode is in; the subtraction is unsigned. -/
def inodeBlock (sb : SuperBlock) (num : ℕ) : ℕ :=
  2 + sb.imapBlocks + sb.zmapBlocks + (num + 2 ^ 32 - 1) % 2 ^ 32 / 32

/-- Its place in the block. -/
def inodePlace (num : ℕ) : ℕ := (num + 2 ^ 32 - 1) % 2 ^ 32 % 32

/-- The inode at this place of the block. -/
def fetchInode (data : Buffer.Block) (place : ℕ) : DInode := fun x =>
  data (Fin.ofNat 1024 (32 * place + x))

/-- The block with the inode at this place. -/
def storeInode (data : Buffer.Block) (place : ℕ) (d : DInode) : Buffer.Block := fun x =>
  if x.val / 32 = place then d (Fin.ofNat 32 x.val) else data x

/-! ### Calls under way -/

/-- **A call under way**, and where in its text it is. -/
inductive Frame
  /-- `read_inode`, in `lock_inode`. -/
  | readInode (i : ℕ)
  /-- `read_inode`, at `get_super`. -/
  | readLocked (i : ℕ)
  /-- `read_inode`, when `bread` has returned. -/
  | readGot (i : ℕ)
  /-- `read_inode`, when `brelse` has returned. -/
  | readDone (i : ℕ)
  /-- `write_inode`, in `lock_inode`. -/
  | writeInode (i : ℕ)
  /-- `write_inode`, at its first test. -/
  | writeLocked (i : ℕ)
  /-- `write_inode`, when `bread` has returned. -/
  | writeGot (i : ℕ)
  /-- `write_inode`, when `brelse` has returned. -/
  | writeDone (i : ℕ)
  /-- `sync_inodes`, in `wait_on_inode` of its loop. -/
  | syncInodes (i : ℕ)
  /-- A function of `fs/buffer.c`. -/
  | cache (f : Buffer.Frame)

/-- What a step of a call comes to. -/
inductive Move
  /-- The task sleeps. -/
  | wait
  | panic
  /-- The call goes on as the frames `fs`. -/
  | go (w : World) (fs : List Frame) (ret : Option Ref)

/-- The call of `bread` for the inode, with the frame that goes on from there. -/
def breadInode (w : World) (i : ℕ) (f : Frame) : Move :=
  match w.getSuper (w.inode i).dev with
  | none => .panic
  | some sb =>
    if sb.lock then .wait
    else .go w [.cache (.bread (w.inode i).dev (inodeBlock sb (w.inode i).num)), f] none

/-- **A step of a call**, with what the last call it has made returned. -/
def Frame.step (w : World) (ret : Option Ref) : Frame → Move
  | .readInode i => if w.locks i then .wait else .go (w.lockInode i) [.readLocked i] none
  | .readLocked i => breadInode w i (.readGot i)
  | .readGot i =>
    match ret with
    | none => .panic
    | some e =>
      .go (w.setInode i fun n =>
        { n with d := fetchInode (w.sys.cache.head e.bh).data (inodePlace n.num) })
        [.cache (.brelse e), .readDone i] none
  | .readDone i => .go (w.unlockInode i) [] none
  | .writeInode i => if w.locks i then .wait else .go (w.lockInode i) [.writeLocked i] none
  | .writeLocked i =>
    if (w.inode i).dirt = false ∨ (w.inode i).dev = 0 then .go (w.unlockInode i) [] none
    else breadInode w i (.writeGot i)
  | .writeGot i =>
    match ret with
    | none => .panic
    | some e =>
      let sys := w.sys.setHead e.bh fun h =>
        { h with
          data := storeInode h.data (inodePlace (w.inode i).num) (w.inode i).d
          dirt := true }
      .go ({ w with sys := sys }.setInode i fun n => { n with dirt := false })
        [.cache (.brelse e), .writeDone i] none
  | .writeDone i => .go (w.unlockInode i) [] none
  | .syncInodes i =>
    if nrInode ≤ i then .go w [] none
    else if w.locks i then .wait
    else if (w.inode i).dirt = true ∧ (w.inode i).pipe = false then
      .go w [.writeInode i, .syncInodes (i + 1)] none
    else .go w [.syncInodes (i + 1)] none
  | .cache (.syncInodes only) => .go w [.syncInodes 0, .cache (.sync only true 0)] none
  | .cache f =>
    match f.step w.sys ret with
    | .wait => .wait
    | .panic => .panic
    | .go sys fs ret => .go { w with sys := sys } (fs.map .cache) ret

/-! ### Runs -/

/-- **The world, and the calls of the task**, the innermost first. -/
structure State where
  world : World
  stack : List Frame
  /-- What the last call has returned. -/
  ret : Option Ref

/-- The inode whose lock a call holds. -/
def Frame.holds : Frame → Option ℕ
  | .readLocked i => some i
  | .readGot i => some i
  | .readDone i => some i
  | .writeLocked i => some i
  | .writeGot i => some i
  | .writeDone i => some i
  | _ => none

/-- The inode that a call is about to wait for, in `wait_on_inode` or `lock_inode`. -/
def Frame.waitsOn : Frame → Option ℕ
  | .readInode i => some i
  | .writeInode i => some i
  | .syncInodes i => if i < nrInode then some i else none
  | _ => none

/-- The locks that calls hold. -/
def held (fs : List Frame) : List ℕ := fs.filterMap Frame.holds

/-- **The task has come to wait for an inode it has locked itself.** -/
def State.SelfWaits (s : State) : Prop :=
  ∃ f fs i, s.stack = f :: fs ∧ f.waitsOn = some i ∧ i ∈ held fs

/-- The task runs on. -/
def State.run (s : State) : Option State :=
  match s.stack with
  | [] => none
  | f :: st =>
    match f.step s.world s.ret with
    | .go w fs ret => some ⟨w, fs ++ st, ret⟩
    | .wait => none
    | .panic => none

/-- **A step**: the task runs on, if it is as `ok` says, or others do something. -/
inductive Step (ok : State → Prop) : State → State → Prop
  | run {s s' : State} (hok : ok s) (h : s.run = some s') : Step ok s s'
  | others {s : State} (w : World) (hl : ∀ i ∈ held s.stack, w.locks i = true) :
    Step ok s { s with world := w }

/-- `read_inode` or `write_inode` is called. -/
def Start (s : State) : Prop :=
  ∃ i, i < nrInode ∧ (s.stack = [.readInode i] ∨ s.stack = [.writeInode i])

end Linux011.Inodes

import Linux011.Inodes.Table

/-!
# The inodes in use

`iget`, `iput` and `get_empty_inode` of `fs/inode.c`, with any number of tasks in them. A task
sleeps in `wait_on_inode` and `lock_inode`, and wherever a block is read or a buffer given back;
from one such place to the next it runs alone. A call under way is a stack of routines, each at
one of these places.

What else happens to an inode while tasks sleep, by `sync_inodes` or by those who have a reference
to it, is left open: it may be locked and unlocked, be written to and be written to the disk
(`Linux011.Inodes.Iget.Table.Others`). Nothing is mounted or unmounted. A mounted-on inode has the
reference that `sys_mount` keeps; it is not given back. No inode is freed: a run ends where `iput`
finds that the last link is gone.

For the record, the references that `iget` has returned are kept until they are given to `iput`,
and so are the times between which each call of `iget` was under way, and the counts of the slots
that were cleared.
-/

namespace Linux011.Inodes.Iget

/-! ### The table -/

/-- `struct m_inode`, with what counts its users. -/
structure Slot extends MInode where
  count : ℕ
  mount : Bool

/-- Byte `x` of the inode as it is on the disk. -/
def Slot.byte (n : Slot) (x : ℕ) : ℕ := if h : x < 32 then (n.d ⟨x, h⟩).toNat else 0

/-- `i_mode`. -/
def Slot.mode (n : Slot) : ℕ := n.byte 0 + 256 * n.byte 1

/-- `i_nlinks`. -/
def Slot.nlinks (n : Slot) : ℕ := n.byte 13

/-- `S_ISBLK(inode->i_mode)`. -/
def Slot.isBlk (n : Slot) : Bool := n.mode &&& 0xF000 = 0x6000

/-- All bytes are zero. -/
def Slot.zero : Slot := ⟨⟨fun _ => 0, 0, 0, false, false, false⟩, 0, false⟩

/-- `inode_table` and `last_inode`. -/
structure Table where
  slot : ℕ → Slot
  last : ℕ
  /-- The counts of the slots that were cleared. -/
  cleared : List ℕ

/-- **What is mounted**: the super blocks, and the inodes that are mounted on, each by its slot,
its device and its number. -/
structure Mounts where
  dev : ℕ → ℕ
  imount : ℕ → Option ℕ
  pins : List (ℕ × ℕ × ℕ)

/-- The super block of what is mounted on the inode. -/
def Mounts.sbOf (M : Mounts) (inode : ℕ) : Option ℕ :=
  (List.range nrSuper).find? fun j => M.imount j = some inode

namespace Table

variable (t : Table)

/-- A store into one slot. -/
def setSlot (i : ℕ) (f : Slot → Slot) : Table :=
  { t with slot := Function.update t.slot i (f (t.slot i)) }

/-- The loop of `get_empty_inode` over the table, with `n` slots to go. -/
def lookEmpty : ℕ → ℕ → Option ℕ → ℕ × Option ℕ
  | 0, last, inode => (last, inode)
  | n + 1, last, inode =>
    let last := if nrInode ≤ last + 1 then 0 else last + 1
    if (t.slot last).count = 0 then
      if (t.slot last).dirt = false ∧ (t.slot last).lock = false then (last, some last)
      else lookEmpty n last (some last)
    else lookEmpty n last inode

/-- `memset(inode,0,sizeof(*inode))`, with the count set to 1. -/
def clear (i : ℕ) : Table :=
  { t.setSlot i fun _ => { Slot.zero with count := 1 } with
    cleared := (t.slot i).count :: t.cleared }

/-- The inode is in this slot. -/
def Has (dev nr i : ℕ) : Prop := (t.slot i).dev = dev ∧ (t.slot i).num = nr

instance (dev nr i : ℕ) : Decidable (t.Has dev nr i) := inferInstanceAs (Decidable (_ ∧ _))

/-- The first slot with the inode. -/
def find (dev nr : ℕ) : Option ℕ := (List.range nrInode).find? fun i => t.Has dev nr i

/-- `inode->i_count++`, of 16 bits. -/
def incCount (i : ℕ) : Table := t.setSlot i fun n => { n with count := (n.count + 1) % 0x10000 }

/-- `inode->i_count--`. -/
def decCount (i : ℕ) : Table :=
  t.setSlot i fun n => { n with count := (n.count + 0xffff) % 0x10000 }

end Table

/-! ### The routines -/

/-- **A routine under way**, and the place it is at. -/
inductive Routine
  /-- `iget`, at its beginning. -/
  | iget (dev nr : ℕ)
  /-- `get_empty_inode` for it, in `wait_on_inode`. -/
  | getEmpty (dev nr inode : ℕ)
  /-- `iget`, in `wait_on_inode`. -/
  | igetWait (dev nr empty inode : ℕ)
  /-- `iget`, when the inode that the super block is mounted on has been given back. -/
  | igetCross (empty sb : ℕ)
  /-- `iget`, when the empty inode has been given back. -/
  | igetPut (inode : ℕ)
  /-- `iget`, when `read_inode` has returned. -/
  | igetRead (inode : ℕ)
  /-- `iput`, in `wait_on_inode`. -/
  | iput (inode : ℕ)
  /-- `iput`, in `wait_on_inode` before `repeat`. -/
  | iputRepeat (inode : ℕ)
  /-- `read_inode`, in `lock_inode`. -/
  | readInode (inode : ℕ)
  /-- `read_inode`, in `bread`. -/
  | readBread (inode : ℕ)
  /-- `read_inode`, in `brelse`. -/
  | readDone (inode : ℕ)
  /-- `write_inode`, in `lock_inode`. -/
  | writeInode (inode : ℕ)
  /-- `write_inode`, in `bread`. -/
  | writeBread (inode : ℕ)
  /-- `write_inode`, in `brelse`. -/
  | writeDone (inode : ℕ)
  /-- `sync_dev`. -/
  | syncDev
  deriving DecidableEq

/-- What a routine comes to. -/
inductive Turn
  /-- The task sleeps. -/
  | wait
  | panic
  /-- The inode is freed. -/
  | free
  /-- It goes on as the routines `fs`. -/
  | go (t : Table) (fs : List Routine)

/-- `get_empty_inode`, from the head of its loop on. -/
def getEmptyInode (t : Table) (dev nr : ℕ) : Turn :=
  match t.lookEmpty nrInode t.last none with
  | (_, none) => .panic
  | (last, some i) => .go { t with last := last } [.getEmpty dev nr i]

/-- `iget`, from the head of its loop on. -/
def igetLoop (t : Table) (dev nr empty : ℕ) : Turn :=
  match t.find dev nr with
  | some i => .go t [.igetWait dev nr empty i]
  | none =>
    .go (t.setSlot empty fun n => { n with dev := dev, num := nr })
      [.readInode empty, .igetRead empty]

/-- `iput`, from `repeat` on. -/
def iputLoop (t : Table) (i : ℕ) : Turn :=
  if 1 < (t.slot i).count then .go (t.decCount i) []
  else if (t.slot i).nlinks = 0 then .free
  else if (t.slot i).dirt then .go t [.writeInode i, .iputRepeat i]
  else .go (t.decCount i) []

/-- **From one place to the next**; `io` is what was read from the disk, or an error. -/
def Routine.step (M : Mounts) (t : Table) (io : Option DInode) : Routine → Turn
  | .iget dev nr => if dev = 0 then .panic else getEmptyInode t dev nr
  | .getEmpty dev nr i =>
    if (t.slot i).lock then .wait
    else if (t.slot i).dirt then .go t [.writeInode i, .getEmpty dev nr i]
    else if (t.slot i).count ≠ 0 then getEmptyInode t dev nr
    else igetLoop (t.clear i) dev nr i
  | .igetWait dev nr empty i =>
    if (t.slot i).lock then .wait
    else if t.Has dev nr i then
      if (t.slot i).mount then
        match M.sbOf i with
        | none => .go (t.incCount i) [.iput empty, .igetPut i]
        | some sb => .go (t.incCount i) [.iput i, .igetCross empty sb]
      else .go (t.incCount i) [.iput empty, .igetPut i]
    else igetLoop t dev nr empty
  | .igetCross empty sb => igetLoop t (M.dev sb) 1 empty
  | .igetPut _ => .go t []
  | .igetRead _ => .go t []
  | .iput i =>
    if (t.slot i).lock then .wait
    else if (t.slot i).count = 0 then .panic
    else if (t.slot i).pipe then
      if ((t.decCount i).slot i).count ≠ 0 then .go (t.decCount i) []
      else .go (t.setSlot i fun n => { n with count := 0, dirt := false, pipe := false }) []
    else if (t.slot i).dev = 0 then .go (t.decCount i) []
    else if (t.slot i).isBlk then .go t [.syncDev, .iputRepeat i]
    else iputLoop t i
  | .iputRepeat i => if (t.slot i).lock then .wait else iputLoop t i
  | .readInode i =>
    if (t.slot i).lock then .wait
    else .go (t.setSlot i fun n => { n with lock := true }) [.readBread i]
  | .readBread i =>
    match io with
    | none => .panic
    | some d => .go (t.setSlot i fun n => { n with d := d }) [.readDone i]
  | .readDone i => .go (t.setSlot i fun n => { n with lock := false }) []
  | .writeInode i =>
    if (t.slot i).lock then .wait
    else if (t.slot i).dirt = false ∨ (t.slot i).dev = 0 then .go t []
    else .go (t.setSlot i fun n => { n with lock := true }) [.writeBread i]
  | .writeBread i =>
    match io with
    | none => .panic
    | some _ => .go (t.setSlot i fun n => { n with dirt := false }) [.writeDone i]
  | .writeDone i => .go (t.setSlot i fun n => { n with lock := false }) []
  | .syncDev => .go t []

/-- The references that a routine has. -/
def Routine.holds : Routine → List ℕ
  | .igetWait _ _ empty _ => [empty]
  | .igetCross empty _ => [empty]
  | .igetPut i => [i]
  | .igetRead i => [i]
  | .iput i => [i]
  | .iputRepeat i => [i]
  | _ => []

/-- What `iget` returns. -/
def Routine.result : Routine → Option ℕ
  | .igetPut i => some i
  | .igetRead i => some i
  | _ => none

/-! ### The tasks -/

/-- **A reference**, by the call of `iget` it is from. -/
structure Reference where
  dev : ℕ
  nr : ℕ
  slot : ℕ

/-- **A call under way**; `args` are the ones of `iget`. -/
structure Call where
  args : ℕ × ℕ
  stack : List Routine
  since : ℕ

/-- **A call of `iget` that has returned.** -/
structure Return where
  args : ℕ × ℕ
  slot : ℕ
  since : ℕ
  till : ℕ

/-- **The table and the tasks.** -/
structure State where
  table : Table
  calls : List Call
  refs : List Reference
  returns : List Return
  time : ℕ

/-- What others may do to the inodes while a task sleeps. -/
structure Table.Others (t t' : Table) : Prop where
  last : t'.last = t.last
  cleared : t'.cleared = t.cleared
  slot : ∀ i, t'.slot i =
    { t.slot i with d := (t'.slot i).d, lock := (t'.slot i).lock, dirt := (t'.slot i).dirt }

namespace State

variable (s : State)

/-- The call `c`, between the others, has come from `f` to `stack`. -/
def after (t : Table) (l₁ : List Call) (c : Call) (l₂ : List Call) (stack : List Routine) :
    Option ℕ → State
  | none =>
    { s with table := t, calls := l₁ ++ { c with stack := stack } :: l₂, time := s.time + 1 }
  | some i =>
    { table := t
      calls := l₁ ++ { c with stack := stack } :: l₂
      refs := ⟨c.args.1, c.args.2, i⟩ :: s.refs
      returns := ⟨c.args, i, c.since, s.time⟩ :: s.returns
      time := s.time + 1 }

/-- **The references outstanding**: of the mounts, of those that `iget` has returned to, and of the
calls under way. -/
def held (M : Mounts) : List ℕ :=
  M.pins.map Prod.fst ++ (s.refs.map Reference.slot ++
    s.calls.flatMap fun c => c.stack.flatMap Routine.holds)

end State

/-- **A step**: `iget` is called; or a reference is given to `iput`; or a call goes on; or others do
something. -/
inductive Step (M : Mounts) (s : State) : State → Prop
  | iget (dev nr : ℕ) :
    Step M s { s with calls := ⟨(dev, nr), [.iget dev nr], s.time⟩ :: s.calls, time := s.time + 1 }
  | iput {r : Reference} {l₁ l₂ : List Reference} (hr : s.refs = l₁ ++ r :: l₂) :
    Step M s
      { s with
        refs := l₁ ++ l₂
        calls := ⟨(0, 0), [.iput r.slot], s.time⟩ :: s.calls
        time := s.time + 1 }
  | run {c : Call} {l₁ l₂ : List Call} {f : Routine} {st fs : List Routine} {t : Table}
    (io : Option DInode) (hc : s.calls = l₁ ++ c :: l₂) (hf : c.stack = f :: st)
    (h : f.step M s.table io = .go t fs) : Step M s (s.after t l₁ c l₂ (fs ++ st) f.result)
  | others {t : Table} (h : s.table.Others t) : Step M s { s with table := t, time := s.time + 1 }

end Linux011.Inodes.Iget

import Linux011.Fs.Namei
import Linux011.Lib.Run

/-!
# What system calls change of inodes

The calls of `fs/namei.c`, `fs/open.c` and `fs/file_dev.c` that change inodes, run one at a time,
with what they call of `fs/inode.c`, `fs/bitmap.c` and `fs/truncate.c`: every place where a field of
`struct d_inode` is changed, where `i_dirt` is set and where an inode is written out. Whatever reads
a block may find no clean buffer, and so may come to `sync_inodes` on the way.

What is in a directory, which blocks can be read, what is free, what the task may do and what time
it is are asked of an oracle, one question after another.

For the record, the fields that an inode has been given last are kept (`value`), and whether
something has gone wrong (`missed`): an `i_mtime` that is set to another time, of an inode not
marked as changed, by a function that does not mark it; or an entry that leads to a free inode.
-/

namespace Linux011.Inodes.Changes

/-! ### The state -/

/-- `struct d_inode`. -/
structure DInode where
  mode : BitVec 16
  uid : ℕ
  size : ℕ
  mtime : ℕ
  gid : ℕ
  nlinks : BitVec 8
  zone : Fin 9 → ℕ
  deriving DecidableEq

/-- **`struct m_inode`.** -/
structure MInode where
  d : DInode
  /-- `i_dev` and `i_num`. -/
  id : Fs.Id
  count : ℕ
  dirt : Bool
  pipe : Bool
  mount : Bool

/-- A super block, with the number of the inode it is mounted on. -/
structure Super where
  dev : ℕ
  imount : Option ℕ

/-- **The inode table**, and the inodes on the disks. -/
structure Kernel where
  inode : ℕ → MInode
  /-- `last_inode` -/
  last : ℕ
  super : ℕ → Super
  /-- What is in the inode blocks. -/
  image : Fs.Id → DInode
  /-- The inode maps. -/
  used : Fs.Id → Bool
  oracle : ℕ → ℕ
  value : Fs.Id → DInode
  missed : Bool

/-- What ends a call otherwise. -/
inductive Halt
  | panic (message : String)
  /-- A loop goes on for ever. -/
  | hang

/-- Code of the kernel. -/
abbrev M := EStateM Halt Kernel

/-- `NR_INODE`. -/
def nrInode : ℕ := 32

/-- All fields are 0. -/
def noInode : DInode := ⟨0#16, 0, 0, 0, 0, 0#8, fun _ => 0⟩

/-- What `memset` makes of an inode. -/
def MInode.clear : MInode := ⟨noInode, ⟨0, 0⟩, 0, false, false, false⟩

namespace Kernel

variable (s : Kernel)

/-- A store into one inode, but for the fields that are on the disk. -/
def setInode (i : ℕ) (f : MInode → MInode) : Kernel :=
  { s with inode := Function.update s.inode i (f (s.inode i)) }

/-- **Fields that are on the disk are changed**, and the inode is marked or not. -/
def change (i : ℕ) (mark : Bool) (f : DInode → DInode) : Kernel :=
  { s.setInode i fun n => { n with d := f n.d, dirt := n.dirt || mark } with
    value := Function.update s.value (s.inode i).id (f (s.inode i).d) }

/-- `i_mtime` is set by a function that does not mark the inode. -/
def touch (i t : ℕ) : Kernel :=
  { s.change i false fun d => { d with mtime := t } with
    missed := s.missed || decide ((s.inode i).dirt = false ∧ (s.inode i).id.dev ≠ 0 ∧
      (s.inode i).d.mtime ≠ t) }

end Kernel

/-! ### The oracle -/

/-- **A question**, and the answer. -/
def ask : M ℕ := fun s => .ok (s.oracle 0) { s with oracle := fun n => s.oracle (n + 1) }

/-- A question to be answered with yes or no. -/
def asks : M Bool := do
  let n ← ask
  pure (n ≠ 0)

/-- `CURRENT_TIME`. -/
def currentTime : M ℕ := ask

/-! ### `fs/inode.c` -/

/-- The end of `write_inode`. -/
def Kernel.writeOut (s : Kernel) (i : ℕ) : Kernel :=
  { s.setInode i fun n => { n with dirt := false } with
    image := Function.update s.image (s.inode i).id (s.inode i).d }

/-- **The block of an inode that is locked** is read. What finds no clean buffer now comes to
`sync_inodes`, and waits for this inode for ever. -/
def breadLocked : M PUnit := do
  if ← asks then throw .hang
  else if ← asks then pure ⟨⟩
  else throw (.panic "unable to read i-node block")

/-- `write_inode`. -/
def writeInode (i : ℕ) : M PUnit := do
  let s ← get
  if (s.inode i).dirt = false ∨ (s.inode i).id.dev = 0 then pure ⟨⟩
  else do
    breadLocked
    modify fun s => s.writeOut i

/-- **`sync_inodes`.** -/
def syncInodes : M PUnit :=
  forFrom 0 nrInode fun i => do
    let s ← get
    if (s.inode i).dirt = true ∧ (s.inode i).pipe = false then writeInode i else pure ⟨⟩

/-- `getblk`, which may find no clean buffer. -/
def getblk : M PUnit := do
  if ← asks then syncInodes else pure ⟨⟩

/-- `bread`: whether the block can be read. -/
def bread : M Bool := do
  getblk
  asks

/-- The loop of `get_empty_inode`: `last_inode`, and the inode. -/
def findEmpty (s : Kernel) : ℕ → ℕ → Option ℕ → ℕ × Option ℕ
  | 0, last, inode => (last, inode)
  | n + 1, last, inode =>
    let last := if nrInode ≤ last + 1 then 0 else last + 1
    if (s.inode last).count = 0 then
      if (s.inode last).dirt = false then (last, some last) else findEmpty s n last (some last)
    else findEmpty s n last inode

/-- **`get_empty_inode`.** What has no device is not written, and stays marked for ever. -/
def getEmptyInode : M ℕ := do
  let s ← get
  let r := findEmpty s nrInode s.last none
  set { s with last := r.1 }
  match r.2 with
  | none => throw (.panic "No free inodes in mem")
  | some i => do
    writeInode i
    let s ← get
    if (s.inode i).dirt = true then throw .hang
    else do
      set (s.setInode i fun _ => { MInode.clear with count := 1 })
      pure i

/-- `free_block`, as far as it may panic. -/
def freeBlock : M PUnit := do
  if ← asks then throw (.panic "free_block: bit already cleared") else pure ⟨⟩

/-- `free_ind`, and the loop of `free_dind`: blocks are read. -/
def freeInd (zone : ℕ) : M PUnit :=
  if zone = 0 then pure ⟨⟩
  else do
    let n ← ask
    forFrom 0 (n + 1) fun _ => do
      let _ ← bread
      freeBlock

/-- `S_ISREG`. -/
def isReg (d : DInode) : Bool := d.mode &&& 0xF000#16 == 0x8000#16

/-- `S_ISDIR`. -/
def isDir (d : DInode) : Bool := d.mode &&& 0xF000#16 == 0x4000#16

/-- `S_ISBLK`. -/
def isBlk (d : DInode) : Bool := d.mode &&& 0xF000#16 == 0x6000#16

/-- `S_ISCHR`. -/
def isChr (d : DInode) : Bool := d.mode &&& 0xF000#16 == 0x2000#16

/-- **`truncate`** -/
def truncate (i : ℕ) : M PUnit := do
  let s ← get
  if ¬(isReg (s.inode i).d ∨ isDir (s.inode i).d) then pure ⟨⟩
  else do
    forFrom 0 7 fun k => do
      let s ← get
      if (s.inode i).d.zone (Fin.ofNat 9 k) = 0 then pure ⟨⟩
      else do
        freeBlock
        modify fun s => s.change i false fun d =>
          { d with zone := Function.update d.zone (Fin.ofNat 9 k) 0 }
    let s ← get
    freeInd ((s.inode i).d.zone 7)
    freeInd ((s.inode i).d.zone 8)
    let t ← currentTime
    modify fun s => s.change i true fun d => { d with
      zone := Function.update (Function.update d.zone 7 0) 8 0
      size := 0
      mtime := t }

/-- **`free_inode`** -/
def freeInode (i : ℕ) : M PUnit := do
  let s ← get
  let n := s.inode i
  if n.id.dev = 0 then set (s.setInode i fun _ => .clear)
  else if 1 < n.count then throw (.panic "free_inode")
  else if n.d.nlinks ≠ 0#8 then throw (.panic "trying to free inode with links")
  else set { s.setInode i fun _ => .clear with used := Function.update s.used n.id false }

/-- `iput`, at the label `repeat`; when the inode has been written, it is clean. -/
def iputRepeat (i : ℕ) : M PUnit := do
  let s ← get
  if 1 < (s.inode i).count then set (s.setInode i fun n => { n with count := n.count - 1 })
  else if (s.inode i).d.nlinks = 0#8 then do
    truncate i
    freeInode i
  else do
    writeInode i
    modify fun s => s.setInode i fun n => { n with count := n.count - 1 }

/-- **`iput`** -/
def iput (i : ℕ) : M PUnit := do
  let s ← get
  let n := s.inode i
  if n.count = 0 then throw (.panic "iput: trying to free free inode")
  else if n.pipe then
    if 1 < n.count then set (s.setInode i fun n => { n with count := n.count - 1 })
    else set (s.setInode i fun n => { n with count := 0, dirt := false, pipe := false })
  else if n.id.dev = 0 then set (s.setInode i fun n => { n with count := n.count - 1 })
  else do
    if isBlk n.d then syncInodes else pure ⟨⟩
    iputRepeat i

/-- The inode of this device and number, in the table. -/
def Kernel.find (s : Kernel) (id : Fs.Id) : Option ℕ :=
  (List.range nrInode).find? fun i => (s.inode i).id = id

/-- `read_inode`. -/
def readInode (i : ℕ) : M PUnit := do
  breadLocked
  modify fun s => s.setInode i fun n => { n with d := s.image n.id }

/-- The loop of `iget`, with an empty inode, through so many mounts. -/
def igetLoop (empty : ℕ) : ℕ → Fs.Id → M ℕ
  | 0, _ => throw .hang
  | n + 1, id => do
    let s ← get
    match s.find id with
    | none => do
      set { s.setInode empty (fun n => { n with id := id }) with
        missed := s.missed || !s.used id }
      readInode empty
      pure empty
    | some j => do
      set (s.setInode j fun n => { n with count := n.count + 1 })
      if (s.inode j).mount then
        match (List.range 8).find? fun k => (s.super k).imount = some j with
        | none => do
          iput empty
          pure j
        | some k => do
          iput j
          igetLoop empty n ⟨(s.super k).dev, Fs.rootIno⟩
      else do
        iput empty
        pure j

/-- **`iget`** -/
def iget (id : Fs.Id) : M ℕ :=
  if id.dev = 0 then throw (.panic "iget with dev==0")
  else do
    let empty ← getEmptyInode
    igetLoop empty 9 id

/-! ### `fs/bitmap.c` -/

/-- `new_block`. -/
def newBlock : M ℕ := do
  getblk
  ask

/-- **`new_inode`**, for a task with these ids: a number whose bit is 0. -/
def newInode (dev euid egid : ℕ) : M (Option ℕ) := do
  let i ← getEmptyInode
  let num ← ask
  let s ← get
  if dev = 0 then throw (.panic "new_inode with unknown device")
  else if num = 0 ∨ s.used ⟨dev, num⟩ = true then do
    iput i
    pure none
  else do
    let t ← currentTime
    modify fun s =>
      { s.setInode i fun n => { n with id := ⟨dev, num⟩ } with
        used := Function.update s.used ⟨dev, num⟩ true }
    modify fun s => (s.change i true fun d =>
      { d with nlinks := 1#8, uid := euid, gid := egid, mtime := t }).setInode i fun n =>
      { n with count := 1 }
    pure (some i)

/-- A zone of the inode is made sure of: `_bmap` with `create` set. If there is no block, it is 0
as before. -/
def makeZone (i : ℕ) (k : Fin 9) : M PUnit := do
  let s ← get
  if (s.inode i).d.zone k ≠ 0 then pure ⟨⟩
  else do
    let z ← newBlock
    if z = 0 then pure ⟨⟩
    else modify fun s => s.change i true fun d => { d with zone := Function.update d.zone k z }

/-- An entry of an indirect block, if need be a new one. -/
def makeEntry : M ℕ := do
  if ← bread then do
    let z ← ask
    if z = 0 then newBlock else pure z
  else pure 0

/-- **`create_block`** -/
def createBlock (i block : ℕ) : M ℕ := do
  if 7 + 512 + 512 * 512 ≤ block then throw (.panic "_bmap: block>big")
  else if block < 7 then do
    makeZone i (Fin.ofNat 9 block)
    let s ← get
    pure ((s.inode i).d.zone (Fin.ofNat 9 block))
  else if block < 7 + 512 then do
    makeZone i 7
    let s ← get
    if (s.inode i).d.zone 7 = 0 then pure 0 else makeEntry
  else do
    makeZone i 8
    let s ← get
    if (s.inode i).d.zone 8 = 0 then pure 0
    else if (← makeEntry) = 0 then pure 0
    else makeEntry

/-! ### `fs/namei.c` -/

/-- **The task that calls.** -/
structure Task where
  root : ℕ
  pwd : ℕ
  euid : ℕ
  egid : ℕ
  umask : BitVec 16

/-- Blocks of a directory are searched, so many of them. -/
def search : M PUnit := do
  let n ← ask
  forFrom 0 n fun _ => do
    let _ ← bread
    pure ⟨⟩

/-- For '..' over a mount point the directory is exchanged. -/
def exchange (t : Task) (dir : ℕ) : M ℕ := do
  let dotdot ← asks
  let s ← get
  if dotdot = false ∨ dir = t.root ∨ (s.inode dir).id.num ≠ Fs.rootIno then pure dir
  else
    match ((List.range 8).find? fun k => (s.super k).dev = (s.inode dir).id.dev).bind fun k =>
        (s.super k).imount with
    | none => pure dir
    | some j => do
      iput dir
      modify fun s => s.setInode j fun n => { n with count := n.count + 1 }
      pure j

/-- **`find_entry`**: the directory it has been in, at the end, and the number in the entry. -/
def findEntry (t : Task) (dir : ℕ) : M (ℕ × Option ℕ) := do
  let dir ← exchange t dir
  search
  let num ← ask
  pure (dir, if num = 0 then none else some num)

/-- The loop of `get_dir`, for so many names. -/
def walk (t : Task) : ℕ → ℕ → M (Option ℕ)
  | 0, i => pure (some i)
  | n + 1, i => do
    let allowed ← asks
    let s ← get
    if isDir (s.inode i).d = false ∨ allowed = false then do
      iput i
      pure none
    else
      match ← findEntry t i with
      | (dir, none) => do
        iput dir
        pure none
      | (dir, some num) => do
        let s ← get
        iput dir
        let i ← iget ⟨(s.inode dir).id.dev, num⟩
        walk t n i

/-- `dir_namei`, and whether there is a name behind the last slash. -/
def dirNamei (t : Task) : M (Option (ℕ × Bool)) := do
  let n ← ask
  let absolute ← asks
  let i := if absolute then t.root else t.pwd
  modify fun s => s.setInode i fun n => { n with count := n.count + 1 }
  match ← walk t n i with
  | none => pure none
  | some dir => do
    let name ← asks
    pure (some (dir, name))

/-- **`namei`** -/
def namei (t : Task) : M (Option ℕ) := do
  match ← dirNamei t with
  | none => pure none
  | some (dir, false) => pure (some dir)
  | some (dir, true) =>
    match ← findEntry t dir with
    | (dir, none) => do
      iput dir
      pure none
    | (dir, some num) => do
      let s ← get
      iput dir
      let i ← iget ⟨(s.inode dir).id.dev, num⟩
      modify fun s => s.setInode i fun n => { n with dirt := true }
      pure (some i)

/-- Whether entry `k` is free: behind the end it is, and the directory grows. -/
def freeSlot (dir k : ℕ) : M Bool := do
  let s ← get
  if (s.inode dir).d.size ≤ 16 * k then do
    modify fun s => s.change dir true fun d => { d with size := 16 * (k + 1) }
    pure true
  else asks

/-- The loop of `add_entry`, at entry `k`; `atEnd` says that the end of a block has been
reached. -/
def addLoop (dir : ℕ) : ℕ → ℕ → Bool → M Bool
  | 0, _, _ => throw .hang
  | n + 1, k, atEnd => do
    if atEnd then do
      if (← createBlock dir (k / 64)) = 0 then pure false
      else if ← bread then addLoop dir n k false
      else addLoop dir n (k + 64) true
    else do
      let free ← freeSlot dir k
      if free then do
        let t ← currentTime
        modify fun s => s.touch dir t
        pure true
      else addLoop dir n (k + 1) ((k + 1) % 64 = 0)

/-- **`add_entry`**: whether there is a new entry. -/
def addEntry (dir : ℕ) : M Bool := do
  let named ← asks
  let s ← get
  if named = false ∨ (s.inode dir).d.zone 0 = 0 then pure false
  else if ← bread then do
    let n ← ask
    addLoop dir n 0 false
  else pure false

/-- Where a call finds its directory and its entry: both, or the call is over. -/
def lookup (t : Task) : M (Option (ℕ × Option ℕ)) := do
  match ← dirNamei t with
  | none => pure none
  | some (dir, name) => do
    let allowed ← asks
    if name = false ∨ allowed = false then do
      iput dir
      pure none
    else do
      let r ← findEntry t dir
      pure (some r)

/-- **`open_namei`**, with the flags `O_CREAT`, `O_EXCL` and `O_TRUNC`. -/
def openNamei (t : Task) (creat excl trunc : Bool) (mode : BitVec 16) : M (Option ℕ) := do
  match ← dirNamei t with
  | none => pure none
  | some (dir, false) => do
    if ← asks then pure (some dir)
    else do
      iput dir
      pure none
  | some (dir, true) =>
    match ← findEntry t dir with
    | (dir, none) => do
      let allowed ← asks
      if creat = false ∨ allowed = false then do
        iput dir
        pure none
      else do
        let s ← get
        match ← newInode (s.inode dir).id.dev t.euid t.egid with
        | none => do
          iput dir
          pure none
        | some i => do
          modify fun s => s.change i true fun d =>
            { d with uid := t.euid, mode := mode &&& 0o777#16 &&& ~~~t.umask ||| 0x8000#16 }
          if ← addEntry dir then do
            iput dir
            pure (some i)
          else do
            modify fun s => s.change i false fun d => { d with nlinks := d.nlinks - 1#8 }
            iput i
            iput dir
            pure none
    | (dir, some num) => do
      let s ← get
      iput dir
      if excl then pure none
      else do
        let i ← iget ⟨(s.inode dir).id.dev, num⟩
        if ← asks then do
          iput i
          pure none
        else do
          if trunc then truncate i else pure ⟨⟩
          pure (some i)

/-- **`sys_mknod`** -/
def sysMknod (t : Task) (mode : BitVec 16) (dev : ℕ) : M PUnit := do
  match ← lookup t with
  | none => pure ⟨⟩
  | some (dir, some _) => iput dir
  | some (dir, none) => do
    let s ← get
    match ← newInode (s.inode dir).id.dev t.euid t.egid with
    | none => iput dir
    | some i => do
      let now ← currentTime
      modify fun s => s.change i true fun d => { d with
        mode := mode
        zone := if isBlk { d with mode := mode } ∨ isChr { d with mode := mode } then
          Function.update d.zone 0 dev else d.zone
        mtime := now }
      if ← addEntry dir then do
        iput dir
        iput i
      else do
        iput dir
        modify fun s => s.change i false fun d => { d with nlinks := 0#8 }
        iput i

/-- **`sys_mkdir`** -/
def sysMkdir (t : Task) (mode : BitVec 16) : M PUnit := do
  match ← lookup t with
  | none => pure ⟨⟩
  | some (dir, some _) => iput dir
  | some (dir, none) => do
    let s ← get
    match ← newInode (s.inode dir).id.dev t.euid t.egid with
    | none => iput dir
    | some i => do
      let now ← currentTime
      modify fun s => s.change i true fun d => { d with size := 32, mtime := now }
      let z ← newBlock
      -- a new inode has no zones
      if z = 0 then do
        iput dir
        modify fun s => s.change i false fun d => { d with nlinks := d.nlinks - 1#8 }
        iput i
      else do
        modify fun s => s.change i true fun d => { d with zone := Function.update d.zone 0 z }
        if ← bread then do
          modify fun s => s.change i true fun d => { d with
            nlinks := 2#8
            mode := 0x4000#16 ||| mode &&& 0o777#16 &&& ~~~t.umask }
          if ← addEntry dir then do
            modify fun s => s.change dir true fun d => { d with nlinks := d.nlinks + 1#8 }
            iput dir
            iput i
          else do
            iput dir
            freeBlock
            modify fun s => s.change i false fun d => { d with nlinks := 0#8 }
            iput i
        else do
          iput dir
          freeBlock
          modify fun s => s.change i false fun d => { d with nlinks := d.nlinks - 1#8 }
          iput i

/-- **`sys_rmdir`** -/
def sysRmdir (t : Task) : M PUnit := do
  match ← lookup t with
  | none => pure ⟨⟩
  | some (dir, none) => iput dir
  | some (dir, some num) => do
    let s ← get
    let i ← iget ⟨(s.inode dir).id.dev, num⟩
    -- the owner, the references, and that it is an empty directory
    search
    let allowed ← asks
    if allowed = false ∨ i = dir then do
      iput i
      iput dir
    else do
      let now ← currentTime
      modify fun s => s.change i true fun d => { d with nlinks := 0#8 }
      modify fun s => s.change dir true fun d => { d with nlinks := d.nlinks - 1#8, mtime := now }
      iput dir
      iput i

/-- **`sys_unlink`** -/
def sysUnlink (t : Task) : M PUnit := do
  match ← lookup t with
  | none => pure ⟨⟩
  | some (dir, none) => iput dir
  | some (dir, some num) => do
    let s ← get
    let i ← iget ⟨(s.inode dir).id.dev, num⟩
    let allowed ← asks
    let s ← get
    if allowed = false ∨ isDir (s.inode i).d then do
      iput i
      iput dir
    else do
      modify fun s => s.change i true fun d => { d with
        nlinks := if d.nlinks = 0#8 then 0#8 else d.nlinks - 1#8 }
      iput i
      iput dir

/-- **`sys_link`** -/
def sysLink (t : Task) : M PUnit := do
  match ← namei t with
  | none => pure ⟨⟩
  | some old => do
    let s ← get
    if isDir (s.inode old).d then iput old
    else
      match ← lookup t with
      | none => iput old
      | some (dir, some _) => do
        iput dir
        iput old
      | some (dir, none) => do
        if ← addEntry dir then do
          iput dir
          modify fun s => s.change old true fun d => { d with nlinks := d.nlinks + 1#8 }
          iput old
        else do
          iput dir
          iput old

/-! ### `fs/open.c` and `fs/file_dev.c` -/

/-- `namei`, and a change of what it finds, if that is allowed. -/
def changeNamed (t : Task) (f : DInode → DInode) : M PUnit := do
  match ← namei t with
  | none => pure ⟨⟩
  | some i => do
    if ← asks then modify fun s => s.change i true f else pure ⟨⟩
    iput i

/-- **`sys_chmod`** -/
def sysChmod (t : Task) (mode : BitVec 16) : M PUnit :=
  changeNamed t fun d => { d with mode := mode &&& 0o7777#16 ||| d.mode &&& ~~~0o7777#16 }

/-- **`sys_chown`** -/
def sysChown (t : Task) (uid gid : ℕ) : M PUnit :=
  changeNamed t fun d => { d with uid := uid, gid := gid }

/-- **`sys_utime`** -/
def sysUtime (t : Task) (modtime : ℕ) : M PUnit :=
  changeNamed t fun d => { d with mtime := modtime }

/-- The loop of `file_write`. -/
def writeLoop (i : ℕ) : ℕ → ℕ → ℕ → M PUnit
  | 0, _, _ => throw .hang
  | n + 1, pos, left => do
    if left = 0 then pure ⟨⟩
    else if (← createBlock i (pos / 1024)) = 0 then pure ⟨⟩
    else if ← bread then do
      let c := min (1024 - pos % 1024) left
      modify fun s =>
        if (s.inode i).d.size < pos + c then s.change i true fun d => { d with size := pos + c }
        else s
      -- a page of the caller may have to be read
      search
      writeLoop i n (pos + c) (left - c)
    else pure ⟨⟩

/-- **`file_write`** -/
def fileWrite (i pos count : ℕ) : M PUnit := do
  writeLoop i (count + 1) pos count
  let t ← currentTime
  modify fun s => s.touch i t

/-- `sys_write`, to an inode that is open, as far as it is a regular file. -/
def sysWrite (i pos count : ℕ) : M PUnit := do
  let s ← get
  if count ≠ 0 ∧ (s.inode i).pipe = false ∧ isReg (s.inode i).d then fileWrite i pos count
  else pure ⟨⟩

/-! ### Runs -/

/-- **A system call.** -/
inductive Call
  | open (creat excl trunc : Bool) (mode : BitVec 16)
  | write (i pos count : ℕ)
  | close (i : ℕ)
  | chmod (mode : BitVec 16)
  | chown (uid gid : ℕ)
  | utime (modtime : ℕ)
  | link
  | unlink
  | mkdir (mode : BitVec 16)
  | rmdir
  | mknod (mode : BitVec 16) (dev : ℕ)
  | sync

/-- What a call does. -/
def Call.run (t : Task) : Call → M PUnit
  | .open creat excl trunc mode => do
    let _ ← openNamei t creat excl trunc mode
    pure ⟨⟩
  | .write i pos count => sysWrite i pos count
  | .close i => iput i
  | .chmod mode => sysChmod t mode
  | .chown uid gid => sysChown t uid gid
  | .utime modtime => sysUtime t modtime
  | .link => sysLink t
  | .unlink => sysUnlink t
  | .mkdir mode => sysMkdir t mode
  | .rmdir => sysRmdir t
  | .mknod mode dev => sysMknod t mode dev
  | .sync => syncInodes

/-- **A system call of some task**, from beginning to end. -/
def Step (s s' : Kernel) : Prop := ∃ t c, Call.run t c s = .ok ⟨⟩ s'

end Linux011.Inodes.Changes

import Linux011.Fs.Open

/-!
# The calls that take inodes into core

`sys_open`, `sys_creat`, `sys_pipe`, `sys_chdir`, `sys_fork`, `sys_close`, `sys_dup`, `sys_dup2` and
`sys_fcntl` with `F_DUPFD`, with what they call of `fs/namei.c`, `fs/inode.c` and `fs/bitmap.c`, as
far as they count references: in the table of inodes, in the table of files and in the tasks. The
calls are run one at a time.

What an inode in core says is what is on its device, changed or not; so there is one record of
each (`Linux011.Fs.Disk`), and an entry of the table tells which inode it is, how often it is in use
and whether it has to be written. Blocks and bit maps are left out, and no floppy is ever
exchanged. What new numbers `new_inode` finds, whether `add_entry` finds room, and which pages can
be had, is given to the calls.
-/

namespace Linux011.Fs.InCore

/-! ### The state -/

/-- An entry of the inode table. -/
structure MInode where
  /-- `i_dev` and `i_num`. -/
  id : Id
  count : ℕ
  dirt : Bool
  pipe : Bool
  deriving DecidableEq

/-- What `memset` makes of an entry. -/
def MInode.zero : MInode := ⟨⟨0, 0⟩, 0, false, false⟩

/-- An entry of the file table. -/
structure File where
  count : ℕ
  inode : ℕ

/-- **A task**, with the inodes it names. -/
structure Task where
  euid : ℕ
  egid : ℕ
  umask : BitVec 32
  leader : Bool
  tty : ℤ
  root : ℕ
  pwd : ℕ
  executable : Option ℕ
  filp : ℕ → Option ℕ
  closeOnExec : BitVec 32

/-- **The tables.** -/
structure World where
  disk : Disk
  /-- `i_zone[0]` of a device. -/
  rdev : Id → ℕ
  inode : ℕ → MInode
  /-- `last_inode` -/
  last : ℕ
  file : ℕ → File
  task : ℕ → Option Task

/-- What ends a call otherwise. -/
inductive Halt
  | panic (message : String)
  /-- A lookup ends. -/
  | look (h : Fs.Halt)
  /-- A loop goes on for ever. -/
  | hang
  /-- What a file system is mounted on is not in the table. It always is: the super block has it. -/
  | lost

/-- Code of the kernel. -/
abbrev M := EStateM Halt World

/-- `NR_INODE`. -/
def nrInode : ℕ := 32

/-- `NR_FILE`. -/
def nrFile : ℕ := 64

/-- `NR_OPEN`. -/
def nrOpen : ℕ := 20

/-- `NR_TASKS`. -/
def nrTasks : ℕ := 64

namespace World

variable (w : World)

/-- A store into one entry of the inode table. -/
def setInode (i : ℕ) (f : MInode → MInode) : World :=
  { w with inode := Function.update w.inode i (f (w.inode i)) }

/-- `i_count++` -/
def inc (i : ℕ) : World := w.setInode i fun n => { n with count := n.count + 1 }

/-- `i_count--` -/
def dec (i : ℕ) : World := w.setInode i fun n => { n with count := n.count - 1 }

/-- What an entry stands for. -/
def node (i : ℕ) : Inode := w.disk.inode (w.inode i).id

/-- What an inode says is changed. -/
def setDisk (id : Id) (f : Inode → Inode) : World :=
  { w with disk := { w.disk with
      inode := Function.update w.disk.inode id (f (w.disk.inode id)) } }

/-- A store into one entry of the file table. -/
def setFile (f : ℕ) (g : File → File) : World :=
  { w with file := Function.update w.file f (g (w.file f)) }

/-- A store into the structure of a task. -/
def setTask (p : ℕ) (g : Task → Task) : World :=
  { w with task := Function.update w.task p ((w.task p).map g) }

/-- `current->filp[fd] = f` -/
def setFilp (p fd : ℕ) (f : Option ℕ) : World :=
  w.setTask p fun t => { t with filp := Function.update t.filp fd f }

/-- `current->close_on_exec &= ~(1<<fd)` -/
def keepOnExec (p fd : ℕ) : World :=
  w.setTask p fun t => { t with closeOnExec := t.closeOnExec &&& ~~~(1#32 <<< fd) }

/-- The task, as far as a lookup asks for it. -/
def view (t : Task) : Fs.Task := ⟨t.euid, t.egid, (w.inode t.root).id, (w.inode t.pwd).id⟩

/-- The first entry of the table with this device and number. -/
def find (id : Id) : Option ℕ := (List.range nrInode).find? fun i => (w.inode i).id = id

end World

/-! ### `fs/inode.c` -/

/-- `write_inode`; the block of the inode can be read. -/
def writeInode (i : ℕ) : M PUnit := do
  let w ← get
  if (w.inode i).dirt = false ∨ (w.inode i).id.dev = 0 then pure ⟨⟩
  else if (getSuper w.disk (w.inode i).id.dev).isNone then
    throw (.panic "trying to write inode without device")
  else modify fun w => w.setInode i fun n => { n with dirt := false }

/-- `sync_inodes`. -/
def syncInodes : M PUnit :=
  forFrom 0 nrInode fun i => do
    let w ← get
    if (w.inode i).dirt = true ∧ (w.inode i).pipe = false then writeInode i else pure ⟨⟩

/-- `++last_inode`, round the table. -/
def nextInode (last : ℕ) : ℕ := if nrInode ≤ last + 1 then 0 else last + 1

/-- The loop of `get_empty_inode`: `last_inode`, and the inode. -/
def findEmpty (w : World) : ℕ → ℕ → Option ℕ → ℕ × Option ℕ
  | 0, last, inode => (last, inode)
  | n + 1, last, inode =>
    let last := nextInode last
    if (w.inode last).count = 0 then
      if (w.inode last).dirt = false then (last, some last) else findEmpty w n last (some last)
    else findEmpty w n last inode

/-- **`get_empty_inode`.** What has no device is not written, and stays marked for ever. -/
def getEmptyInode : M ℕ := do
  let w ← get
  let r := findEmpty w nrInode w.last none
  set { w with last := r.1 }
  match r.2 with
  | none => throw (.panic "No free inodes in mem")
  | some i => do
    writeInode i
    let w ← get
    if (w.inode i).dirt = true then throw .hang
    else do
      set (w.setInode i fun _ => { MInode.zero with count := 1 })
      pure i

/-- `S_ISBLK`. -/
def isBlk (n : Inode) : Bool := n.mode &&& 0xF000#16 == 0x6000#16

/-- `S_ISCHR`. -/
def isChr (n : Inode) : Bool := n.mode &&& 0xF000#16 == 0x2000#16

/-- **`iput`.** What has no links left is truncated and freed: the entry is cleared, and nothing
leads to the inode any more. -/
def iput (i : ℕ) : M PUnit := do
  let w ← get
  let n := w.inode i
  if n.count = 0 then throw (.panic "iput: trying to free free inode")
  else if n.pipe then
    if 1 < n.count then set (w.dec i)
    else set (w.setInode i fun n => { n with count := 0, dirt := false, pipe := false })
  else if n.id.dev = 0 then set (w.dec i)
  else do
    (if isBlk (w.node i) then syncInodes else pure ⟨⟩)
    let w ← get
    if 1 < (w.inode i).count then set (w.dec i)
    else if (w.node i).nlinks = 0 then set (w.setInode i fun _ => .zero)
    else do
      writeInode i
      modify fun w => w.dec i

/-- `read_inode`; the block of the inode can be read. -/
def readInode (i : ℕ) : M PUnit := do
  let w ← get
  if (getSuper w.disk (w.inode i).id.dev).isNone then
    throw (.panic "trying to read inode without dev")
  else pure ⟨⟩

/-- The loop of `iget`, with an empty inode, through so many mounts. -/
def igetLoop (empty : ℕ) : ℕ → Id → M ℕ
  | 0, _ => throw (.look .hang)
  | n + 1, id => do
    let w ← get
    match w.find id with
    | none =>
      if (w.disk.inode id).mount then throw .lost
      else do
        set (w.setInode empty fun n => { n with id := id })
        readInode empty
        pure empty
    | some j => do
      set (w.inc j)
      if (w.node j).mount then
        match mountedOn w.disk id with
        | none => do
          iput empty
          pure j
        | some k => do
          iput j
          igetLoop empty n ⟨(w.disk.super k).dev, rootIno⟩
      else do
        iput empty
        pure j

/-- **`iget`** -/
def iget (id : Id) : M ℕ :=
  if id.dev = 0 then throw (.look (.panic "iget with dev==0"))
  else do
    let empty ← getEmptyInode
    igetLoop empty 9 id

/-- **`get_pipe_inode`**; whether there is a page. -/
def getPipeInode (page : Bool) : M (Option ℕ) := do
  let i ← getEmptyInode
  if page then do
    modify fun w => w.setInode i fun n => { n with count := 2, pipe := true }
    pure (some i)
  else do
    modify fun w => w.setInode i fun n => { n with count := 0 }
    pure none

/-- **`new_inode`**, with what is found in the inode map of a device. -/
def newInode (dev : ℕ) (fresh : ℕ → Option ℕ) : M (Option ℕ) := do
  let i ← getEmptyInode
  let w ← get
  if (getSuper w.disk dev).isNone then throw (.panic "new_inode with unknown device")
  else
    match fresh dev with
    | none => do
      iput i
      pure none
    | some num => do
      modify fun w => w.setInode i fun n => { n with id := ⟨dev, num⟩, count := 1, dirt := true }
      pure (some i)

/-! ### `fs/namei.c` -/

/-- **`find_entry`**: the directory it has been in, at the end, and the entry. The directory is the
root if it is the same inode. -/
def findEntry (t : Task) (dir : ℕ) (name : List UInt8) : M (ℕ × Option ℕ) := do
  let w ← get
  let id := (w.inode dir).id
  let entries := (w.node dir).size / 16
  let len := min name.length 14
  if len = 0 then pure (dir, none)
  else if name = dotdot then
    if id = (w.inode t.root).id then pure (dir, scan entries 1 name (w.node dir))
    else if id.num = rootIno then
      match getSuper w.disk id.dev with
      | none => throw (.look .noSuper)
      | some sb =>
        match sb.imount with
        | none => pure (dir, scan entries 2 name (w.node dir))
        | some mount => do
          iput dir
          let w ← get
          match w.find mount with
          | none => throw .lost
          | some j => do
            set (w.inc j)
            pure (j, scan entries 2 name (w.node j))
    else pure (dir, scan entries 2 name (w.node dir))
  else pure (dir, scan entries len name (w.node dir))

/-- The inode of an entry, once the directory has been given back. -/
def enter (dir e : ℕ) : M ℕ := do
  let w ← get
  let id : Id := ⟨(w.inode dir).id.dev, dirIno (w.node dir) e⟩
  iput dir
  iget id

/-- Whether an inode can be gone through; if not, it is given back. -/
def enterable (t : Task) (i : ℕ) : M Bool := do
  let w ← get
  if passable w.disk (w.view t) (w.inode i).id then pure true
  else do
    iput i
    pure false

/-- The loop of `get_dir`, in a directory with the first letters of a name read. -/
def walk (t : Task) : ℕ → List UInt8 → List UInt8 → M (Option ℕ)
  | i, _, [] => pure (some i)
  | i, name, c :: rest =>
    if c = slash then do
      match ← findEntry t i name with
      | (dir, none) => do
        iput dir
        pure none
      | (dir, some e) => do
        let i ← enter dir e
        if ← enterable t i then walk t i [] rest else pure none
    else walk t i (name ++ [c]) rest

/-- Where `get_dir` begins. -/
def start (t : Task) (i : ℕ) (rest : List UInt8) : M (Option ℕ) := do
  modify fun w => w.inc i
  if ← enterable t i then walk t i [] rest else pure none

/-- **`get_dir`** -/
def getDir (t : Task) (path : List UInt8) : M (Option ℕ) := do
  let w ← get
  if (w.inode t.root).count = 0 then throw (.panic "No root inode")
  else if (w.inode t.pwd).count = 0 then throw (.panic "No cwd inode")
  else
    match path with
    | [] => pure none
    | c :: rest => if c = slash then start t t.root rest else start t t.pwd (c :: rest)

/-- **`dir_namei`** -/
def dirNamei (t : Task) (path : Path) : M (Option (ℕ × List UInt8)) := do
  match ← getDir t path.1 with
  | none => pure none
  | some dir => pure (some (dir, basename [] path.1))

/-- **`namei`** -/
def namei (t : Task) (path : Path) : M (Option ℕ) := do
  match ← dirNamei t path with
  | none => pure none
  | some (dir, name) =>
    if name = [] then pure (some dir)
    else
      match ← findEntry t dir name with
      | (dir, none) => do
        iput dir
        pure none
      | (dir, some e) => do
        let i ← enter dir e
        modify fun w => w.setInode i fun n => { n with dirt := true }
        pure (some i)

/-- **A file is made** in a directory, which is given back. -/
def make (t : Task) (dir : ℕ) (name : List UInt8) (mode : BitVec 32) (fresh : ℕ → Option ℕ)
    (room : Bool) : M (ℤ ⊕ ℕ) := do
  let w ← get
  match ← newInode (w.inode dir).id.dev fresh with
  | none => do
    iput dir
    pure (.inl (-28))
  | some i => do
    modify fun w => w.setDisk (w.inode i).id fun _ =>
      Fs.newInode (w.view t) (newMode mode t.umask)
    if room then do
      modify fun w => (w.setDisk (w.inode dir).id fun n =>
        addEntry n (name.take 14) (w.inode i).id.num).setInode dir fun n => { n with dirt := true }
      iput dir
      pure (.inr i)
    else do
      modify fun w => w.setDisk (w.inode i).id fun n => { n with nlinks := n.nlinks - 1 }
      iput i
      iput dir
      pure (.inl (-28))

/-- **`open_namei`**: an error, or the inode. -/
def openNamei (t : Task) (path : Path) (flag mode : BitVec 32) (fresh : ℕ → Option ℕ)
    (room : Bool) : M (ℤ ⊕ ℕ) := do
  let flag := openFlag flag
  match ← dirNamei t path with
  | none => pure (.inl (-2))
  | some (dir, name) =>
    if name = [] then
      if flag &&& (oAccmode ||| oCreat ||| oTrunc) = 0#32 then pure (.inr dir)
      else do
        iput dir
        pure (.inl (-21))
    else
      match ← findEntry t dir name with
      | (dir, none) => do
        let w ← get
        if flag &&& oCreat = 0#32 then do
          iput dir
          pure (.inl (-2))
        else if permission (w.view t) (w.inode dir).id (w.node dir) mayWrite then
          make t dir name mode fresh room
        else do
          iput dir
          pure (.inl (-13))
      | (dir, some e) =>
        if flag &&& oExcl ≠ 0#32 then do
          iput dir
          pure (.inl (-17))
        else do
          let i ← enter dir e
          let w ← get
          if (isDir (w.node i) ∧ flag &&& oAccmode ≠ 0#32) ∨
              ¬permission (w.view t) (w.inode i).id (w.node i) (accMode flag) then do
            iput i
            pure (.inl (-1))
          else do
            modify fun w => if flag &&& oTrunc ≠ 0#32 then
              (w.setDisk (w.inode i).id truncate).setInode i fun n => { n with dirt := true } else w
            pure (.inr i)

/-! ### The calls -/

/-- The first descriptor of a task that is not in use. -/
def Task.emptyFd (t : Task) : Option ℕ := (List.range nrOpen).find? fun fd => (t.filp fd).isNone

/-- The first entry of the file table that is not in use. -/
def World.emptyFile (w : World) : Option ℕ :=
  (List.range nrFile).find? fun f => (w.file f).count = 0

/-- **`sys_open`**, of task `p`. -/
def sysOpen (p : ℕ) (t : Task) (path : Path) (flag mode : BitVec 32) (fresh : ℕ → Option ℕ)
    (room : Bool) : M ℤ := do
  let w ← get
  let mode := mode &&& 0o777#32 &&& ~~~t.umask
  match t.emptyFd with
  | none => pure (-22)
  | some fd => do
    modify fun w => w.keepOnExec p fd
    match w.emptyFile with
    | none => pure (-22)
    | some f => do
      modify fun w => (w.setFilp p fd (some f)).setFile f fun file =>
        { file with count := file.count + 1 }
      match ← openNamei t path flag mode fresh room with
      | .inl e => do
        modify fun w => (w.setFilp p fd none).setFile f fun file => { file with count := 0 }
        pure e
      | .inr i => do
        let w ← get
        let dev := w.rdev (w.inode i).id
        if isChr (w.node i) ∧ dev / 256 = 5 ∧ t.tty < 0 then do
          iput i
          modify fun w => (w.setFilp p fd none).setFile f fun file => { file with count := 0 }
          pure (-1)
        else do
          modify fun w => if isChr (w.node i) ∧ dev / 256 = 4 ∧ t.leader ∧ t.tty < 0 then
            w.setTask p fun t => { t with tty := dev % 256 } else w
          modify fun w => w.setFile f fun _ => ⟨1, i⟩
          pure fd

/-- `sys_creat`. -/
def sysCreat (p : ℕ) (t : Task) (path : Path) (mode : BitVec 32) (fresh : ℕ → Option ℕ)
    (room : Bool) : M ℤ :=
  sysOpen p t path (oCreat ||| oTrunc) mode fresh room

/-- The descriptors of a task that are not in use. -/
def Task.emptyFds (t : Task) : List ℕ := (List.range nrOpen).filter fun fd => (t.filp fd).isNone

/-- The entries of the file table that are not in use. -/
def World.emptyFiles (w : World) : List ℕ :=
  (List.range nrFile).filter fun f => (w.file f).count = 0

/-- **`sys_pipe`**: of the files and of the descriptors that are not in use it takes the first two;
where there is only one, it is left alone in the end. -/
def sysPipe (p : ℕ) (t : Task) (page : Bool) : M ℤ := do
  let w ← get
  match w.emptyFiles, t.emptyFds with
  | f :: g :: _, fd :: gd :: _ => do
    modify fun w => (w.setFile f fun file => { file with count := 1 }).setFile g fun file =>
      { file with count := 1 }
    modify fun w => (w.setFilp p fd (some f)).setFilp p gd (some g)
    match ← getPipeInode page with
    | none => do
      modify fun w => (w.setFilp p fd none).setFilp p gd none
      modify fun w => (w.setFile f fun file => { file with count := 0 }).setFile g fun file =>
        { file with count := 0 }
      pure (-1)
    | some i => do
      modify fun w => (w.setFile f fun file => { file with inode := i }).setFile g fun file =>
        { file with inode := i }
      pure 0
  | _, _ => pure (-1)

/-- **`sys_chdir`** -/
def sysChdir (p : ℕ) (t : Task) (path : Path) : M ℤ := do
  match ← namei t path with
  | none => pure (-2)
  | some i => do
    let w ← get
    if isDir (w.node i) then do
      iput t.pwd
      modify fun w => w.setTask p fun t => { t with pwd := i }
      pure 0
    else do
      iput i
      pure (-20)

/-- **`sys_fork`**, which comes to a new `last_pid`; whether there is a page for the task, and
whether `copy_mem` copies all. -/
def sysFork (t : Task) (pid : ℕ) (page copied : Bool) : M ℤ := do
  let w ← get
  match (List.range nrTasks).find? fun q => q ≠ 0 ∧ (w.task q).isNone with
  | none => pure (-11)
  | some q =>
    if page = false ∨ copied = false then pure (-11)
    else do
      modify fun w => { w with task := Function.update w.task q (some { t with leader := false }) }
      forFrom 0 nrOpen fun fd => modify fun w =>
        match t.filp fd with
        | none => w
        | some f => w.setFile f fun file => { file with count := file.count + 1 }
      modify fun w => (w.inc t.pwd).inc t.root
      modify fun w =>
        match t.executable with
        | none => w
        | some i => w.inc i
      pure pid

/-- **`sys_close`** -/
def sysClose (p : ℕ) (t : Task) (fd : ℕ) : M ℤ := do
  if nrOpen ≤ fd then pure (-22)
  else do
    modify fun w => w.keepOnExec p fd
    match t.filp fd with
    | none => pure (-22)
    | some f => do
      modify fun w => w.setFilp p fd none
      let w ← get
      let file := w.file f
      if file.count = 0 then throw (.panic "Close: file count is 0")
      else do
        modify fun w => w.setFile f fun file => { file with count := file.count - 1 }
        (if file.count = 1 then iput file.inode else pure ⟨⟩)
        pure 0

/-- **`dupfd`**, of the task as it is now. -/
def dupfd (p fd arg : ℕ) : M ℤ := do
  let w ← get
  match w.task p with
  | none => pure 0
  | some t =>
    match (if nrOpen ≤ fd then none else t.filp fd) with
    | none => pure (-9)
    | some f =>
      if nrOpen ≤ arg then pure (-22)
      else
        match (List.range nrOpen).find? fun a => arg ≤ a ∧ (t.filp a).isNone with
        | none => pure (-24)
        | some a => do
          modify fun w => ((w.keepOnExec p a).setFilp p a (some f)).setFile f fun file =>
            { file with count := file.count + 1 }
          pure a

/-- `sys_dup2`. -/
def sysDup2 (p : ℕ) (t : Task) (oldfd newfd : ℕ) : M ℤ := do
  let _ ← sysClose p t newfd
  dupfd p oldfd newfd

/-- `sys_dup`. -/
def sysDup (p fildes : ℕ) : M ℤ := dupfd p fildes 0

/-- `sys_fcntl`, with `F_DUPFD`. -/
def sysFcntl (p : ℕ) (t : Task) (fd arg : ℕ) : M ℤ :=
  match (if nrOpen ≤ fd then none else t.filp fd) with
  | none => pure (-9)
  | some _ => dupfd p fd arg

/-- The calls. -/
inductive Act
  | open (path : Path) (flag mode : BitVec 32) (fresh : ℕ → Option ℕ) (room : Bool)
  | creat (path : Path) (mode : BitVec 32) (fresh : ℕ → Option ℕ) (room : Bool)
  | pipe (page : Bool)
  | chdir (path : Path)
  | fork (pid : ℕ) (page copied : Bool)
  | close (fd : ℕ)
  | dup (fd : ℕ)
  | dup2 (oldfd newfd : ℕ)
  | dupfd (fd arg : ℕ)

/-- What a call of a task does. -/
def Act.run (p : ℕ) (t : Task) : Act → M ℤ
  | .open path flag mode fresh room => sysOpen p t path flag mode fresh room
  | .creat path mode fresh room => sysCreat p t path mode fresh room
  | .pipe page => sysPipe p t page
  | .chdir path => sysChdir p t path
  | .fork pid page copied => sysFork t pid page copied
  | .close fd => sysClose p t fd
  | .dup fd => sysDup p fd
  | .dup2 oldfd newfd => sysDup2 p t oldfd newfd
  | .dupfd fd arg => sysFcntl p t fd arg

/-- **A call of task `p`**, which there may not be. -/
def perform (p : ℕ) (a : Act) : M ℤ := do
  let w ← get
  match w.task p with
  | none => pure 0
  | some t => a.run p t

/-- **Calls, one after another**, and what they return. -/
def calls : List (ℕ × Act) → M (List ℤ)
  | [] => pure []
  | (p, a) :: rest => do
    let r ← perform p a
    let rs ← calls rest
    pure (r :: rs)

end Linux011.Fs.InCore

import Linux011.Fs.Namei
import Linux011.Lib.Run

/-!
# Open files

The calls that work on descriptors: `sys_open` with `open_namei`, `sys_dup`, `sys_close`,
`sys_lseek`, and `sys_read` and `sys_write` with `file_read` and `file_write`, for one task
and for the files and directories it opens; transfers to pipes and devices are left out.

What the calls cannot decide by themselves is given to them: the number of the inode that
`new_inode` finds on a device, whether `add_entry` finds room, and which blocks can be allocated.
-/

namespace Linux011.Fs

/-! ### The state -/

/-- An entry of the file table. -/
structure File where
  mode : BitVec 16
  flags : BitVec 32
  count : ℕ
  inode : Id
  pos : ℤ

/-- **The files, and the task that has them open.** `granted` is a record only: the accesses
that a file has been opened for, and that `permission` allowed then. -/
structure World where
  disk : Disk
  task : Task
  umask : BitVec 32
  filp : ℕ → Option ℕ
  closeOnExec : BitVec 32
  file : ℕ → File
  granted : ℕ → BitVec 32 → Bool

/-- Code of the kernel. -/
abbrev M := EStateM Halt World

namespace World

variable (w : World)

/-- `f->... = ...` -/
def setFile (f : ℕ) (g : File → File) : World :=
  { w with file := Function.update w.file f (g (w.file f)) }

/-- `current->filp[fd] = f` -/
def setFilp (fd : ℕ) (f : Option ℕ) : World := { w with filp := Function.update w.filp fd f }

/-- An inode changes. -/
def setInode (id : Id) (g : Inode → Inode) : World :=
  { w with disk := { w.disk with
      inode := Function.update w.disk.inode id (g (w.disk.inode id)) } }

/-- What a file has been opened for. -/
def setGranted (f : ℕ) (g : BitVec 32 → Bool) : World :=
  { w with granted := Function.update w.granted f g }

/-- `current->close_on_exec &= ~(1<<fd)` -/
def keepOnExec (fd : ℕ) : World := { w with closeOnExec := w.closeOnExec &&& ~~~(1#32 <<< fd) }

end World

/-- A lookup changes nothing. -/
def lookup {α : Type} (f : Disk → Task → Look α) : M α := do
  let w ← get
  match f w.disk w.task with
  | .ok a => pure a
  | .error e => throw e

/-! ### Flags -/

/-- `O_ACCMODE` -/
def oAccmode : BitVec 32 := 0o3#32

/-- `O_WRONLY` -/
def oWronly : BitVec 32 := 0o1#32

/-- `O_CREAT` -/
def oCreat : BitVec 32 := 0o100#32

/-- `O_EXCL` -/
def oExcl : BitVec 32 := 0o200#32

/-- `O_TRUNC` -/
def oTrunc : BitVec 32 := 0o1000#32

/-- `O_APPEND` -/
def oAppend : BitVec 32 := 0o2000#32

/-- `ACC_MODE`: the access that is asked for. The last character of the string is negative. -/
def accMode (flag : BitVec 32) : BitVec 32 :=
  if flag &&& oAccmode = 0#32 then 4#32
  else if flag &&& oAccmode = 1#32 then 2#32
  else if flag &&& oAccmode = 2#32 then 6#32
  else BitVec.allOnes 32

/-- `open_namei` takes `O_TRUNC` to ask for writing. -/
def openFlag (flag : BitVec 32) : BitVec 32 :=
  if flag &&& oTrunc ≠ 0#32 ∧ flag &&& oAccmode = 0#32 then flag ||| oWronly else flag

/-- **The open asks for the access.** -/
def Asks (flag mask : BitVec 32) : Bool := accMode (openFlag flag) &&& mask == mask

/-! ### Open -/

/-- The mode of a file that `open_namei` makes. -/
def newMode (mode umask : BitVec 32) : BitVec 16 :=
  ((mode &&& 0o777#32 &&& ~~~umask) ||| 0o100000#32).setWidth 16

/-- The inode that `new_inode` finds, as `open_namei` fills it in. -/
def newInode (t : Task) (mode : BitVec 16) : Inode where
  mode := mode
  uid := t.euid
  gid := t.egid
  nlinks := 1
  size := 0
  zone _ := .hole
  data _ := 0
  mount := false

/-- The slot `add_entry` takes: the first that is free, or the next one. -/
def freeSlot (n : Inode) : ℕ :=
  ((List.range (n.size / 16)).find? fun i => n.zone (i / 64) = .good ∧ dirIno n i = 0).getD
    (n.size / 16)

/-- `add_entry`, and the number of the inode. -/
def addEntry (n : Inode) (name : List UInt8) (num : ℕ) : Inode :=
  let i := freeSlot n
  { n with
    size := max n.size (16 * (i + 1))
    zone := Function.update n.zone (i / 64) .good
    data := fun x =>
      if x / 16 ≠ i then n.data x
      else if x % 16 = 0 then UInt8.ofNat num
      else if x % 16 = 1 then UInt8.ofNat (num / 256)
      else name.getD (x % 16 - 2) 0 }

/-- `truncate` -/
def truncate (n : Inode) : Inode := { n with size := 0, zone := fun _ => .hole }

/-- **`open_namei`**: an error, or the inode. -/
def openNamei (path : Path) (flag mode : BitVec 32) (fresh : ℕ → Option ℕ) (room : Bool) :
    M (ℤ ⊕ Id) := do
  let flag := openFlag flag
  match ← lookup fun d t => dirNamei d t path with
  | none => pure (.inl (-2))
  | some (dir, name) =>
    if name = [] then
      if flag &&& (oAccmode ||| oCreat ||| oTrunc) = 0#32 then pure (.inr dir)
      else pure (.inl (-21))
    else
      match ← lookup fun d t => findEntry d t dir name with
      | (dir, none) => do
        let w ← get
        if flag &&& oCreat = 0#32 then pure (.inl (-2))
        else if ¬permission w.task dir (w.disk.inode dir) mayWrite then pure (.inl (-13))
        else
          match fresh dir.dev with
          | none => pure (.inl (-28))
          | some num =>
            if room then do
              modify fun w => w.setInode ⟨dir.dev, num⟩ fun _ =>
                newInode w.task (newMode mode w.umask)
              modify fun w => w.setInode dir fun n => addEntry n (name.take 14) num
              pure (.inr ⟨dir.dev, num⟩)
            else pure (.inl (-28))
      | (dir, some i) => do
        if flag &&& oExcl ≠ 0#32 then pure (.inl (-17))
        else do
          let id ← lookup fun d _ => iget d ⟨dir.dev, dirIno (d.inode dir) i⟩
          let w ← get
          if (isDir (w.disk.inode id) ∧ flag &&& oAccmode ≠ 0#32) ∨
              ¬permission w.task id (w.disk.inode id) (accMode flag) then pure (.inl (-1))
          else do
            modify fun w => if flag &&& oTrunc ≠ 0#32 then w.setInode id truncate else w
            pure (.inr id)

/-- `S_ISCHR` or `S_ISBLK`. -/
def isDevice (n : Inode) : Bool :=
  n.mode &&& 0xF000#16 == 0x2000#16 || n.mode &&& 0xF000#16 == 0x6000#16

/-- **`sys_open`** -/
def sysOpen (path : Path) (flag mode : BitVec 32) (fresh : ℕ → Option ℕ) (room : Bool) : M ℤ := do
  let w ← get
  let mode := mode &&& 0o777#32 &&& ~~~w.umask
  match (List.range 20).find? fun fd => (w.filp fd).isNone with
  | none => pure (-22)
  | some fd => do
    modify fun w => w.keepOnExec fd
    match (List.range 64).find? fun f => (w.file f).count = 0 with
    | none => pure (-22)
    | some f => do
      modify fun w => (w.setFilp fd (some f)).setFile f fun file =>
        { file with count := file.count + 1 }
      match ← openNamei path flag mode fresh room with
      | .inl e => do
        modify fun w => (w.setFilp fd none).setFile f fun file => { file with count := 0 }
        pure e
      | .inr id => do
        let w ← get
        let n := w.disk.inode id
        if isDevice n then throw .device
        else do
          modify fun w => w.setFile f fun _ => ⟨n.mode, flag, 1, id, 0⟩
          modify fun w => w.setGranted f fun mask => Asks flag mask && permission w.task id n mask
          pure fd

/-! ### Descriptors -/

/-- `sys_dup` -/
def sysDup (fd : ℕ) : M ℤ := do
  let w ← get
  if 20 ≤ fd then pure (-9)
  else
    match w.filp fd with
    | none => pure (-9)
    | some f =>
      match (List.range 20).find? fun arg => (w.filp arg).isNone with
      | none => pure (-24)
      | some arg => do
        modify fun w => ((w.keepOnExec arg).setFilp arg (some f)).setFile f fun file =>
          { file with count := file.count + 1 }
        pure arg

/-- `sys_close` -/
def sysClose (fd : ℕ) : M ℤ := do
  let w ← get
  if 20 ≤ fd then pure (-22)
  else do
    modify fun w => w.keepOnExec fd
    match w.filp fd with
    | none => pure (-22)
    | some f => do
      modify fun w => w.setFilp fd none
      if (w.file f).count = 0 then throw (.panic "Close: file count is 0")
      else do
        modify fun w => w.setFile f fun file => { file with count := file.count - 1 }
        pure 0

/-- A number of 32 bits. -/
def wrap32 (x : ℤ) : ℤ := (x + 2 ^ 31) % 2 ^ 32 - 2 ^ 31

/-- `sys_lseek` -/
def sysLseek (fd : ℕ) (offset origin : ℤ) : M ℤ := do
  let w ← get
  match (if 20 ≤ fd then none else w.filp fd) with
  | none => pure (-9)
  | some f =>
    let file := w.file f
    let major := file.inode.dev / 256
    if major < 1 ∨ 3 < major then pure (-9)
    else
      let pos := if origin = 0 then some offset
        else if origin = 1 then some (wrap32 (file.pos + offset))
        else if origin = 2 then some (wrap32 ((w.disk.inode file.inode).size + offset))
        else none
      match pos with
      | none => pure (-22)
      | some pos =>
        if pos < 0 then pure (-22)
        else do
          modify fun w => w.setFile f fun file => { file with pos := pos }
          pure pos

/-! ### Transfers -/

/-- What `_bmap` takes for a block of a file. -/
def maxBlock : ℕ := 7 + 512 + 512 * 512

/-- The loop of `file_read`, for so many rounds: the position at the end, and the bytes. -/
def readLoop (n : Inode) : ℕ → ℕ → ℕ → List UInt8 → M (ℕ × List UInt8)
  | 0, pos, _, acc => pure (pos, acc)
  | k + 1, pos, left, acc =>
    if left = 0 then pure (pos, acc)
    else if maxBlock ≤ pos / 1024 then throw (.panic "_bmap: block>big")
    else
      let chars := min (1024 - pos % 1024) left
      match n.zone (pos / 1024) with
      | .bad => pure (pos, acc)
      | .hole => readLoop n k (pos + chars) (left - chars) (acc ++ List.replicate chars 0)
      | .good =>
        readLoop n k (pos + chars) (left - chars)
          (acc ++ (List.range chars).map fun i => n.data (pos + i))

/-- **`sys_read`**: what it returns, and the bytes it delivers. -/
def sysRead (fd : ℕ) (count : ℤ) : M (ℤ × List UInt8) := do
  let w ← get
  match (if 20 ≤ fd ∨ count < 0 then none else w.filp fd) with
  | none => pure (-22, [])
  | some f =>
    if count = 0 then pure (0, [])
    else
      let file := w.file f
      let n := w.disk.inode file.inode
      if isDir n ∨ isReg n then do
        let count := if n.size < count + file.pos then n.size - file.pos else count
        if count ≤ 0 then pure (0, [])
        else do
          let (pos, bytes) ← readLoop n count.toNat file.pos.toNat count.toNat []
          modify fun w => w.setFile f fun file => { file with pos := pos }
          pure (if bytes = [] then -99 else bytes.length, bytes)
      else if isDevice n then throw .device
      else pure (-22, [])

/-- The bytes of a block are stored; a block that is new has been cleared. -/
def store (n : Inode) (pos : ℕ) (bytes : List UInt8) : Inode :=
  { n with
    size := max n.size (pos + bytes.length)
    zone := Function.update n.zone (pos / 1024) .good
    data := fun x =>
      if pos ≤ x ∧ x < pos + bytes.length then bytes.getD (x - pos) 0
      else if x / 1024 = pos / 1024 ∧ n.zone (pos / 1024) = .hole then 0
      else n.data x }

/-- The loop of `file_write`, for so many rounds: the position at the end. -/
def writeLoop (id : Id) (alloc : ℕ → Bool) : ℕ → ℕ → List UInt8 → M ℕ
  | 0, pos, _ => pure pos
  | k + 1, pos, bytes =>
    if bytes = [] then pure pos
    else if maxBlock ≤ pos / 1024 then throw (.panic "_bmap: block>big")
    else do
      let n := (← get).disk.inode id
      if n.zone (pos / 1024) = .bad ∨ n.zone (pos / 1024) = .hole ∧ ¬alloc (pos / 1024) then
        pure pos
      else do
        let c := min (1024 - pos % 1024) bytes.length
        modify fun w => w.setInode id fun n => store n pos (bytes.take c)
        writeLoop id alloc k (pos + c) (bytes.drop c)

/-- **`sys_write`** -/
def sysWrite (fd : ℕ) (bytes : List UInt8) (alloc : ℕ → Bool) : M ℤ := do
  let w ← get
  match (if 20 ≤ fd then none else w.filp fd) with
  | none => pure (-22)
  | some f =>
    if bytes = [] then pure 0
    else
      let file := w.file f
      let n := w.disk.inode file.inode
      if isReg n then do
        let start := if file.flags &&& oAppend ≠ 0#32 then n.size else file.pos.toNat
        let pos ← writeLoop file.inode alloc bytes.length start bytes
        modify fun w => if file.flags &&& oAppend ≠ 0#32 then w
          else w.setFile f fun file => { file with pos := pos }
        pure (if pos = start then -1 else (pos - start : ℕ))
      else if isDevice n then throw .device
      else pure (-22)

/-! ### Calls -/

/-- The calls. -/
inductive Act
  | open (path : Path) (flag mode : BitVec 32) (fresh : ℕ → Option ℕ) (room : Bool)
  | dup (fd : ℕ)
  | close (fd : ℕ)
  | lseek (fd : ℕ) (offset origin : ℤ)
  | read (fd : ℕ) (count : ℤ)
  | write (fd : ℕ) (bytes : List UInt8) (alloc : ℕ → Bool)

/-- What a call returns, and the bytes it delivers. -/
def perform : Act → M (ℤ × List UInt8)
  | .open path flag mode fresh room => (·, []) <$> sysOpen path flag mode fresh room
  | .dup fd => (·, []) <$> sysDup fd
  | .close fd => (·, []) <$> sysClose fd
  | .lseek fd offset origin => (·, []) <$> sysLseek fd offset origin
  | .read fd count => sysRead fd count
  | .write fd bytes alloc => (·, []) <$> sysWrite fd bytes alloc

/-- The task begins with no file open. -/
def Boot (w : World) : Prop := ∀ fd, w.filp fd = none

/-- **One call**, as far as `ok` lets it happen. -/
def Step (ok : World → Act → Prop) (w w' : World) : Prop :=
  ∃ a r, ok w a ∧ perform a w = .ok r w'

end Linux011.Fs

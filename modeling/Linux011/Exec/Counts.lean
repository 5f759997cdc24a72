import Linux011.Exec.Execve
import Linux011.Mm.Routines

/-!
# What a program start holds

`do_execve` once more, up to the point of no return, as far as it takes and gives back: the
reference counts of inodes and of buffers, and the pages counted in `mem_map`. What it reads is
given: the files, and what is at each address of its caller, whether or not the page is there.

A page of the caller that is not there is brought in when it is touched, and stays, whatever
becomes of the call. All else is given back (`Linux011.Exec.Counts.Kept`).

An inode that leaves the table has no references; a buffer is known by the file and the block
whose content it has.
-/

namespace Linux011.Exec.Counts

/-! ### The state -/

/-- A buffer: a block of a file, or block 0 of a device. -/
inductive Buffer
  | file (id : Fs.Id) (block : ℕ)
  | boot (dev : ℕ)
  deriving DecidableEq

/-- **The task** that calls, as far as `do_execve` changes it. -/
structure Task where
  /-- The ids, and where lookups begin. -/
  lookup : Fs.Task
  saHandler : ℕ → ℕ
  filp : ℕ → Option ℕ
  closeOnExec : BitVec 32
  executable : Option Fs.Id
  endCode : ℕ
  endData : ℕ
  brk : ℕ
  startStack : ℕ
  codeLimit : ℕ
  dataLimit : ℕ
  usedMath : Bool

/-- **What is counted.** -/
structure Kernel where
  disk : Fs.Disk
  /-- Block 0 of each device. -/
  bootBlock : ℕ → ℕ → UInt8
  /-- What is at an address of the caller. -/
  content : ℕ → UInt8
  /-- The page that `share_page` finds. -/
  shared : ℕ → Option ℕ
  task : Task
  /-- `i_count` -/
  iCount : Fs.Id → ℕ
  /-- `b_count` -/
  bCount : Buffer → ℕ
  memMap : ℕ → ℕ
  /-- The page tables of the caller, and the part of the page directory that is its own. -/
  user : ℕ → Option ℕ
  tables : ℕ → Option ℕ
  /-- The array `page` of `do_execve`. -/
  page : ℕ → Option ℕ
  /-- For the record: the addresses of the caller that have been read. -/
  reads : List ℕ

/-- Code of the kernel. -/
abbrev K := EStateM Halt Kernel

/-! ### Inodes and buffers -/

/-- One reference more. -/
def Kernel.hold (s : Kernel) (id : Fs.Id) : Kernel :=
  { s with iCount := Function.update s.iCount id (s.iCount id + 1) }

/-- One user of a buffer more. -/
def Kernel.grab (s : Kernel) (b : Buffer) : Kernel :=
  { s with bCount := Function.update s.bCount b (s.bCount b + 1) }

/-- `iput`. -/
def iput (id : Fs.Id) : K PUnit := do
  let s ← get
  if s.iCount id = 0 then throw (.panic "iput: trying to free free inode")
  else set { s with iCount := Function.update s.iCount id (s.iCount id - 1) }

/-- The loop of `iget`. -/
def igetFrom : ℕ → Fs.Id → K Fs.Id
  | 0, _ => throw (.files .hang)
  | n + 1, id => do
    modify fun s => s.hold id
    let s ← get
    if (s.disk.inode id).mount then
      match Fs.mountedOn s.disk id with
      | none => pure id
      | some i => do
        iput id
        igetFrom n ⟨(s.disk.super i).dev, Fs.rootIno⟩
    else pure id

/-- **`iget`** -/
def iget (id : Fs.Id) : K Fs.Id :=
  if id.dev = 0 then throw (.panic "iget with dev==0") else igetFrom 9 id

/-- `brelse`. -/
def brelse (b : Buffer) : K PUnit := do
  let s ← get
  if s.bCount b = 0 then throw (.panic "Trying to free free buffer")
  else set { s with bCount := Function.update s.bCount b (s.bCount b - 1) }

/-- **`bread`**, of a block that there is: whether it can be read. -/
def bread (id : Fs.Id) (block : ℕ) : K Bool := do
  modify fun s => s.grab (.file id block)
  let s ← get
  if (s.disk.inode id).zone block = .good then pure true
  else do
    brelse (.file id block)
    pure false

/-! ### Pages -/

/-- **`get_free_page`** -/
def getFreePage : K (Option ℕ) := do
  let s ← get
  match Mm.scasb s.memMap Mm.pagingPages with
  | none => pure none
  | some f => do
    set { s with memMap := Function.update s.memMap f 1 }
    pure (some f)

/-- **`free_page`** -/
def freePage : Option ℕ → K PUnit
  | none => pure ⟨⟩
  | some f => do
    let s ← get
    if s.memMap f = 0 then throw (.panic "trying to free free page")
    else set { s with memMap := Function.update s.memMap f (s.memMap f - 1) }

/-- The page table for a page, if need be with a new page for it. -/
def makeTable (n : ℕ) : K Bool := do
  let s ← get
  if (s.tables (n / 1024)).isSome then pure true
  else
    match ← getFreePage with
    | none => pure false
    | some f => do
      modify fun s => { s with tables := Function.update s.tables (n / 1024) (some f) }
      pure true

/-- A page is put into a page table. -/
def putPage (f n : ℕ) : K PUnit := do
  if ← makeTable n then modify fun s => { s with user := Function.update s.user n (some f) }
  else throw .oom

/-- The buffers that `bread_page` reads into. -/
def Kernel.pageBuffers (s : Kernel) (id : Fs.Id) (block : ℕ) : List Buffer :=
  ((List.range' block 4).filter fun i => (s.disk.inode id).zone i ≠ .hole).map fun i => .file id i

/-- Buffers are released, one after another. -/
def release : List Buffer → K PUnit
  | [] => pure ⟨⟩
  | b :: bs => do
    brelse b
    release bs

/-- `bread_page`. -/
def breadPage (id : Fs.Id) (block : ℕ) : K PUnit := do
  let s ← get
  modify fun s => (s.pageBuffers id block).foldl Kernel.grab s
  release (s.pageBuffers id block)

/-- `get_empty_page`. -/
def getEmptyPage (n : ℕ) : K PUnit := do
  match ← getFreePage with
  | none => throw .oom
  | some f => putPage f n

/-- **`do_no_page`** -/
def doNoPage (n : ℕ) : K PUnit := do
  let s ← get
  match s.task.executable with
  | none => getEmptyPage n
  | some id =>
    if s.task.endData ≤ pageSize * n then getEmptyPage n
    else
      match s.shared n with
      | some f =>
        if ← makeTable n then
          modify fun s => { s with
            user := Function.update s.user n (some f)
            memMap := Function.update s.memMap f (s.memMap f + 1) }
        else throw .oom
      | none =>
        match ← getFreePage with
        | none => throw .oom
        | some f => do
          breadPage id (1 + pageSize * n / 1024)
          putPage f n

/-- What an access does before it gets to the byte. -/
def touch (a : ℕ) : K PUnit := do
  modify fun s => { s with reads := a :: s.reads }
  let s ← get
  if s.task.dataLimit ≤ a then throw .fault
  else if (s.user (a / pageSize)).isNone then doNoPage (a / pageSize)
  else pure ⟨⟩

/-- `get_fs_byte` -/
def getFsByte (a : ℕ) : K UInt8 := do
  touch a
  let s ← get
  pure (s.content a)

/-- `get_fs_long` -/
def getFsLong (a : ℕ) : K ℕ := do
  let b0 ← getFsByte a
  let b1 ← getFsByte (a + 1)
  let b2 ← getFsByte (a + 2)
  let b3 ← getFsByte (a + 3)
  pure (b0.toNat + 2 ^ 8 * b1.toNat + 2 ^ 16 * b2.toNat + 2 ^ 24 * b3.toNat)

/-! ### Lookups -/

/-- The blocks of a directory from `k` on, so many of them: the entry that matches, in a block
that is kept. -/
def findFrom (dir : Fs.Id) (len : ℕ) (name : List UInt8) (entries : ℕ) : ℕ → ℕ → K (Option ℕ)
  | 0, _ => pure none
  | n + 1, k => do
    let s ← get
    if (s.disk.inode dir).zone k = .hole then findFrom dir len name entries n (k + 1)
    else if ← bread dir k then
      match (List.range' (64 * k) (min 64 (entries - 64 * k))).find? fun i =>
          Fs.isMatch len name (s.disk.inode dir) i with
      | some i => pure (some i)
      | none => do
        brelse (.file dir k)
        findFrom dir len name entries n (k + 1)
    else findFrom dir len name entries n (k + 1)

/-- The loop of `find_entry`, which is not begun if there is no first block. -/
def scan (dir : Fs.Id) (len : ℕ) (name : List UInt8) (entries : ℕ) : K (Option ℕ) := do
  let s ← get
  if (s.disk.inode dir).zone 0 = .good then
    findFrom dir len name entries ((entries + 63) / 64) 0
  else pure none

/-- **`find_entry`**: the directory it has been in, at the end, and the entry. -/
def findEntry (dir : Fs.Id) (name : List UInt8) : K (Fs.Id × Option ℕ) := do
  let s ← get
  let entries := (s.disk.inode dir).size / 16
  let len := min name.length 14
  if len = 0 then pure (dir, none)
  else if name = Fs.dotdot then
    if dir = s.task.lookup.root then do
      let r ← scan dir 1 name entries
      pure (dir, r)
    else if dir.num = Fs.rootIno then
      match Fs.getSuper s.disk dir.dev with
      | none => throw (.files .noSuper)
      | some sb =>
        match sb.imount with
        | none => do
          let r ← scan dir 2 name entries
          pure (dir, r)
        | some up => do
          iput dir
          modify fun s => s.hold up
          let r ← scan up 2 name entries
          pure (up, r)
    else do
      let r ← scan dir 2 name entries
      pure (dir, r)
  else do
    let r ← scan dir len name entries
    pure (dir, r)

/-- `for(namelen=0;(c=get_fs_byte(pathname++))&&(c!='/');namelen++)`: the name, and what ends
it. -/
def readName (byte : ℕ → K UInt8) : ℕ → ℕ → K (List UInt8 × UInt8)
  | 0, _ => throw .fault
  | n + 1, a => do
    let c ← byte a
    if c = 0 ∨ c = Fs.slash then pure ([], c)
    else do
      let r ← readName byte n (a + 1)
      pure (c :: r.1, r.2)

/-- The entry that has been found is followed: `brelse(bh)`, `iput`, `iget`. -/
def follow (dir : Fs.Id) (i : ℕ) : K Fs.Id := do
  brelse (.file dir (i / 64))
  iput dir
  let s ← get
  iget ⟨dir.dev, Fs.dirIno (s.disk.inode dir) i⟩

/-- The loop of `get_dir`, as far as an address can be in the segment. -/
def walk (byte : ℕ → K UInt8) : ℕ → Fs.Id → ℕ → K (Option Fs.Id)
  | 0, _, _ => throw .fault
  | n + 1, id, a => do
    let s ← get
    if Fs.passable s.disk s.task.lookup id = false then do
      iput id
      pure none
    else do
      let (name, c) ← readName byte (s.task.dataLimit + 1024) a
      if c = 0 then pure (some id)
      else
        match ← findEntry id name with
        | (dir, none) => do
          iput dir
          pure none
        | (dir, some i) => do
          let id ← follow dir i
          walk byte n id (a + name.length + 1)

/-- **`get_dir`** -/
def getDir (byte : ℕ → K UInt8) (pathname : ℕ) : K (Option Fs.Id) := do
  let s ← get
  let root := s.task.lookup.root
  let pwd := s.task.lookup.pwd
  if s.iCount root = 0 then throw (.panic "No root inode")
  else if s.iCount pwd = 0 then throw (.panic "No cwd inode")
  else do
    let c ← byte pathname
    if c = Fs.slash then do
      modify fun s => s.hold root
      walk byte (s.task.dataLimit + 1024) root (pathname + 1)
    else if c ≠ 0 then do
      modify fun s => s.hold pwd
      walk byte (s.task.dataLimit + 1024) pwd pathname
    else pure none

/-- What comes after the last slash, as `dir_namei` reads it. -/
def readBase (byte : ℕ → K UInt8) : ℕ → ℕ → List UInt8 → K (List UInt8)
  | 0, _, _ => throw .fault
  | n + 1, a, name => do
    let c ← byte a
    if c = 0 then pure name
    else readBase byte n (a + 1) (if c = Fs.slash then [] else name ++ [c])

/-- **`dir_namei`** -/
def dirNamei (byte : ℕ → K UInt8) (pathname : ℕ) : K (Option (Fs.Id × List UInt8)) := do
  match ← getDir byte pathname with
  | none => pure none
  | some dir => do
    let s ← get
    let name ← readBase byte (s.task.dataLimit + 1024) pathname []
    pure (some (dir, name))

/-- **`namei`** -/
def namei (byte : ℕ → K UInt8) (pathname : ℕ) : K (Option Fs.Id) := do
  match ← dirNamei byte pathname with
  | none => pure none
  | some (dir, name) =>
    if name = [] then pure (some dir)
    else
      match ← findEntry dir name with
      | (dir, none) => do
        iput dir
        pure none
      | (dir, some i) => some <$> follow dir i

/-! ### `copy_strings` -/

/-- `get_fs_long(((unsigned long *)argv)+argc)`. -/
def pointer : Source → ℕ → K ℕ
  | .user argv, argc => getFsLong (argv + 4 * argc)
  | .name filename, _ => pure filename
  | .kernel _, _ => pure 1

/-- `get_fs_byte(tmp)`. -/
def byte : Source → ℕ → K UInt8
  | .user _, tmp => getFsByte tmp
  | .name _, tmp => getFsByte tmp
  | .kernel s, tmp => pure (s.getD (tmp - 1) 0)

/-- The `do` loop for `len`. -/
def strLen (src : Source) : ℕ → ℕ → K ℕ
  | 0, _ => throw .fault
  | n + 1, tmp => do
    if (← byte src tmp) = 0 then pure 1
    else do
      let len ← strLen src n (tmp + 1)
      pure (len + 1)

/-- What `--p` and `--offset` come to: a page is left, and the one below is looked for. -/
def turn (c : Cursor) : K (Option Cursor) := do
  let p := (c.p + (2 ^ 32 - 1)) % 2 ^ 32
  if c.offset ≠ 0 then pure (some ⟨p, c.offset - 1, c.pag⟩)
  else if maxArgPages ≤ p / pageSize then throw .overrun
  else do
    let s ← get
    if (s.page (p / pageSize)).isSome then pure (some ⟨p, p % pageSize, p / pageSize⟩)
    else
      match ← getFreePage with
      | none => pure none
      | some f => do
        modify fun s => { s with page := Function.update s.page (p / pageSize) (some f) }
        pure (some ⟨p, p % pageSize, p / pageSize⟩)

/-- The loop over the bytes of a string, from its end. -/
def copyBytes (src : Source) : ℕ → ℕ → Cursor → K (Option Cursor)
  | 0, _, c => pure (some c)
  | len + 1, tmp, c => do
    match ← turn c with
    | none => pure none
    | some c => do
      let _ ← byte src (tmp - 1)
      copyBytes src len (tmp - 1) c

/-- The loop over the strings, from the last. -/
def copyLoop (src : Source) : ℕ → Cursor → K ℕ
  | 0, c => pure c.p
  | argc + 1, c => do
    let tmp ← pointer src argc
    if tmp = 0 then throw (.panic "argc is wrong")
    else do
      let s ← get
      let len ← strLen src (s.task.dataLimit + 1024) tmp
      match ← copyBytes src len (tmp + len) c with
      | none => pure 0
      | some c => copyLoop src argc c

/-- **`copy_strings`** -/
def copyStrings (argc : ℕ) (src : Source) (p : ℕ) : K ℕ :=
  if p = 0 then pure 0 else copyLoop src argc ⟨p, 0, 0⟩

/-- The loop of `count`. -/
def countFrom : ℕ → ℕ → K ℕ
  | 0, _ => throw .fault
  | n + 1, tmp => do
    if (← getFsLong tmp) = 0 then pure 0
    else do
      let i ← countFrom n (tmp + 4)
      pure (i + 1)

/-- `count` -/
def count (argv : ℕ) : K ℕ := do
  if argv = 0 then pure 0
  else do
    let s ← get
    countFrom (s.task.dataLimit + 1) argv

/-! ### `do_execve` -/

/-- `exec_error1` -/
def execError1 (e : ℤ) : K (ℤ ⊕ ℕ × ℕ) := do
  forFrom 0 maxArgPages fun i => do
    let s ← get
    freePage (s.page i)
    modify fun s => { s with page := Function.update s.page i none }
  pure (.inl e)

/-- `exec_error2` -/
def execError2 (id : Fs.Id) (e : ℤ) : K (ℤ ⊕ ℕ × ℕ) := do
  iput id
  execError1 e

/-- The buffer with the first block of a file. -/
def firstBuffer (s : Kernel) (id : Fs.Id) : Buffer :=
  if (s.disk.inode id).zone 0 = .hole then .boot id.dev else .file id 0

/-- `restart_interp`, up to where the first block is read: an error, or what is in the block. -/
def openFile (id : Fs.Id) : K (ℤ ⊕ (ℕ → UInt8)) := do
  let s ← get
  let n := s.disk.inode id
  if Fs.isReg n = false then pure (.inl (-13))
  else if mayRun s.task.lookup n = false then pure (.inl (-8))
  else if n.zone 0 = .hole then do
    modify fun s => s.grab (.boot id.dev)
    pure (.inr (s.bootBlock id.dev))
  else if ← bread id 0 then pure (.inr n.data)
  else pure (.inl (-13))

/-- What is left to do with a file that is a program; `start` is what comes after the point of
no return. -/
def runProgram (start : Fs.Id → Header → ℕ → ℕ → ℕ → K (ℕ × ℕ)) (id : Fs.Id) (b : ℕ → UInt8)
    (copy : K ℕ) (argc envc : ℕ) : K (ℤ ⊕ ℕ × ℕ) := do
  let s ← get
  brelse (firstBuffer s id)
  let ex := readHeader b
  if ex.ok (s.disk.inode id).size = false then execError2 id (-8)
  else do
    let p ← copy
    if p = 0 then execError2 id (-12)
    else do
      let r ← start id ex p argc envc
      pure (.inr r)

/-- The argument of the interpreter, if there is one. -/
def copyArg (iArg : Option (List UInt8)) (p : ℕ) : K ℕ :=
  match iArg with
  | none => pure p
  | some s => copyStrings 1 (.kernel s) p

/-- What `do_execve` does with a script. -/
def runScript (start : Fs.Id → Header → ℕ → ℕ → ℕ → K (ℕ × ℕ)) (id : Fs.Id) (b : ℕ → UInt8)
    (filename argv envp argc envc : ℕ) : K (ℤ ⊕ ℕ × ℕ) := do
  let s ← get
  brelse (firstBuffer s id)
  iput id
  match parseScript b with
  | none => execError1 (-8)
  | some (interp, iName, iArg) => do
    let p ← copyStrings envc (.user envp) top
    let p ← copyStrings (argc - 1) (.user (argv + 4)) p
    let p ← copyStrings 1 (.name filename) p
    let p ← copyArg iArg p
    let p ← copyStrings 1 (.kernel iName) p
    if p = 0 then execError1 (-12)
    else
      match ← namei (fun a => pure (interp.getD a 0)) 0 with
      | none => execError1 (-2)
      | some id => do
        match ← openFile id with
        | .inl e => execError2 id e
        | .inr b => runProgram start id b (pure p) (argc + iArg.toList.length + 1) envc

/-- **`do_execve`** -/
def doExecve (start : Fs.Id → Header → ℕ → ℕ → ℕ → K (ℕ × ℕ)) (cs filename argv envp : ℕ) :
    K (ℤ ⊕ ℕ × ℕ) := do
  if cs % 2 ^ 16 ≠ 0xF then throw (.panic "execve called from supervisor mode")
  else do
    modify fun s => { s with page := fun _ => none, reads := [] }
    match ← namei getFsByte filename with
    | none => pure (.inl (-2))
    | some id => do
      let argc ← count argv
      let envc ← count envp
      match ← openFile id with
      | .inl e => execError2 id e
      | .inr b =>
        if isScript b then runScript start id b filename argv envp argc envc
        else
          runProgram start id b (do
            let p ← copyStrings envc (.user envp) top
            copyStrings argc (.user argv) p) argc envc

end Linux011.Exec.Counts

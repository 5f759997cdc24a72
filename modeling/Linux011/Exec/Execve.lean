import Linux011.Exec.Space
import Mathlib.Data.List.TakeWhile

/-!
# `fs/exec.c`

`do_execve` with what it is made of: `count`, `copy_strings`, `change_ldt` and
`create_tables`. The argument and environment strings are copied to pages of the kernel,
the last one first, while the old memory of the task is still there; the pages then become
the top of its new memory, and the tables of pointers are built below the strings by
reading them again.

Reference counts of inodes are left out, as in a path lookup.
-/

namespace Linux011.Exec

/-! ### Strings -/

/-- **Where `copy_strings` takes its strings from**: `from_kmem` 0, 1 and 2. -/
inductive Source
  | user (argv : ℕ)
  /-- `&filename`: the pointer is in the kernel, the string is not. -/
  | name (filename : ℕ)
  /-- `&i_arg` or `&i_name`, a string in the kernel. -/
  | kernel (s : List UInt8)

/-- `get_fs_long(((unsigned long *)argv)+argc)`. Where a string of the kernel is does not
matter. -/
def Source.pointer : Source → ℕ → M ℕ
  | .user argv, argc => getFsLong (argv + 4 * argc)
  | .name filename, _ => pure filename
  | .kernel _, _ => pure 1

/-- `get_fs_byte(tmp)` -/
def Source.byte : Source → ℕ → M UInt8
  | .user _, tmp => getFsByte tmp
  | .name _, tmp => getFsByte tmp
  | .kernel s, tmp => pure (s.getD (tmp - 1) 0)

/-- The `do` loop for `len`, as far as an address can be in the segment. -/
def strLen (src : Source) : ℕ → ℕ → M ℕ
  | 0, _ => throw .fault
  | n + 1, tmp => do
    if (← src.byte tmp) = 0 then pure 1
    else do
      let len ← strLen src n (tmp + 1)
      pure (len + 1)

/-- `p`, `offset` and `pag`, as the number of a page. -/
structure Cursor where
  p : ℕ
  offset : ℕ
  pag : ℕ

/-- What `--p` and `--offset` come to: a page is left, and the one below is looked for. -/
def turn (c : Cursor) : M (Option Cursor) := do
  if c.p = 0 then throw .overrun
  else if c.offset ≠ 0 then pure (some ⟨c.p - 1, c.offset - 1, c.pag⟩)
  else do
    let p := c.p - 1
    let w ← get
    if (w.page (p / pageSize)).isSome then pure (some ⟨p, p % pageSize, p / pageSize⟩)
    else if ← getFreePage then do
      modify fun w => { w with page := Function.update w.page (p / pageSize) (some fun _ => 0) }
      pure (some ⟨p, p % pageSize, p / pageSize⟩)
    else pure none

/-- The loop over the bytes of a string, from its end. -/
def copyBytes (src : Source) : ℕ → ℕ → Cursor → M (Option Cursor)
  | 0, _, c => pure (some c)
  | len + 1, tmp, c => do
    match ← turn c with
    | none => pure none
    | some c => do
      let b ← src.byte (tmp - 1)
      modify fun w => { w with page := setFlat w.page c.pag c.offset b }
      copyBytes src len (tmp - 1) c

/-- The loop over the strings, from the last. That `p-len` is negative never happens, it is
unsigned. -/
def copyLoop (src : Source) : ℕ → Cursor → M ℕ
  | 0, c => pure c.p
  | argc + 1, c => do
    let tmp ← src.pointer argc
    if tmp = 0 then throw (.panic "argc is wrong")
    else do
      let w ← get
      let len ← strLen src (w.dataLimit + 1024) tmp
      match ← copyBytes src len (tmp + len) c with
      | none => pure 0
      | some c => copyLoop src argc c

/-- **`copy_strings`** -/
def copyStrings (argc : ℕ) (src : Source) (p : ℕ) : M ℕ :=
  if p = 0 then pure 0 else copyLoop src argc ⟨p, 0, 0⟩

/-- The loop of `count`. -/
def countFrom : ℕ → ℕ → M ℕ
  | 0, _ => throw .fault
  | n + 1, tmp => do
    if (← getFsLong tmp) = 0 then pure 0
    else do
      let i ← countFrom n (tmp + 4)
      pure (i + 1)

/-- `count` -/
def count (argv : ℕ) : M ℕ := do
  if argv = 0 then pure 0
  else do
    let w ← get
    countFrom (w.dataLimit + 1) argv

/-! ### Tables -/

/-- `while (get_fs_byte(p++))` -/
def skipString : ℕ → ℕ → M ℕ
  | 0, _ => throw .fault
  | n + 1, p => do
    if (← getFsByte p) = 0 then pure (p + 1) else skipString n (p + 1)

/-- The two loops of `create_tables`; the value is `p` at the end. -/
def putPointers : ℕ → ℕ → ℕ → M ℕ
  | _, 0, p => pure p
  | argv, argc + 1, p => do
    putFsLong p argv
    let w ← get
    let p ← skipString (w.dataLimit + 1) p
    putPointers (argv + 4) argc p

/-- **`create_tables`** -/
def createTables (p argc envc : ℕ) : M ℕ := do
  let envp := p / 4 * 4 - 4 * (envc + 1)
  let argv := envp - 4 * (argc + 1)
  putFsLong envp (argv - 4)
  putFsLong argv (argv - 8)
  putFsLong argc (argv - 12)
  let p ← putPointers argv argc p
  putFsLong 0 (argv + 4 * argc)
  let _ ← putPointers envp envc p
  putFsLong 0 (envp + 4 * envc)
  pure (argv - 12)

/-- `MAX_ARG_PAGES` -/
def maxArgPages : ℕ := 32

/-- The number of the lowest page that `change_ldt` puts arguments into. -/
def argPage : ℕ := 0x4000000 / pageSize - maxArgPages

/-- The loop of `change_ldt`. -/
def putPages : ℕ → M PUnit
  | 0 => pure ⟨⟩
  | i + 1 => do
    let w ← get
    match w.page i with
    | none => putPages i
    | some pg => do
      let _ ← putPage pg (argPage + i)
      putPages i

/-- `change_ldt` -/
def changeLdt (textSize : ℕ) : M ℕ := do
  modify fun w => { w with
    codeLimit := (textSize + pageSize - 1) % 2 ^ 32 / pageSize * pageSize
    dataLimit := 0x4000000 }
  putPages maxArgPages
  pure 0x4000000

/-! ### Programs -/

/-- `struct exec` -/
structure Header where
  magic : ℕ
  text : ℕ
  data : ℕ
  bss : ℕ
  syms : ℕ
  entry : ℕ
  trsize : ℕ
  drsize : ℕ

/-- The header in the first block. -/
def readHeader (b : ℕ → UInt8) : Header where
  magic := wordAt b 0
  text := wordAt b 4
  data := wordAt b 8
  bss := wordAt b 12
  syms := wordAt b 16
  entry := wordAt b 20
  trsize := wordAt b 24
  drsize := wordAt b 28

/-- Where the zeroing of `do_execve` begins: `ex.a_text+ex.a_data`. -/
def Header.end (ex : Header) : ℕ := (ex.text + ex.data) % 2 ^ 32

/-- The header is that of a program that can be run; the sums are unsigned. `N_TXTOFF` of a
`ZMAGIC` is `BLOCK_SIZE`. -/
def Header.ok (ex : Header) (size : ℕ) : Bool :=
  ex.magic = 0o413 ∧ ex.trsize = 0 ∧ ex.drsize = 0 ∧
    (ex.text + ex.data + ex.bss) % 2 ^ 32 ≤ 0x3000000 ∧
    (ex.text + ex.data + ex.syms + 1024) % 2 ^ 32 ≤ size

/-- The first block of a file. -/
def firstBlock (w : World) (id : Fs.Id) : Option (ℕ → UInt8) :=
  let n := w.files.disk.inode id
  match n.zone 0 with
  | .good => some n.data
  | .hole => some (w.bootBlock id.dev)
  | .bad => none

/-- The file can be executed, as far as its mode goes. -/
def mayRun (t : Fs.Task) (n : Fs.Inode) : Bool :=
  let i := if t.euid = n.uid then n.mode >>> 6 else if t.egid = n.gid then n.mode >>> 3 else n.mode
  i &&& 1#16 ≠ 0#16 ∨ n.mode &&& 0o111#16 ≠ 0#16 ∧ t.euid = 0

/-- What `do_execve` makes sure of before it looks at a file: an error, or the first block. -/
def examine (w : World) (id : Fs.Id) : ℤ ⊕ (ℕ → UInt8) :=
  let n := w.files.disk.inode id
  if Fs.isReg n = false then .inl (-13)
  else if mayRun w.files.task n = false then .inl (-8)
  else
    match firstBlock w id with
    | none => .inl (-13)
    | some b => .inr b

/-- A space or a tab. -/
def blank (c : UInt8) : Bool := c = 32 ∨ c = 9

/-- `#!` -/
def isScript (b : ℕ → UInt8) : Bool := b 0 = 35 ∧ b 1 = 33

/-- `buf`: what `strncpy` copies of the block. Nothing is gained by computing it in proofs. -/
@[irreducible] def scriptBuf (b : ℕ → UInt8) : List UInt8 :=
  ((List.range 1022).map fun i => b (2 + i)).takeWhile (· ≠ 0)

/-- **The first line of a script**: `interp`, `i_name` and `i_arg`. -/
def parseScript (b : ℕ → UInt8) : Option (List UInt8 × List UInt8 × Option (List UInt8)) :=
  let buf := scriptBuf b
  if 10 ∉ buf then none
  else
    let cp := (buf.takeWhile (· ≠ 10)).dropWhile blank
    if cp = [] then none
    else
      let interp := cp.takeWhile fun c => ¬blank c
      let iArg :=
        match cp.dropWhile fun c => ¬blank c with
        | [] => none
        | _ :: rest => some rest
      some (interp, Fs.basename [] interp, iArg)

/-- What a lookup takes for a path. -/
def toPath (s : List UInt8) : Fs.Path :=
  ⟨s.takeWhile (· ≠ 0), fun h => by simpa using List.mem_takeWhile_imp h⟩

/-- A string of user memory, as far as an address can be in the segment. -/
def readString : ℕ → ℕ → M (List UInt8)
  | 0, _ => throw .fault
  | n + 1, a => do
    let b ← getFsByte a
    if b = 0 then pure []
    else do
      let s ← readString n (a + 1)
      pure (b :: s)

/-- `namei` -/
def namei (path : Fs.Path) : M (Option Fs.Id) :=
  onFiles (Fs.lookup fun d t => Fs.namei d t path)

/-! ### `do_execve` -/

/-- The set-uid and set-gid bits: `e_uid` and `e_gid`. -/
def newIds (t : Fs.Task) (n : Fs.Inode) : ℕ × ℕ :=
  (if n.mode &&& 0o4000#16 ≠ 0#16 then n.uid else t.euid,
    if n.mode &&& 0o2000#16 ≠ 0#16 then n.gid else t.egid)

/-- `exec_error1`, with the error. -/
def execError (e : ℤ) : M (ℤ ⊕ ℕ × ℕ) := do
  modify fun w => { w with page := fun _ => none }
  pure (.inl e)

/-- The loop that closes descriptors. -/
def closeOnExec : M PUnit := do
  let w ← get
  forFrom 0 20 fun i =>
    if w.files.closeOnExec >>> i &&& 1#32 ≠ 0#32 then do
      let _ ← onFiles (Fs.sysClose i)
      pure ⟨⟩
    else pure ⟨⟩

/-- `while (i&0xfff) put_fs_byte(0,(char *) (i++))` -/
def clearTail : ℕ → ℕ → M PUnit
  | 0, _ => pure ⟨⟩
  | n + 1, i =>
    if i % pageSize = 0 then pure ⟨⟩
    else do
      putFsByte 0 i
      clearTail n (i + 1)

/-- **From the point of no return on**: what `eip[0]` and `eip[3]` become. -/
def startProgram (id : Fs.Id) (ex : Header) (p argc envc : ℕ) : M (ℤ ⊕ ℕ × ℕ) := do
  let w ← get
  let ids := newIds w.files.task (w.files.disk.inode id)
  modify fun w => { w with executable := some id, saHandler := fun _ => 0 }
  closeOnExec
  modify fun w => { w with files := { w.files with closeOnExec := 0#32 } }
  let w ← get
  freePageTables w.codeLimit
  freePageTables w.dataLimit
  modify fun w => { w with usedMath := false }
  let limit ← changeLdt ex.text
  let p := p + limit - maxArgPages * pageSize
  let sp ← createTables p argc envc
  modify fun w => { w with
    endCode := ex.text
    endData := ex.end
    brk := (ex.bss + ex.end) % 2 ^ 32
    startStack := sp / pageSize * pageSize
    files := { w.files with task := { w.files.task with euid := ids.1, egid := ids.2 } } }
  clearTail pageSize ex.end
  pure (.inr (ex.entry, sp))

/-- Where the strings end. -/
def top : ℕ := pageSize * maxArgPages - 4

/-- What is left to do with a file that is a program. -/
def runProgram (id : Fs.Id) (b : ℕ → UInt8) (copy : M ℕ) (argc envc : ℕ) : M (ℤ ⊕ ℕ × ℕ) := do
  let w ← get
  let ex := readHeader b
  if ex.ok (w.files.disk.inode id).size = false then execError (-8)
  else do
    let p ← copy
    if p = 0 then execError (-12) else startProgram id ex p argc envc

/-- The argument of the interpreter, if there is one. -/
def copyArg (iArg : Option (List UInt8)) (p : ℕ) : M ℕ :=
  match iArg with
  | none => pure p
  | some s => copyStrings 1 (.kernel s) p

/-- What `do_execve` does with a script. -/
def runScript (b : ℕ → UInt8) (filename argv envp argc envc : ℕ) : M (ℤ ⊕ ℕ × ℕ) := do
  match parseScript b with
  | none => execError (-8)
  | some (interp, iName, iArg) => do
    let p ← copyStrings envc (.user envp) top
    let p ← copyStrings (argc - 1) (.user (argv + 4)) p
    let p ← copyStrings 1 (.name filename) p
    let p ← copyArg iArg p
    let p ← copyStrings 1 (.kernel iName) p
    if p = 0 then execError (-12)
    else
      match ← namei (toPath interp) with
      | none => execError (-2)
      | some id => do
        let w ← get
        match examine w id with
        | .inl e => execError e
        | .inr b => runProgram id b (pure p) (argc + iArg.toList.length + 1) envc

/-- **`do_execve`** -/
def doExecve (cs filename argv envp : ℕ) : M (ℤ ⊕ ℕ × ℕ) := do
  if cs % 2 ^ 16 ≠ 0xF then throw (.panic "execve called from supervisor mode")
  else do
    modify fun w => { w with page := fun _ => none }
    let w ← get
    let path ← readString (w.dataLimit + 1) filename
    match ← namei (toPath path) with
    | none => pure (.inl (-2))
    | some id => do
      let argc ← count argv
      let envc ← count envp
      let w ← get
      match examine w id with
      | .inl e => execError e
      | .inr b =>
        if isScript b then runScript b filename argv envp argc envc
        else
          runProgram id b (do
            let p ← copyStrings envc (.user envp) top
            copyStrings argc (.user argv) p) argc envc

end Linux011.Exec

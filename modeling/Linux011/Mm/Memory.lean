import Linux011.Lib.Wp
import Linux011.Mm.Entry

/-!
# Physical memory, and the routines of `mm/memory.c`

The state is what the routines of `mm/memory.c` and the memory half of
`kernel/fork.c` read and write: the bytes `mem_map`, physical memory itself –
page directory at address 0, page tables and user pages alike, since `_pg_dir = 0`
and a table is a page like any other – and the segment fields of the task
structures.

A pointer into physical memory is a frame number and the index of a word in that
frame. So `*dir` is a word of frame `0`, and the table a directory entry points to
is the frame `Linux011.Mm.frameOf` of that entry.

Two ways leave a routine early: a `panic`, and `oom()`, which runs `do_exit` for
the current task and never comes back. Both keep the state they reached.
-/

namespace Linux011.Mm

/-- `LOW_MEM >> 12`. -/
def lowFrame : ℕ := 256

/-- `PAGING_PAGES`. -/
def pagingPages : ℕ := 3840

/-- `NR_TASKS`. -/
def nrTasks : ℕ := 64

/-- `USED`. -/
def used : ℕ := 100

/-- `MAP_NR(addr)`, of the address of a frame. -/
def mapNr (f : ℕ) : ℕ := f - lowFrame

/-- What memory management reads of a `task_struct`: whether `task[n]` holds one,
the page it lives in, the bases and limits of its two segments, and what demand
loading asks for. -/
structure Task where
  /-- `task[n]` is not `NULL`. -/
  inUse : Bool
  /-- The task has run `do_exit` and waits to be reaped. -/
  zombie : Bool
  /-- The page of the structure itself. -/
  page : ℕ
  codeBase : ℕ
  codeLimit : ℕ
  dataBase : ℕ
  dataLimit : ℕ
  startCode : ℕ
  endData : ℕ
  executable : Option ℕ

/-- **The memory of the machine**, as the kernel keeps it. -/
structure Mem where
  /-- `HIGH_MEMORY`. -/
  highMemory : ℕ
  /-- `mem_map`, one byte per page from `LOW_MEM` on. -/
  memMap : ℕ → ℕ
  /-- Physical memory: the words of each frame. -/
  word : ℕ → ℕ → Word
  /-- `task[]`. -/
  task : ℕ → Task

/-- How a routine is left early. -/
inductive Halt where
  /-- `panic`: the kernel stops. -/
  | panic (msg : String)
  /-- `do_exit`: the current task is gone. -/
  | exited

/-- Kernel code over the memory of the machine. -/
abbrev M : Type → Type := EStateM Halt Mem

namespace Mem

variable (m : Mem)

/-- Store one word. -/
def setWord (f j : ℕ) (w : Word) : Mem :=
  { m with word := Function.update m.word f (Function.update (m.word f) j w) }

/-- Store a whole frame. -/
def setFrame (f : ℕ) (ws : ℕ → Word) : Mem := { m with word := Function.update m.word f ws }

/-- Store one byte of `mem_map`. -/
def setMap (n c : ℕ) : Mem := { m with memMap := Function.update m.memMap n c }

/-- Store one task structure. -/
def setTask (n : ℕ) (t : Task) : Mem := { m with task := Function.update m.task n t }

end Mem

/-! ### Pages -/

/-- `std ; repne ; scasb`: the greatest index below `n` whose byte is zero. -/
def scasb (map : ℕ → ℕ) : ℕ → Option ℕ
  | 0 => none
  | n + 1 => if map n = 0 then some n else scasb map n

/-- `get_free_page`: the last free page, marked used and cleared; `none` is `0`. -/
def getFreePage : M (Option ℕ) := do
  let m ← get
  match scasb m.memMap pagingPages with
  | none => pure none
  | some n => do
    set ((m.setMap n 1).setFrame (lowFrame + n) fun _ => 0#32)
    pure (some (lowFrame + n))

/-- `free_page`. The decrement is that of an `unsigned char`. -/
def freePage (page : ℕ) : M Unit := do
  if page < lowFrame then pure ()
  else do
    let m ← get
    if m.highMemory ≤ page * 4096 then throw (.panic "trying to free nonexistent page")
    else do
      let c := m.memMap (mapNr page)
      set (m.setMap (mapNr page) ((c + 255) % 256))
      if c ≠ 0 then pure ()
      else do
        modify fun m => m.setMap (mapNr page) 0
        throw (.panic "trying to free free page")

/-- The body of the inner loop of `free_page_tables`. -/
def freeEntry (table nr : ℕ) : M Unit := do
  let m ← get
  (if present (m.word table nr) then freePage (frameOf (m.word table nr)) else pure ())
  modify fun m => m.setWord table nr 0#32

/-- The body of the outer loop of `free_page_tables`. -/
def freeTable (dir : ℕ) : M Unit := do
  let m ← get
  if present (m.word 0 dir) then do
    forFrom 0 1024 (freeEntry (frameOf (m.word 0 dir)))
    let m ← get
    freePage (frameOf (m.word 0 dir))
    modify fun m => m.setWord 0 dir 0#32
  else pure ()

/-- How many directory entries `size` bytes take: `(size + 0x3fffff) >> 22`. -/
def dirCount (size : ℕ) : ℕ := (size + 0x3fffff) % 2 ^ 32 / 2 ^ 22

/-- `(addr >> 20) & 0xffc`, as the index of a directory entry. -/
def dirIndex (addr : ℕ) : ℕ := addr / 2 ^ 22 % 1024

/-- `(addr >> 12) & 0x3ff`. -/
def tableIndex (addr : ℕ) : ℕ := addr / 2 ^ 12 % 1024

/-- `free_page_tables`. -/
def freePageTables (start size : ℕ) : M Unit := do
  if start % 0x400000 ≠ 0 then throw (.panic "free_page_tables called with wrong alignment")
  else if start = 0 then throw (.panic "Trying to free up swapper memory space")
  else forFrom (dirIndex start) (dirCount size) freeTable

/-- The body of the inner loop of `copy_page_tables`: entry `j` of the parent's
table goes to the child's, write-protected in both where its frame is counted. -/
def copyEntry (fromTable toTable j : ℕ) : M Unit := do
  let m ← get
  let thisPage := m.word fromTable j
  if present thisPage then do
    let thisPage := clearRw thisPage
    modify fun m => m.setWord toTable j thisPage
    if 0x100000 < thisPage.toNat then
      modify fun m =>
        let m := m.setWord fromTable j thisPage
        m.setMap (mapNr (frameOf thisPage)) ((m.memMap (mapNr (frameOf thisPage)) + 1) % 256)
    else pure ()
  else pure ()

/-- The body of the outer loop of `copy_page_tables`; `some (-1)` returns. -/
def copyTable (start fromDir toDir i : ℕ) : M (Option ℤ) := do
  let m ← get
  if present (m.word 0 (toDir + i)) then throw (.panic "copy_page_tables: already exist")
  else if present (m.word 0 (fromDir + i)) then do
    match ← getFreePage with
    | none => pure (some (-1))
    | some toTable => do
      modify fun m => m.setWord 0 (toDir + i) (pageEntry toTable)
      forFrom 0 (if start = 0 then 0xA0 else 1024)
        (copyEntry (frameOf (m.word 0 (fromDir + i))) toTable)
      pure none
  else pure none

/-- `copy_page_tables`. -/
def copyPageTables (start to_ size : ℕ) : M ℤ := do
  if start % 0x400000 ≠ 0 ∨ to_ % 0x400000 ≠ 0 then
    throw (.panic "copy_page_tables called with wrong alignment")
  else do
    match ← forUntil 0 (dirCount size) (copyTable start (dirIndex start) (dirIndex to_)) with
    | some r => pure r
    | none => pure 0

/-- `put_page`; `none` is `0`. -/
def putPage (page address : ℕ) : M (Option ℕ) := do
  let m ← get
  let dir := m.word 0 (dirIndex address)
  if present dir then do
    set (m.setWord (frameOf dir) (tableIndex address) (pageEntry page))
    pure (some page)
  else do
    match ← getFreePage with
    | none => pure none
    | some tmp => do
      modify fun m => m.setWord 0 (dirIndex address) (pageEntry tmp)
      modify fun m => m.setWord tmp (tableIndex address) (pageEntry page)
      pure (some page)

/-! ### Leaving, and making a new task -/

/-- What `do_exit` does to memory: both segments are freed and the executable is
let go of. -/
def doExit (cur : ℕ) : M Unit := do
  let m ← get
  freePageTables (m.task cur).codeBase (m.task cur).codeLimit
  freePageTables (m.task cur).dataBase (m.task cur).dataLimit
  modify fun m => m.setTask cur { m.task cur with executable := none, zombie := true }

/-- `oom`: `do_exit`, which does not return. -/
def oom {α : Type} (cur : ℕ) : M α := do
  doExit cur
  throw .exited

/-- `release`: the slot is emptied and the page of the structure given back. -/
def release (nr : ℕ) : M Unit := do
  let m ← get
  set (m.setTask nr { m.task nr with inUse := false })
  freePage (m.task nr).page

/-- `copy_mem`, for the task structure in `task[nr]`, already a copy of the
parent's. -/
def copyMem (cur nr : ℕ) : M ℤ := do
  let m ← get
  let t := m.task cur
  if t.dataBase ≠ t.codeBase then throw (.panic "We don't support separate I&D")
  else if t.dataLimit < t.codeLimit then throw (.panic "Bad data_limit")
  else do
    let base := nr * 0x4000000
    modify fun m => m.setTask nr
      { m.task nr with startCode := base, codeBase := base, dataBase := base }
    if (← copyPageTables t.dataBase base t.dataLimit) ≠ 0 then do
      freePageTables base t.dataLimit
      pure (-12)
    else pure 0

/-- The memory half of `copy_process`: `true` where it returns a pid, `false`
where it returns `-EAGAIN`. -/
def copyProcess (cur nr : ℕ) : M Bool := do
  match ← getFreePage with
  | none => pure false
  | some p => do
    modify fun m => m.setTask nr { m.task cur with inUse := true, zombie := false, page := p }
    if (← copyMem cur nr) ≠ 0 then do
      modify fun m => m.setTask nr { m.task nr with inUse := false }
      freePage p
      pure false
    else pure true

/-- What `do_execve` does to memory once nothing can fail any more: the old
address space goes, `change_ldt` sets the limits, and the new executable is
recorded. The argument pages follow, through `put_page`. -/
def execMem (cur text endData exe : ℕ) : M Unit := do
  let m ← get
  freePageTables (m.task cur).codeBase (m.task cur).codeLimit
  freePageTables (m.task cur).dataBase (m.task cur).dataLimit
  modify fun m => m.setTask cur
    { m.task cur with
      codeLimit := (text + 4095) / 4096 * 4096
      dataBase := (m.task cur).codeBase
      dataLimit := 0x4000000
      endData := endData
      executable := some exe }

/-! ### Write faults -/

/-- `un_wp_page`, of the entry `j` of a table. -/
def unWpPage (cur table j : ℕ) : M Unit := do
  let m ← get
  let oldPage := frameOf (m.word table j)
  if lowFrame ≤ oldPage ∧ m.memMap (mapNr oldPage) = 1 then
    set (m.setWord table j (setRw (m.word table j)))
  else do
    match ← getFreePage with
    | none => oom cur
    | some newPage => do
      (if lowFrame ≤ oldPage then
        modify fun m => m.setMap (mapNr oldPage) ((m.memMap (mapNr oldPage) + 255) % 256)
      else pure ())
      modify fun m => m.setWord table j (pageEntry newPage)
      modify fun m => m.setFrame newPage (m.word oldPage)

/-- `do_wp_page`. -/
def doWpPage (cur address : ℕ) : M Unit := do
  let m ← get
  unWpPage cur (frameOf (m.word 0 (dirIndex address))) (tableIndex address)

/-- `write_verify`. -/
def writeVerify (cur address : ℕ) : M Unit := do
  let m ← get
  let page := m.word 0 (dirIndex address)
  if present page then
    if present (m.word (frameOf page) (tableIndex address)) ∧
        ¬writable (m.word (frameOf page) (tableIndex address)) then
      unWpPage cur (frameOf page) (tableIndex address)
    else pure ()
  else pure ()

/-! ### Not-present faults -/

/-- `get_empty_page`. -/
def getEmptyPage (cur address : ℕ) : M Unit := do
  match ← getFreePage with
  | none => oom cur
  | some tmp => do
    match ← putPage tmp address with
    | none => do
      freePage tmp
      oom cur
    | some _ => pure ()

/-- `try_to_share`: `address` is an offset into the address spaces of the current
task and of task `p`. -/
def tryToShare (cur address p : ℕ) : M Bool := do
  let m ← get
  let fromDir := dirIndex address + dirIndex (m.task p).startCode
  let toDir := dirIndex address + dirIndex (m.task cur).startCode
  let j := tableIndex address
  let from_ := m.word 0 fromDir
  if ¬present from_ then pure false
  else do
    let entry := m.word (frameOf from_) j
    if ¬(present entry ∧ ¬dirty entry) then pure false
    else if m.highMemory ≤ frameOf entry * 4096 ∨ frameOf entry < lowFrame then pure false
    else do
      (if present (m.word 0 toDir) then pure ()
      else do
        match ← getFreePage with
        | some to_ => modify fun m => m.setWord 0 toDir (pageEntry to_)
        | none => oom cur)
      let m ← get
      let to_ := frameOf (m.word 0 toDir)
      if present (m.word to_ j) then throw (.panic "try_to_share: to_page already exists")
      else do
        modify fun m => m.setWord (frameOf from_) j (clearRw (m.word (frameOf from_) j))
        modify fun m => m.setWord to_ j (m.word (frameOf from_) j)
        modify fun m =>
          m.setMap (mapNr (frameOf entry)) ((m.memMap (mapNr (frameOf entry)) + 1) % 256)
        pure true

/-- The loop of `share_page`, from `&LAST_TASK` down to, but not including,
`&FIRST_TASK`. -/
def sharePageFrom (cur address : ℕ) : ℕ → M Bool
  | 0 => pure false
  | p + 1 => do
    let m ← get
    if ¬(m.task (p + 1)).inUse then sharePageFrom cur address p
    else if cur = p + 1 then sharePageFrom cur address p
    else if (m.task (p + 1)).executable ≠ (m.task cur).executable then
      sharePageFrom cur address p
    else if ← tryToShare cur address (p + 1) then pure true
    else sharePageFrom cur address p

/-- `share_page`; `iCount` is `current->executable->i_count`. -/
def sharePage (cur address iCount : ℕ) : M Bool := do
  let m ← get
  if (m.task cur).executable = none then pure false
  else if iCount < 2 then pure false
  else sharePageFrom cur address (nrTasks - 1)

/-- `do_no_page` up to the point where it reads the blocks of the executable, and
sleeps: `some page` is the page they are to be read into. -/
def doNoPage (cur address iCount : ℕ) : M (Option ℕ) := do
  let m ← get
  let address := address / 4096 * 4096
  let tmp := (address + 2 ^ 32 - (m.task cur).startCode) % 2 ^ 32
  if (m.task cur).executable = none ∨ (m.task cur).endData ≤ tmp then do
    getEmptyPage cur address
    pure none
  else if ← sharePage cur tmp iCount then pure none
  else do
    match ← getFreePage with
    | none => oom cur
    | some page => pure (some page)

/-- The first `n` bytes of a word, zeros after them. -/
def keepBytes (w : Word) (n : ℕ) : Word := w &&& BitVec.ofNat 32 (2 ^ (8 * min n 4) - 1)

/-- `do_no_page` after the blocks have been read: `content` is what `bread_page`
left in the page. What lies beyond `end_data` is cleared. -/
def loadPage (cur address page : ℕ) (content : ℕ → Word) : M Unit := do
  let m ← get
  let address := address / 4096 * 4096
  let tmp := (address + 2 ^ 32 - (m.task cur).startCode) % 2 ^ 32
  set (m.setFrame page fun j => keepBytes (content j) ((m.task cur).endData - tmp - 4 * j))
  match ← putPage page address with
  | some _ => pure ()
  | none => do
    freePage page
    oom cur

/-! ### The processor -/

/-- A store by user code through a present, writable entry: the word is written
and the entry marked dirty. Addresses are those of words. -/
def userStore (address : ℕ) (v : Word) : M Unit := do
  let m ← get
  let table := frameOf (m.word 0 (dirIndex address))
  let entry := m.word table (tableIndex address)
  set ((m.setWord table (tableIndex address) (setDirty entry)).setWord (frameOf entry)
    (address % 4096 / 4) v)

/-! ### The state at boot -/

/-- `while (n-- > 0) mem_map[i++] = 0`. -/
def clearMap (map : ℕ → ℕ) (i : ℕ) : ℕ → (ℕ → ℕ)
  | 0 => map
  | n + 1 => clearMap (Function.update map i 0) (i + 1) n

/-- Physical memory as `setup_paging` leaves it: the page directory in frame `0`
points at the four tables after it, which map the first 16 MB one to one. -/
def setupPaging (rest : ℕ → ℕ → Word) (f j : ℕ) : Word :=
  if f = 0 then (if j < 4 then pageEntry (j + 1) else 0#32)
  else if f ≤ 4 then pageEntry ((f - 1) * 1024 + j)
  else rest f j

/-- `INIT_TASK`, as far as memory is concerned: bases 0, limits 640 kB. -/
def initTask : Task where
  inUse := true
  zombie := false
  page := 0
  codeBase := 0
  codeLimit := 0xA0000
  dataBase := 0
  dataLimit := 0xA0000
  startCode := 0
  endData := 0
  executable := none

/-- An empty slot of `task[]`. -/
def noTask : Task := { initTask with inUse := false }

/-- The machine after `setup_paging`, `mem_init(start_mem, end_mem)` and
`sched_init`; `rest` is whatever the other frames hold. -/
def memInit (startMem endMem : ℕ) (rest : ℕ → ℕ → Word) : Mem where
  highMemory := endMem
  memMap := clearMap (fun _ => used) (mapNr (startMem / 4096)) ((endMem - startMem) / 4096)
  word := setupPaging rest
  task := fun n => if n = 0 then initTask else noTask

end Linux011.Mm

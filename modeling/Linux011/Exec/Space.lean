import Linux011.Fs.Open
import Linux011.Lib.Bytes

/-!
# The memory of a task

User memory, as the kernel gets at it through the segment register `fs`: `get_fs_byte`,
`put_fs_byte` and the like, with `do_no_page` behind them, which brings a page in when it is
touched first. Addresses are relative to the base of the data segment.

Whether there is a free page is not decided here: `grant` says it, for every call of
`get_free_page` in turn. A page that `share_page` finds with another task has the content
that it would be filled with, so that it is left out.
-/

namespace Linux011.Exec

/-! ### The state -/

/-- The bytes of a page. -/
abbrev Page := ℕ → UInt8

/-- What ends the task, or the machine. -/
inductive Halt
  | panic (message : String)
  /-- An address beyond the segment. -/
  | fault
  /-- `oom`. -/
  | oom
  /-- `page[p/PAGE_SIZE]` is not in the array. -/
  | overrun
  /-- A path lookup, or `sys_close`. -/
  | files (h : Fs.Halt)

/-- **A task that executes a program.** -/
structure World where
  files : Fs.World
  /-- Block 0 of each device. -/
  bootBlock : ℕ → ℕ → UInt8
  /-- The limits of the code and the data segment. -/
  codeLimit : ℕ
  dataLimit : ℕ
  /-- For which 4 megabytes there is a page table. -/
  pageTable : ℕ → Bool
  /-- The pages there are. -/
  user : ℕ → Option Page
  executable : Option Fs.Id
  endCode : ℕ
  endData : ℕ
  brk : ℕ
  startStack : ℕ
  saHandler : ℕ → ℕ
  usedMath : Bool
  /-- The array `page` of `do_execve`. -/
  page : ℕ → Option Page
  grant : ℕ → Bool
  /-- How many pages have been asked for. -/
  asked : ℕ

/-- Code of the kernel. -/
abbrev M := EStateM Halt World

/-- Code of the file system. -/
def onFiles {α : Type} (m : Fs.M α) : M α := fun w =>
  match m w.files with
  | .ok a files => .ok a { w with files := files }
  | .error e files => .error (.files e) { w with files := files }

/-- `PAGE_SIZE`. -/
def pageSize : ℕ := 4096

/-! ### Pages -/

/-- A byte of pages. -/
def flat (pages : ℕ → Option Page) (a : ℕ) : Option UInt8 :=
  (pages (a / pageSize)).map fun pg => pg (a % pageSize)

/-- A byte of pages is stored, in a page that there is. -/
def setFlat (pages : ℕ → Option Page) (n off : ℕ) (b : UInt8) : ℕ → Option Page :=
  Function.update pages n ((pages n).map fun pg => Function.update pg off b)

/-- The byte that `do_no_page` brings in: of the executable, behind the block with its header,
or 0. -/
def World.demand (w : World) (a : ℕ) : UInt8 :=
  match w.executable with
  | none => 0
  | some id =>
    let n := w.files.disk.inode id
    if a < w.endData ∧ n.zone ((1024 + a) / 1024) = .good then n.data (1024 + a) else 0

/-- **What is at an address**, whether or not its page has been touched. -/
def World.content (w : World) (a : ℕ) : UInt8 := (flat w.user a).getD (w.demand a)

/-- `get_free_page`: whether there is one. -/
def getFreePage : M Bool := do
  let w ← get
  set { w with asked := w.asked + 1 }
  pure (w.grant w.asked)

/-- A page is put into a page table. -/
def World.mapPage (w : World) (pg : Page) (n : ℕ) : World :=
  { w with
    user := Function.update w.user n (some pg)
    pageTable := Function.update w.pageTable (n / 1024) true }

/-- `put_page` -/
def putPage (pg : Page) (n : ℕ) : M Bool := do
  let w ← get
  if w.pageTable (n / 1024) then do
    modify fun w => w.mapPage pg n
    pure true
  else if ← getFreePage then do
    modify fun w => w.mapPage pg n
    pure true
  else pure false

/-- **`do_no_page`** -/
def doNoPage (n : ℕ) : M PUnit := do
  let w ← get
  if ← getFreePage then
    if ← putPage (fun off => w.demand (pageSize * n + off)) n then pure ⟨⟩ else throw .oom
  else throw .oom

/-- What an access does before it gets to the byte. -/
def touch (a : ℕ) : M PUnit := do
  let w ← get
  if w.dataLimit ≤ a then throw .fault
  else if (w.user (a / pageSize)).isNone then doNoPage (a / pageSize)
  else pure ⟨⟩

/-! ### Access to user memory -/

/-- `get_fs_byte` -/
def getFsByte (a : ℕ) : M UInt8 := do
  touch a
  let w ← get
  pure (w.content a)

/-- `put_fs_byte` -/
def putFsByte (b : UInt8) (a : ℕ) : M PUnit := do
  touch a
  modify fun w => { w with user := setFlat w.user (a / pageSize) (a % pageSize) b }

/-- `get_fs_long` -/
def getFsLong (a : ℕ) : M ℕ := do
  let b0 ← getFsByte a
  let b1 ← getFsByte (a + 1)
  let b2 ← getFsByte (a + 2)
  let b3 ← getFsByte (a + 3)
  pure (b0.toNat + 2 ^ 8 * b1.toNat + 2 ^ 16 * b2.toNat + 2 ^ 24 * b3.toNat)

/-- Bytes are stored one after another. -/
def putBytes : List UInt8 → ℕ → M PUnit
  | [], _ => pure ⟨⟩
  | b :: bs, a => do
    putFsByte b a
    putBytes bs (a + 1)

/-- `put_fs_long` -/
def putFsLong (v a : ℕ) : M PUnit := putBytes (wordBytes v) a

/-- `free_page_tables`, from the base on. -/
def freePageTables (limit : ℕ) : M PUnit :=
  modify fun w => { w with
    user := fun n => if n / 1024 < (limit + 0x3FFFFF) / 0x400000 then none else w.user n
    pageTable := fun j => if j < (limit + 0x3FFFFF) / 0x400000 then false else w.pageTable j }

end Linux011.Exec

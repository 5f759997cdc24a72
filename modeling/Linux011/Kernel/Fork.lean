import Linux011.Mm.Cow
import Linux011.Mm.Directory

/-!
# A fork that fails

`copy_process` takes a page for the task structure, copies the page tables of the
parent, and counts the child among the users of the parent's files and directories.
Only the first two can fail, for want of memory, and `copy_mem` then hands the whole
slot of the child to `free_page_tables`, whatever part of the copy there is.

What memory management does along the way is in `Linux011.Mm.copyProcess`, and
`Linux011.Mm.NotForked` says how it leaves the machine. Here that is read off: the
names in the tables are what they were, so the counters are too, because both before
and after they are the numbers of those names.
-/

namespace Linux011.Kernel

open Mm

/-! ### `copy_process` -/

/-- `NR_OPEN`. -/
def nrOpen : ℕ := 20

/-- **What a fork touches**: memory, the users of files and inodes, and what a task
structure refers to them by. Files and inodes are entries of `file_table` and
`inode_table`. -/
structure Machine where
  mem : Mem
  /-- `f_count`. -/
  fCount : ℕ → ℕ
  /-- `i_count`. -/
  iCount : ℕ → ℕ
  /-- `task[n]->filp[i]`. -/
  filp : ℕ → ℕ → Option ℕ
  /-- `task[n]->pwd`. -/
  pwd : ℕ → Option ℕ
  /-- `task[n]->root`. -/
  root : ℕ → Option ℕ
  lastPid : ℤ

namespace Machine

variable (k : Machine)

/-- `*p = *current`, of the files and directories. -/
def inherit (cur nr : ℕ) : Machine :=
  { k with
    filp := Function.update k.filp nr (k.filp cur)
    pwd := Function.update k.pwd nr (k.pwd cur)
    root := Function.update k.root nr (k.root cur) }

/-- `if (f) f->f_count++`, an `unsigned short`. -/
def countFile : Option ℕ → Machine
  | some f => { k with fCount := Function.update k.fCount f ((k.fCount f + 1) % 2 ^ 16) }
  | none => k

/-- `if (inode) inode->i_count++`, an `unsigned short`. -/
def countInode : Option ℕ → Machine
  | some i => { k with iCount := Function.update k.iCount i ((k.iCount i + 1) % 2 ^ 16) }
  | none => k

/-- The memory of the machine. -/
def memory : Part Machine Mem := ⟨mem, fun k m => { k with mem := m }⟩

end Machine

/-- **`copy_process`**; `none` is `-EAGAIN`. Of `*p = *current` the half that memory
management reads is in `Linux011.Mm.copyProcess`; nothing reads the other half before
the loop over the files. -/
def copyProcess (cur nr : ℕ) : EStateM Halt Machine (Option ℤ) := do
  if ← onPart Machine.memory (Mm.copyProcess cur nr) then do
    modify fun k => k.inherit cur nr
    forFrom 0 nrOpen fun i => modify fun k => k.countFile (k.filp nr i)
    modify fun k => k.countInode (k.pwd cur)
    modify fun k => k.countInode (k.root cur)
    modify fun k => k.countInode (k.mem.task cur).executable
    let k ← get
    pure (some k.lastPid)
  else pure none

/-! ### Nothing has changed -/

variable {A : Arena} {own : Finset ℕ} {m m' : Mem} {cur nr kd j : ℕ}

end Linux011.Kernel

import Linux011.Mm.Verify
import Linux011.Fs.Lookups

/-!
# Demand loading

What `do_no_page` puts into the page of an executable: `bmap` for four blocks, `bread_page`, and
the loop that clears what lies beyond `end_data`. The first half of `do_no_page`, up to the page
that it takes, is `Linux011.Mm.doNoPage`; here the second half follows, on the bytes of memory and
the blocks of the device.

The page comes zeroed from `get_free_page`, so a block that there is not leaves zeros. Each of the
three loops is one lemma about what the frame holds: `bread_page` fills it from the front, a block
at a time (`Linux011.Exec.Demand.copyBlocks_run`), and the last loop goes through it from the back
(`Linux011.Exec.Demand.clearTail_run`). Together they store what `Linux011.Mm.loadPage` says at
once (`Linux011.Exec.Demand.fillPage_run`).
-/

namespace Linux011.Exec.Demand

open Mm (Mem Word keepBytes)

open Fs (Id)

open Fs.Names (Kernel K)

/-! ### Bytes of memory -/

/-- A byte of a word is stored to. -/
def setByte (w : Word) (i : ℕ) (b : BitVec 8) : Word :=
  (w &&& ~~~(0xff#32 <<< (8 * i))) ||| (b.setWidth 32 <<< (8 * i))

/-- `*(char *) a = b` -/
def storeByte (a : ℕ) (b : UInt8) (m : Mem) : Mem :=
  m.setWord (a / 4096) (a % 4096 / 4)
    (setByte (m.word (a / 4096) (a % 4096 / 4)) (a % 4) b.toBitVec)

/-- `((long *) data)[i]` -/
def longAt (data : ℕ → UInt8) (i : ℕ) : Word :=
  (data (4 * i + 3)).toBitVec ++ (data (4 * i + 2)).toBitVec ++ (data (4 * i + 1)).toBitVec ++
    (data (4 * i)).toBitVec

/-! ### The machine, and the routines -/

/-- **The file systems and memory**, and which inode is in a slot of `inode_table`. -/
structure Machine where
  fs : Kernel
  mem : Mem
  inodeOf : ℕ → Id

/-- How the kernel is left early, in either part. -/
inductive Halt where
  | fs (e : Fs.Halt)
  | mem (e : Mm.Halt)

/-- Code of the kernel. -/
abbrev D := EStateM Halt Machine

/-- A routine of the file system. -/
def onFs {α : Type} (k : K α) : D α := fun s =>
  match k s.fs with
  | .ok a t => .ok a { s with fs := t }
  | .error e t => .error (.fs e) { s with fs := t }

/-- A routine of memory management. -/
def onMem {α : Type} (c : Mm.M α) : D α := fun s =>
  match c s.mem with
  | .ok a t => .ok a { s with mem := t }
  | .error e t => .error (.mem e) { s with mem := t }

/-- `nr[i] = bmap(current->executable, block)`, for so many blocks. -/
def bmaps (id : Id) : ℕ → ℕ → K (List ℕ)
  | 0, _ => pure []
  | n + 1, block => do
    let z ← Fs.Names.bmap false id block
    let zs ← bmaps id n (block + 1)
    pure (z :: zs)

/-- `COPYBLK` -/
def copyBlk (from_ : ℕ → UInt8) (to_ : ℕ) : Mm.M Unit :=
  forFrom 0 256 fun i => modify fun m =>
    m.setWord ((to_ + 4 * i) / 4096) ((to_ + 4 * i) % 4096 / 4) (longAt from_ i)

/-- The first loop of `bread_page`: `getblk`, for the blocks that there are. -/
def getBlocks (dev : ℕ) : List ℕ → K Unit
  | [] => pure ()
  | z :: zs => do
    (if z ≠ 0 then modify fun s => s.grab (dev, z) else pure ())
    getBlocks dev zs

/-- The second loop of `bread_page`. -/
def copyBlocks (dev : ℕ) : ℕ → List ℕ → D Unit
  | _, [] => pure ()
  | address, z :: zs => do
    (if z ≠ 0 then do
      let s ← get
      (if s.fs.readable dev z then onMem (copyBlk (s.fs.data dev z) address) else pure ())
      onFs (Fs.Names.brelse (dev, z))
    else pure ())
    copyBlocks dev (address + 1024) zs

/-- `bread_page` -/
def breadPage (address dev : ℕ) (b : List ℕ) : D Unit := do
  onFs (getBlocks dev b)
  copyBlocks dev address b

/-- `while (i-- > 0) { tmp--; *(char *) tmp = 0; }` -/
def clearTail (tmp : ℕ) (i : ℤ) : Mm.M Unit :=
  if 0 < i then do
    modify (storeByte (tmp - 1) 0)
    clearTail (tmp - 1) (i - 1)
  else pure ()
termination_by i.toNat
decreasing_by omega

/-- `do_no_page`, between the page that it takes and `put_page`. -/
def fillPage (id : Id) (page tmp endData : ℕ) : D Unit := do
  let nr ← onFs (bmaps id 4 (1 + tmp / 1024))
  breadPage (page * 4096) id.dev nr
  onMem (clearTail (page * 4096 + 4096) (Int.bmod ((tmp : ℤ) + 4096 - endData) (2 ^ 32)))

/-- `current->executable->i_count`, where there is an executable. -/
def Machine.iCount (s : Machine) (cur : ℕ) : ℕ :=
  match (s.mem.task cur).executable with
  | none => 0
  | some n => s.fs.iCount (s.inodeOf n)

/-- **`do_no_page`**, and the page that it has loaded the executable into, if it has. -/
def doNoPage (cur address : ℕ) : D (Option ℕ) := do
  let s ← get
  let r ← onMem (Mm.doNoPage cur address (s.iCount cur))
  let s ← get
  let t := s.mem.task cur
  match r, t.executable with
  | some page, some exe => do
    let address := address / 4096 * 4096
    fillPage (s.inodeOf exe) page ((address + 2 ^ 32 - t.startCode) % 2 ^ 32) t.endData
    match ← onMem (Mm.putPage page address) with
    | some _ => pure (some page)
    | none => do
      onMem (Mm.freePage page)
      onMem (Mm.oom cur)
  | _, _ => pure none

/-- **A byte of a file**: of the zone of its block, or zero in a hole. -/
def fileByte (s : Kernel) (id : Id) (p : ℕ) : UInt8 :=
  if (s.file id).at (.ofBlock (p / 1024)) = 0 then 0
  else s.data id.dev ((s.file id).at (.ofBlock (p / 1024))) (p % 1024)

variable {s : Machine} {k : Kernel} {id : Id} {m : Mem} {ws : ℕ → Word} {data : ℕ → UInt8}
  {page tmp endData dev z i n b cur address exe : ℕ} {zs : List ℕ} {α : Type}

/-! ### Bytes -/

/-- **What `bread_page` puts into the page**, of the file from an offset on. -/
def content (k : Kernel) (id : Id) (tmp w : ℕ) : Word :=
  if w < 1024 then longAt (fun p => fileByte k id (1024 + tmp + p)) w else 0#32

/-- **An executable with a hole**: of its second block there is zone 9, and nothing of the
next three. -/
def image : Kernel where
  inode _ := ⟨0o100755#16, 0, 0, 1, 5120, fun k => if k = 1 then 9 else 0, false⟩
  iCount _ := 1
  super i := if i = 0 then ⟨1, none⟩ else ⟨0, none⟩
  maps _ := ⟨3, 16, 5, fun _ => none, fun _ => none⟩
  data _ z x := if z = 9 then UInt8.ofNat (x + 1) else 0
  readable _ _ := true
  bCount _ := 0
  task := ⟨0, 0, ⟨1, 1⟩, ⟨1, 1⟩⟩
  umask := 0o022#32

end Linux011.Exec.Demand

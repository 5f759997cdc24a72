import Linux011.Fs.Bitmap
import Linux011.Fs.Directory
import Linux011.Fs.Open
import Linux011.Lib.Wp

/-!
# The calls on names

`fs/namei.c`: the lookup of a path, `add_entry` and `empty_dir`, `open_namei`, and the system calls
that make and remove names, with `iput`, `iget` and `_bmap` of `fs/inode.c` and `fs/truncate.c`
under them. What they do to the maps is what `fs/bitmap.c` does (`Linux011.Fs.Bitmap`); what is in
the blocks of a directory is read and written as there (`Linux011.Fs.Directory`).

Every reference that is taken or given back is counted here: `i_count` of the inodes, and `b_count`
of the buffers. An inode is known by its device and number, a buffer by its device and block, so
that what is not in the inode table or in the cache has the count zero.

One call runs, and all other tasks sleep, with what they hold. The bytes of a path are given.
Dates, what is dirty and what is written back for it are left out, and so are pipes, which have no
names. In the inode table there is always a slot to be had.
-/

namespace Linux011.Fs.Names

open Bmap (State Place)

/-! ### The state -/

/-- `struct m_inode`, or what there is of it on the device. -/
structure Inode where
  mode : BitVec 16
  uid : ℕ
  gid : ℕ
  nlinks : UInt8
  size : ℕ
  zone : ℕ → ℕ
  mount : Bool

/-- All bytes are zero. -/
def Inode.zero : Inode := ⟨0, 0, 0, 0, 0, fun _ => 0, false⟩

/-- **The file systems**, and what is counted. -/
structure Kernel where
  inode : Id → Inode
  /-- `i_count` -/
  iCount : Id → ℕ
  super : ℕ → Super
  /-- The other fields of the super block of a device. -/
  maps : ℕ → Bitmap.SuperBlock
  /-- What is in the blocks of a device. -/
  data : ℕ → ℕ → ℕ → UInt8
  /-- `bread` succeeds. -/
  readable : ℕ → ℕ → Bool
  /-- `b_count` -/
  bCount : ℕ × ℕ → ℕ
  task : Task
  umask : BitVec 32

/-- Code of the kernel. -/
abbrev K := EStateM Halt Kernel

namespace Kernel

variable (s : Kernel)

/-- `get_super`. -/
def getSuper (dev : ℕ) : Option Super := Fs.getSuper ⟨fun _ => Directory.blank, s.super⟩ dev

/-- The maps, and how many use the buffers. -/
def bitmap : Bitmap.State where
  super dev := (s.getSuper dev).map fun _ => s.maps dev
  buffer k := some ⟨.zero, true, false, s.bCount k⟩

/-- The maps have changed. -/
def withBitmap (t : Bitmap.State) : Kernel :=
  { s with
    maps := fun dev => (t.super dev).getD (s.maps dev)
    bCount := fun k => ((t.buffer k).map Bitmap.Buffer.count).getD 0 }

/-- A zone that is in use, or is none. -/
def used (dev z : ℕ) : Bool :=
  match s.bitmap.super dev with
  | none => true
  | some sb => !decide (sb.firstdatazone ≤ z ∧ z < sb.nzones) || sb.zoneBit z

/-- **A file**, with the device that it is on. -/
def file (id : Id) : State where
  data := s.data id.dev
  readable := s.readable id.dev
  used := s.used id.dev
  zone := (s.inode id).zone
  size := (s.inode id).size

/-- The file has changed. -/
def store (id : Id) (t : State) : Kernel :=
  { s with
    data := Function.update s.data id.dev t.data
    inode := Function.update s.inode id { s.inode id with zone := t.zone, size := t.size } }

/-- The inode has changed. -/
def setInode (id : Id) (f : Inode → Inode) : Kernel :=
  { s with inode := Function.update s.inode id (f (s.inode id)) }

/-- An inode without its blocks. -/
def bare (id : Id) : Fs.Inode where
  mode := (s.inode id).mode
  uid := (s.inode id).uid
  gid := (s.inode id).gid
  nlinks := (s.inode id).nlinks.toNat
  size := 0
  zone _ := .hole
  data _ := 0
  mount := (s.inode id).mount

/-- **What a lookup sees.** -/
def disk : Disk where
  inode id := Directory.flat (s.bare id) (s.file id)
  super := s.super

/-- One reference more. -/
def hold (id : Id) : Kernel :=
  { s with iCount := Function.update s.iCount id (s.iCount id + 1) }

/-- One user of a buffer more. -/
def grab (k : ℕ × ℕ) : Kernel :=
  { s with bCount := Function.update s.bCount k (s.bCount k + 1) }

/-- `permission`. -/
def permission (id : Id) (mask : BitVec 32) : Bool :=
  Fs.permission s.task id (s.disk.inode id) mask

end Kernel

/-! ### Buffers and maps -/

/-- `brelse`. -/
def brelse (k : ℕ × ℕ) : K PUnit := do
  let s ← get
  if s.bCount k = 0 then throw (.panic "Trying to free free buffer")
  else set { s with bCount := Function.update s.bCount k (s.bCount k - 1) }

/-- **`bread`**: whether the block can be read. -/
def bread (dev block : ℕ) : K Bool := do
  modify fun s => s.grab (dev, block)
  let s ← get
  if s.readable dev block then pure true
  else do
    brelse (dev, block)
    pure false

/-- A function of `fs/bitmap.c`. -/
def onMaps {α : Type} (f : Bitmap.State → Except String (Bitmap.State × α)) : K α := do
  let s ← get
  match f s.bitmap with
  | .error e => throw (.panic e)
  | .ok (t, a) => do
    set (s.withBitmap t)
    pure a

/-- **`new_block`.** The block is in its buffer then, so that it can be read. -/
def newBlock (dev : ℕ) : K ℕ := do
  let z ← onMaps (Bitmap.newBlock dev (.zero, none))
  if z = 0 then pure 0
  else do
    modify fun s => { s with
      data := Function.update s.data dev (Function.update (s.data dev) z fun _ => 0)
      readable := Function.update s.readable dev (Function.update (s.readable dev) z true) }
    pure z

/-- **`free_block`** -/
def freeBlock (dev block : ℕ) : K PUnit :=
  onMaps fun t => (Bitmap.freeBlock dev block t).map fun t => (t, ⟨⟩)

/-- **`new_inode`** -/
def newInode (dev : ℕ) : K (Option Id) := do
  let s ← get
  match ← onMaps (Bitmap.newInode dev ⟨s.task.euid, s.task.egid, 0⟩) with
  | none => pure none
  | some n => do
    modify fun s => { s with
      inode := Function.update s.inode ⟨n.dev, n.num⟩
        { Inode.zero with uid := n.uid, gid := n.gid, nlinks := UInt8.ofNat n.nlinks }
      iCount := Function.update s.iCount ⟨n.dev, n.num⟩ n.count }
    pure (some ⟨n.dev, n.num⟩)

/-- **`free_inode`** -/
def freeInode (id : Id) : K PUnit := do
  let s ← get
  let n := s.inode id
  let _ ← onMaps (Bitmap.freeInode
    ⟨id.dev, id.num, s.iCount id, n.nlinks.toNat, n.uid, n.gid, 0, 0, 0, false⟩)
  modify fun s => { s with
    inode := Function.update s.inode id .zero
    iCount := Function.update s.iCount id 0 }

/-! ### The blocks of a file -/

/-- The loop over the numbers in a table. -/
def eachWord (id : Id) (block : ℕ) (f : ℕ → K PUnit) : K PUnit :=
  forFrom 0 512 fun i => do
    let s ← get
    if (s.file id).word block i = 0 then pure ⟨⟩ else f ((s.file id).word block i)

/-- `free_ind`, and `free_dind`, which has `free_ind` for what is in the table. -/
def freeTable (id : Id) (f : ℕ → K PUnit) (block : ℕ) : K PUnit := do
  if block = 0 then pure ⟨⟩
  else do
    if ← bread id.dev block then do
      eachWord id block f
      brelse (id.dev, block)
    else pure ⟨⟩
    freeBlock id.dev block

/-- `free_ind` -/
def freeInd (id : Id) (block : ℕ) : K PUnit := freeTable id (freeBlock id.dev) block

/-- `free_dind` -/
def freeDind (id : Id) (block : ℕ) : K PUnit := freeTable id (freeInd id) block

/-- It has blocks of its own. -/
def isStored (n : Fs.Inode) : Bool := isReg n || isDir n

/-- The zone `i_zone[i]` is freed. -/
def freeZone (id : Id) (i : ℕ) : K PUnit := do
  let s ← get
  if (s.inode id).zone i = 0 then pure ⟨⟩
  else do
    freeBlock id.dev ((s.inode id).zone i)
    modify fun s => s.setInode id fun n => { n with zone := Function.update n.zone i 0 }

/-- **`truncate`** -/
def truncate (id : Id) : K PUnit := do
  let s ← get
  if isStored (s.disk.inode id) = false then pure ⟨⟩
  else do
    forFrom 0 7 (freeZone id)
    let s ← get
    freeInd id ((s.inode id).zone 7)
    freeDind id ((s.inode id).zone 8)
    modify fun s => s.setInode id fun n =>
      { n with zone := Function.update (Function.update n.zone 7 0) 8 0, size := 0 }

/-- A zone is created where there is none, if that is asked for. -/
def fill (create : Bool) (id : Id) (p : Place) : K PUnit := do
  let s ← get
  if create ∧ (s.file id).get p = 0 then do
    let z ← newBlock id.dev
    if z = 0 then pure ⟨⟩ else modify fun s => s.store id ((s.file id).set z p)
  else pure ⟨⟩

/-- The number in a table, where a zone may be created. -/
def inTable (create : Bool) (id : Id) (block i : ℕ) : K ℕ := do
  if block = 0 then pure 0
  else if ← bread id.dev block then do
    fill create id (.word block i)
    let s ← get
    let z := (s.file id).word block i
    brelse (id.dev, block)
    pure z
  else pure 0

/-- **`_bmap`** -/
def bmap (create : Bool) (id : Id) (block : ℕ) : K ℕ := do
  if Bmap.maxBlock ≤ block then throw (.panic "_bmap: block>big")
  else if block < 7 then do
    fill create id (.zone block)
    let s ← get
    pure ((s.inode id).zone block)
  else if block - 7 < 512 then do
    fill create id (.zone 7)
    let s ← get
    inTable create id ((s.inode id).zone 7) (block - 7)
  else do
    let block := block - 7 - 512
    fill create id (.zone 8)
    let s ← get
    let i ← inTable create id ((s.inode id).zone 8) (block / 512)
    inTable create id i (block % 512)

/-! ### Inodes -/

/-- **`iput`** -/
def iput (id : Id) : K PUnit := do
  let s ← get
  if s.iCount id = 0 then throw (.panic "iput: trying to free free inode")
  else if 1 < s.iCount id ∨ (s.inode id).nlinks ≠ 0 then
    set { s with iCount := Function.update s.iCount id (s.iCount id - 1) }
  else do
    truncate id
    freeInode id

/-- The loop of `iget`. -/
def igetFrom : ℕ → Id → K Id
  | 0, _ => throw .hang
  | n + 1, id => do
    modify fun s => s.hold id
    let s ← get
    if (s.inode id).mount then
      match mountedOn s.disk id with
      | none => pure id
      | some i => do
        iput id
        igetFrom n ⟨(s.super i).dev, rootIno⟩
    else pure id

/-- **`iget`** -/
def iget (id : Id) : K Id :=
  if id.dev = 0 then throw (.panic "iget with dev==0") else igetFrom 9 id

/-! ### Directories -/

/-- `brelse`, of what may be NULL. -/
def brelseIf (held : Bool) (k : ℕ × ℕ) : K PUnit := if held then brelse k else pure ⟨⟩

/-- **The loop of `find_entry`**, with `n` rounds to go: `de` is entry `o` of block `b`, whose
buffer is `bh`, unless that is NULL. -/
def findLoop (dir : Id) (entries len : ℕ) (name : List UInt8) :
    ℕ → ℕ → ℕ → Bool → ℕ → K (Option Directory.Pointer)
  | 0, _, b, held, _ => do
    brelseIf held (dir.dev, b)
    pure none
  | n + 1, i, b, held, o => do
    let s ← get
    if entries ≤ i then do
      brelseIf held (dir.dev, b)
      pure none
    else if 64 ≤ o then do
      brelseIf held (dir.dev, b)
      let z ← bmap false dir (i / 64)
      if z = 0 then findLoop dir entries len name n (i + 64) b false o
      else if ← bread dir.dev z then
        if Directory.isMatch len name (s.file dir) (z, 0) then pure (some (z, 0))
        else findLoop dir entries len name n (i + 1) z true 1
      else findLoop dir entries len name n (i + 64) b false o
    else if Directory.isMatch len name (s.file dir) (b, o) then pure (some (b, o))
    else findLoop dir entries len name n (i + 1) b held (o + 1)

/-- What `find_entry` does in the directory that it has come to. -/
def scan (dir : Id) (entries len : ℕ) (name : List UInt8) : K (Option Directory.Pointer) := do
  let s ← get
  let block := (s.inode dir).zone 0
  if block = 0 then pure none
  else if ← bread dir.dev block then findLoop dir entries len name entries 0 block true 0
  else pure none

/-- **`find_entry`**: the directory it has been in, at the end, and the entry. -/
def findEntry (dir : Id) (name : List UInt8) : K (Id × Option Directory.Pointer) := do
  let s ← get
  let entries := (s.inode dir).size / 16
  let len := min name.length 14
  if len = 0 then pure (dir, none)
  else if name = dotdot then
    if dir = s.task.root then do
      let r ← scan dir entries 1 name
      pure (dir, r)
    else if dir.num = rootIno then
      match s.getSuper dir.dev with
      | none => throw .noSuper
      | some sb =>
        match sb.imount with
        | none => do
          let r ← scan dir entries 2 name
          pure (dir, r)
        | some up => do
          iput dir
          modify fun s => s.hold up
          let r ← scan up entries 2 name
          pure (up, r)
    else do
      let r ← scan dir entries 2 name
      pure (dir, r)
  else do
    let r ← scan dir entries len name
    pure (dir, r)

/-- What `add_entry` does about an entry, and what it does next. -/
def tryEntry (dir : Id) (name : List UInt8) (i : ℕ) (e : Directory.Pointer)
    (next : K (Option Directory.Pointer)) : K (Option Directory.Pointer) := do
  modify fun s => s.store dir (Directory.extend i (s.file dir) e)
  let s ← get
  if Directory.ino (s.file dir) e = 0 then do
    set (s.store dir (Directory.setName name (s.file dir) e))
    pure (some e)
  else next

/-- **The loop of `add_entry`**, with `n` rounds to go. -/
def addLoop (dir : Id) (name : List UInt8) :
    ℕ → ℕ → ℕ → Bool → ℕ → K (Option Directory.Pointer)
  | 0, _, _, _, _ => throw (.panic "_bmap: block>big")
  | n + 1, i, b, held, o =>
    if 64 ≤ o then do
      brelseIf held (dir.dev, b)
      let z ← bmap true dir (i / 64)
      if z = 0 then pure none
      else if ← bread dir.dev z then
        tryEntry dir name i (z, 0) (addLoop dir name n (i + 1) z true 1)
      else addLoop dir name n (i + 64) b false o
    else tryEntry dir name i (b, o) (addLoop dir name n (i + 1) b held (o + 1))

/-- **`add_entry`** -/
def addEntry (dir : Id) (name : List UInt8) : K (Option Directory.Pointer) := do
  let s ← get
  let block := (s.inode dir).zone 0
  if min name.length 14 = 0 then pure none
  else if block = 0 then pure none
  else if ← bread dir.dev block then
    addLoop dir name (64 * Bmap.maxBlock + 1) 0 block true 0
  else pure none

/-- `de->inode = v` -/
def setIno (dir : Id) (e : Directory.Pointer) (v : ℕ) : K PUnit :=
  modify fun s => s.store dir (Directory.setIno (s.file dir) e v)

/-! ### Paths -/

/-- An entry is followed: `brelse(bh)`, `iput`, `iget`. -/
def follow (dir : Id) (e : Directory.Pointer) : K Id := do
  let s ← get
  let inr := Directory.ino (s.file dir) e
  brelse (dir.dev, e.1)
  iput dir
  iget ⟨dir.dev, inr⟩

/-- The loop of `get_dir`, in the directory `id` with the first letters of a name read. -/
def walk : Id → List UInt8 → List UInt8 → K (Option Id)
  | id, _, [] => pure (some id)
  | id, name, c :: rest =>
    if c = slash then do
      match ← findEntry id name with
      | (dir, none) => do
        iput dir
        pure none
      | (dir, some e) => do
        let id ← follow dir e
        let s ← get
        if passable s.disk s.task id then walk id [] rest
        else do
          iput id
          pure none
    else walk id (name ++ [c]) rest

/-- Where `get_dir` starts. -/
def start (id : Id) (rest : List UInt8) : K (Option Id) := do
  modify fun s => s.hold id
  let s ← get
  if passable s.disk s.task id then walk id [] rest
  else do
    iput id
    pure none

/-- **`get_dir`** -/
def getDir (path : List UInt8) : K (Option Id) := do
  let s ← get
  if s.iCount s.task.root = 0 then throw (.panic "No root inode")
  else if s.iCount s.task.pwd = 0 then throw (.panic "No cwd inode")
  else
    match path with
    | [] => pure none
    | c :: rest => if c = slash then start s.task.root rest else start s.task.pwd (c :: rest)

/-- **`dir_namei`** -/
def dirNamei (path : Path) : K (Option (Id × List UInt8)) := do
  match ← getDir path.1 with
  | none => pure none
  | some dir => pure (some (dir, basename [] path.1))

/-- **`namei`** -/
def namei (path : Path) : K (Option Id) := do
  match ← dirNamei path with
  | none => pure none
  | some (dir, name) =>
    if name = [] then pure (some dir)
    else
      match ← findEntry dir name with
      | (dir, none) => do
        iput dir
        pure none
      | (dir, some e) => do
        let id ← follow dir e
        pure (some id)

/-! ### `open_namei` and `mknod` -/

/-- The way out: `iput(dir)`, and the error. -/
def leave {α : Type} (dir : Id) (e : α) : K α := do
  iput dir
  pure e

/-- The way out with two inodes and a buffer: `iput(a)`, `iput(b)`, `brelse(bh)`. -/
def leaveBoth (a b : Id) (k : ℕ × ℕ) (e : ℤ) : K ℤ := do
  iput a
  iput b
  brelse k
  pure e

/-- `suser` -/
def Kernel.suser (s : Kernel) : Bool := s.task.euid == 0

/-- **`open_namei`**: an error, or the inode. -/
def openNamei (path : Path) (flag mode : BitVec 32) : K (ℤ ⊕ Id) := do
  let flag := openFlag flag
  match ← dirNamei path with
  | none => pure (.inl (-2))
  | some (dir, name) =>
    if name = [] then
      if flag &&& (oAccmode ||| oCreat ||| oTrunc) = 0#32 then pure (.inr dir)
      else leave dir (.inl (-21))
    else
      match ← findEntry dir name with
      | (dir, none) => do
        let s ← get
        if flag &&& oCreat = 0#32 then leave dir (.inl (-2))
        else if s.permission dir mayWrite = false then leave dir (.inl (-13))
        else
          match ← newInode dir.dev with
          | none => leave dir (.inl (-28))
          | some id => do
            modify fun s => s.setInode id fun n =>
              { n with uid := s.task.euid, mode := newMode mode s.umask }
            match ← addEntry dir name with
            | none => do
              modify fun s => s.setInode id fun n => { n with nlinks := n.nlinks - 1 }
              iput id
              leave dir (.inl (-28))
            | some e => do
              setIno dir e id.num
              brelse (dir.dev, e.1)
              leave dir (.inr id)
      | (dir, some e) => do
        let s ← get
        let inr := Directory.ino (s.file dir) e
        brelse (dir.dev, e.1)
        iput dir
        if flag &&& oExcl ≠ 0#32 then pure (.inl (-17))
        else do
          let id ← iget ⟨dir.dev, inr⟩
          let s ← get
          if (isDir (s.disk.inode id) ∧ flag &&& oAccmode ≠ 0#32) ∨
              s.permission id (accMode flag) = false then leave id (.inl (-1))
          else do
            if flag &&& oTrunc ≠ 0#32 then truncate id else pure ⟨⟩
            pure (.inr id)

/-- `S_ISBLK(mode) || S_ISCHR(mode)` -/
def isDeviceMode (mode : BitVec 32) : Bool :=
  mode &&& 0xF000#32 == 0x6000#32 || mode &&& 0xF000#32 == 0x2000#32

/-- What comes before a name is made: its directory, if the name is not there yet. -/
def makeName (path : Path) : K (ℤ ⊕ Id × List UInt8) := do
  let s ← get
  if s.suser = false then pure (.inl (-1))
  else
    match ← dirNamei path with
    | none => pure (.inl (-2))
    | some (dir, name) => do
      let s ← get
      if name = [] then leave dir (.inl (-2))
      else if s.permission dir mayWrite = false then leave dir (.inl (-1))
      else
        match ← findEntry dir name with
        | (dir, some e) => do
          brelse (dir.dev, e.1)
          leave dir (.inl (-17))
        | (dir, none) => pure (.inr (dir, name))

/-- **`sys_mknod`** -/
def sysMknod (path : Path) (mode : BitVec 32) (dev : ℕ) : K ℤ := do
  match ← makeName path with
  | .inl e => pure e
  | .inr (dir, name) =>
    match ← newInode dir.dev with
    | none => leave dir (-28)
    | some id => do
      modify fun s => s.setInode id fun n =>
        { n with
          mode := mode.setWidth 16
          zone := if isDeviceMode mode then Function.update n.zone 0 (dev % 65536) else n.zone }
      match ← addEntry dir name with
      | none => do
        iput dir
        modify fun s => s.setInode id fun n => { n with nlinks := 0 }
        leave id (-28)
      | some e => do
        setIno dir e id.num
        leaveBoth dir id (dir.dev, e.1) 0

/-! ### `mkdir` -/

/-- The block of a new directory: `.` and `..` -/
def dots (t : State) (z num up : ℕ) : State :=
  let t := Directory.setName [46] (Directory.setIno t (z, 0) num) (z, 0)
  Directory.setName [46, 46] (Directory.setIno t (z, 1) up) (z, 1)

/-- What `sys_mkdir` does with a new directory that has its first block. -/
def enterDir (dir id : Id) (name : List UInt8) (mode : BitVec 32) : K ℤ := do
  modify fun s => s.store id (dots (s.file id) ((s.inode id).zone 0) id.num dir.num)
  modify fun s => s.setInode id fun n => { n with nlinks := 2 }
  let s ← get
  brelse (id.dev, (s.inode id).zone 0)
  modify fun s => s.setInode id fun n =>
    { n with mode := (0x4000#32 ||| (mode &&& 0o777#32 &&& ~~~s.umask)).setWidth 16 }
  match ← addEntry dir name with
  | none => do
    iput dir
    let s ← get
    freeBlock id.dev ((s.inode id).zone 0)
    modify fun s => s.setInode id fun n => { n with nlinks := 0 }
    leave id (-28)
  | some e => do
    setIno dir e id.num
    modify fun s => s.setInode dir fun n => { n with nlinks := n.nlinks + 1 }
    leaveBoth dir id (dir.dev, e.1) 0

/-- **`sys_mkdir`** -/
def sysMkdir (path : Path) (mode : BitVec 32) : K ℤ := do
  match ← makeName path with
  | .inl e => pure e
  | .inr (dir, name) =>
    match ← newInode dir.dev with
    | none => leave dir (-28)
    | some id => do
      modify fun s => s.setInode id fun n => { n with size := 32 }
      let z ← newBlock id.dev
      modify fun s => s.setInode id fun n => { n with zone := Function.update n.zone 0 z }
      if z = 0 then do
        iput dir
        modify fun s => s.setInode id fun n => { n with nlinks := n.nlinks - 1 }
        leave id (-28)
      else if ← bread id.dev z then enterDir dir id name mode
      else do
        iput dir
        freeBlock id.dev z
        modify fun s => s.setInode id fun n => { n with nlinks := n.nlinks - 1 }
        leave id (-99)

/-! ### `rmdir`, `unlink` and `link` -/

/-- **The loop of `empty_dir`**, with `n` rounds to go. -/
def emptyLoop (id : Id) (len : ℕ) : ℕ → ℕ → ℕ → ℕ → K Bool
  | 0, _, b, _ => do
    brelse (id.dev, b)
    pure true
  | n + 1, nr, b, o => do
    let s ← get
    if len ≤ nr then do
      brelse (id.dev, b)
      pure true
    else if 64 ≤ o then do
      brelse (id.dev, b)
      let z ← bmap false id (nr / 64)
      -- the buffer that has been released is released again, behind a block that is not there
      if z = 0 then emptyLoop id len n (nr + 64) b o
      else if ← bread id.dev z then
        if Directory.ino (s.file id) (z, 0) ≠ 0 then do
          brelse (id.dev, z)
          pure false
        else emptyLoop id len n (nr + 1) z 1
      else pure false
    else if Directory.ino (s.file id) (b, o) ≠ 0 then do
      brelse (id.dev, b)
      pure false
    else emptyLoop id len n (nr + 1) b (o + 1)

/-- The first two entries of a directory are `.` and `..` -/
def hasDots (t : State) (num b : ℕ) : Bool :=
  Directory.ino t (b, 0) == num && Directory.ino t (b, 1) != 0 &&
    (Directory.nameByte t (b, 0) 0 == 46 && Directory.nameByte t (b, 0) 1 == 0) &&
    (Directory.nameByte t (b, 1) 0 == 46 && Directory.nameByte t (b, 1) 1 == 46 &&
      Directory.nameByte t (b, 1) 2 == 0)

/-- **`empty_dir`** -/
def emptyDir (id : Id) : K Bool := do
  let s ← get
  let len := (s.inode id).size / 16
  let b := (s.inode id).zone 0
  if len < 2 ∨ b = 0 then pure false
  else if ← bread id.dev b then
    -- the buffer is not released here
    if hasDots (s.file id) id.num b = false then pure false
    else emptyLoop id len (len - 1) 2 b 2
  else pure false

/-- `S_ISVTX` -/
def isVtx : BitVec 16 := 0o1000#16

/-- What comes before a name is removed: its directory, the entry, and the inode; `e` is the error
when there is no permission. -/
def dropName (path : Path) : K (ℤ ⊕ Id × Directory.Pointer × Id) := do
  match ← dirNamei path with
  | none => pure (.inl (-2))
  | some (dir, name) => do
    let s ← get
    if name = [] then leave dir (.inl (-2))
    else if s.permission dir mayWrite = false then leave dir (.inl (-1))
    else
      match ← findEntry dir name with
      | (dir, none) => leave dir (.inl (-2))
      | (dir, some e) => do
        let s ← get
        let id ← iget ⟨dir.dev, Directory.ino (s.file dir) e⟩
        pure (.inr (dir, e, id))

/-- **`sys_rmdir`** -/
def sysRmdir (path : Path) : K ℤ := do
  let s ← get
  if s.suser = false then pure (-1)
  else
    match ← dropName path with
    | .inl e => pure e
    | .inr (dir, e, id) => do
      let s ← get
      if (s.inode dir).mode &&& isVtx ≠ 0#16 ∧ s.task.euid ≠ 0 ∧
          (s.inode id).uid ≠ s.task.euid then leaveBoth dir id (dir.dev, e.1) (-1)
      else if id.dev ≠ dir.dev ∨ 1 < s.iCount id then leaveBoth dir id (dir.dev, e.1) (-1)
      else if id = dir then leaveBoth id dir (dir.dev, e.1) (-1)
      else if isDir (s.disk.inode id) = false then leaveBoth id dir (dir.dev, e.1) (-20)
      else if ← emptyDir id then do
        setIno dir e 0
        brelse (dir.dev, e.1)
        modify fun s => s.setInode id fun n => { n with nlinks := 0 }
        modify fun s => s.setInode dir fun n => { n with nlinks := n.nlinks - 1 }
        iput dir
        iput id
        pure 0
      else leaveBoth id dir (dir.dev, e.1) (-39)

/-- **`sys_unlink`** -/
def sysUnlink (path : Path) : K ℤ := do
  match ← dropName path with
  | .inl e => pure e
  | .inr (dir, e, id) => do
    let s ← get
    if (s.inode dir).mode &&& isVtx ≠ 0#16 ∧ s.suser = false ∧ s.task.euid ≠ (s.inode id).uid ∧
        s.task.euid ≠ (s.inode dir).uid then leaveBoth dir id (dir.dev, e.1) (-1)
    else if isDir (s.disk.inode id) then leaveBoth id dir (dir.dev, e.1) (-1)
    else do
      if (s.inode id).nlinks = 0 then modify fun s => s.setInode id fun n => { n with nlinks := 1 }
      else pure ⟨⟩
      setIno dir e 0
      brelse (dir.dev, e.1)
      modify fun s => s.setInode id fun n => { n with nlinks := n.nlinks - 1 }
      iput id
      iput dir
      pure 0

/-- The way out of `sys_link`. -/
def leaveLink (a b : Id) (e : ℤ) : K ℤ := do
  iput a
  iput b
  pure e

/-- **`sys_link`** -/
def sysLink (oldname newname : Path) : K ℤ := do
  match ← namei oldname with
  | none => pure (-2)
  | some old => do
    let s ← get
    if isDir (s.disk.inode old) then leave old (-1)
    else
      match ← dirNamei newname with
      | none => leave old (-13)
      | some (dir, name) => do
        let s ← get
        if name = [] then leaveLink old dir (-1)
        else if dir.dev ≠ old.dev then leaveLink dir old (-18)
        else if s.permission dir mayWrite = false then leaveLink dir old (-13)
        else
          match ← findEntry dir name with
          | (dir, some e) => do
            brelse (dir.dev, e.1)
            leaveLink dir old (-17)
          | (dir, none) =>
            match ← addEntry dir name with
            | none => leaveLink dir old (-28)
            | some e => do
              setIno dir e old.num
              brelse (dir.dev, e.1)
              iput dir
              modify fun s => s.setInode old fun n => { n with nlinks := n.nlinks + 1 }
              leave old 0

end Linux011.Fs.Names

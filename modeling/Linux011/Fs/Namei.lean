import Mathlib.Data.BitVec
import Mathlib.Tactic.Common

/-!
# Path lookup

`fs/namei.c` as far as a name leads to an inode: `permission`, `find_entry`, `get_dir`,
`dir_namei` and `namei`, with `iget` of `fs/inode.c`, `get_super` of `fs/super.c` and
`sys_chdir` of `fs/open.c`.

A lookup changes nothing but reference counts, which are left out; so the inodes and the
table of super blocks are given, and an inode is known by its device and number. What is
in a directory are the bytes of its blocks, sixteen to an entry.
-/

namespace Linux011.Fs

/-! ### Inodes -/

/-- The device and the number of an inode. -/
structure Id where
  dev : ℕ
  num : ℕ
  deriving DecidableEq

/-- What there is of a block of a file. -/
inductive Zone
  /-- `bmap` returns 0. -/
  | hole
  /-- `bread` returns NULL. -/
  | bad
  | good
  deriving DecidableEq

/-- **An inode**, with the bytes of its blocks. -/
structure Inode where
  mode : BitVec 16
  uid : ℕ
  gid : ℕ
  nlinks : ℕ
  size : ℕ
  zone : ℕ → Zone
  data : ℕ → UInt8
  /-- `i_mount`: a file system is mounted here. -/
  mount : Bool

/-- A super block; no entry of the table is in use for device 0. -/
structure Super where
  dev : ℕ
  imount : Option Id

/-- **The inodes and the table of super blocks.** -/
structure Disk where
  inode : Id → Inode
  super : ℕ → Super

/-- The task, as far as a lookup asks for it. -/
structure Task where
  euid : ℕ
  egid : ℕ
  root : Id
  pwd : Id

/-- What stops the machine. -/
inductive Halt
  | panic (message : String)
  /-- A NULL super block is read. -/
  | noSuper
  /-- `iget` goes from mount to mount for ever. -/
  | hang
  /-- A transfer to a pipe or a device: not a halt, but beyond what is modelled. -/
  | device

/-- A lookup. -/
abbrev Look := Except Halt

/-- `ROOT_INO`. -/
def rootIno : ℕ := 1

/-- `S_ISDIR`. -/
def isDir (n : Inode) : Bool := n.mode &&& 0xF000#16 == 0x4000#16

/-- `S_ISREG`. -/
def isReg (n : Inode) : Bool := n.mode &&& 0xF000#16 == 0x8000#16

/-- `MAY_EXEC`. -/
def mayExec : BitVec 32 := 1#32

/-- `MAY_WRITE`. -/
def mayWrite : BitVec 32 := 2#32

/-- `MAY_READ`. -/
def mayRead : BitVec 32 := 4#32

/-- `permission`. -/
def permission (t : Task) (id : Id) (n : Inode) (mask : BitVec 32) : Bool :=
  let mode := n.mode.setWidth 32
  if id.dev ≠ 0 ∧ n.nlinks = 0 then false
  else
    let mode := if t.euid = n.uid then mode >>> 6 else if t.egid = n.gid then mode >>> 3 else mode
    mode &&& mask &&& 7#32 == mask || t.euid == 0

/-! ### Directories -/

/-- `de->inode` of entry `i`. -/
def dirIno (n : Inode) (i : ℕ) : ℕ := (n.data (16 * i)).toNat + 256 * (n.data (16 * i + 1)).toNat

/-- `de->name[j]` of entry `i`. -/
def dirName (n : Inode) (i j : ℕ) : UInt8 := n.data (16 * i + 2 + j)

/-- `match`, on the first `len` bytes of the name. -/
def isMatch (len : ℕ) (name : List UInt8) (n : Inode) (i : ℕ) : Bool :=
  if dirIno n i = 0 ∨ 14 < len then false
  else if len < 14 ∧ dirName n i len ≠ 0 then false
  else (List.range len).all fun j => name.getD j 0 == dirName n i j

/-- The loop of `find_entry`; 64 entries are in a block. -/
def scan (entries len : ℕ) (name : List UInt8) (n : Inode) : Option ℕ :=
  if n.zone 0 = .good then
    (List.range entries).find? fun i => n.zone (i / 64) = .good ∧ isMatch len name n i
  else none

/-- `get_super`. -/
def getSuper (d : Disk) (dev : ℕ) : Option Super :=
  if dev = 0 then none
  else ((List.range 8).find? fun i => (d.super i).dev = dev).map d.super

/-- `..` -/
def dotdot : List UInt8 := [46, 46]

/-- **`find_entry`**: the directory it has been in, at the end, and the entry. The number
of entries is that of the directory it was called with. -/
def findEntry (d : Disk) (t : Task) (dir : Id) (name : List UInt8) : Look (Id × Option ℕ) := do
  let entries := (d.inode dir).size / 16
  let len := min name.length 14
  if len = 0 then pure (dir, none)
  else if name = dotdot then
    -- '..' in a pseudo-root results in a faked '.'
    if dir = t.root then pure (dir, scan entries 1 name (d.inode dir))
    else if dir.num = rootIno then
      -- '..' over a mount point: the directory is exchanged
      match getSuper d dir.dev with
      | none => throw .noSuper
      | some sb =>
        let dir := sb.imount.getD dir
        pure (dir, scan entries 2 name (d.inode dir))
    else pure (dir, scan entries 2 name (d.inode dir))
  else pure (dir, scan entries len name (d.inode dir))

/-- The super block of what is mounted on an inode. -/
def mountedOn (d : Disk) (id : Id) : Option ℕ :=
  (List.range 8).find? fun i => (d.super i).imount = some id

/-- The loop of `iget`, for so many mounts. -/
def igetFrom (d : Disk) : ℕ → Id → Look Id
  | 0, _ => throw .hang
  | n + 1, id =>
    if (d.inode id).mount then
      match mountedOn d id with
      | none => pure id
      | some i => igetFrom d n ⟨(d.super i).dev, rootIno⟩
    else pure id

/-- **`iget`.** There are 8 super blocks, so that it comes back to one of them if it has
gone through 9. -/
def iget (d : Disk) (id : Id) : Look Id :=
  if id.dev = 0 then throw (.panic "iget with dev==0") else igetFrom d 9 id

/-! ### Paths -/

/-- **A path**: what comes before the zero byte. -/
def Path := { p : List UInt8 // (0 : UInt8) ∉ p }

/-- `/` -/
def slash : UInt8 := 47

/-- An inode that can be gone through. -/
def passable (d : Disk) (t : Task) (id : Id) : Bool :=
  isDir (d.inode id) && permission t id (d.inode id) mayExec

/-- The loop of `get_dir`, in the directory `id` with the first letters of a name read. -/
def walk (d : Disk) (t : Task) : Id → List UInt8 → List UInt8 → Look (Option Id)
  | id, _, [] => pure (some id)
  | id, name, c :: rest =>
    if c = slash then do
      match ← findEntry d t id name with
      | (_, none) => pure none
      | (dir, some i) =>
        let id ← iget d ⟨dir.dev, dirIno (d.inode dir) i⟩
        if passable d t id then walk d t id [] rest else pure none
    else walk d t id (name ++ [c]) rest

/-- `get_dir`. -/
def getDir (d : Disk) (t : Task) (path : List UInt8) : Look (Option Id) :=
  match path with
  | [] => pure none
  | c :: rest =>
    if c = slash then
      if passable d t t.root then walk d t t.root [] rest else pure none
    else
      if passable d t t.pwd then walk d t t.pwd [] (c :: rest) else pure none

/-- What comes after the last slash. -/
def basename : List UInt8 → List UInt8 → List UInt8
  | name, [] => name
  | name, c :: rest => if c = slash then basename [] rest else basename (name ++ [c]) rest

/-- **`dir_namei`**: the directory, and the name in it. -/
def dirNamei (d : Disk) (t : Task) (path : Path) : Look (Option (Id × List UInt8)) := do
  match ← getDir d t path.1 with
  | none => pure none
  | some dir => pure (some (dir, basename [] path.1))

/-- **`namei`.** -/
def namei (d : Disk) (t : Task) (path : Path) : Look (Option Id) := do
  match ← dirNamei d t path with
  | none => pure none
  | some (dir, name) =>
    if name = [] then pure (some dir)
    else
      match ← findEntry d t dir name with
      | (_, none) => pure none
      | (dir, some i) => some <$> iget d ⟨dir.dev, dirIno (d.inode dir) i⟩

/-- **`sys_chdir`.** -/
def sysChdir (d : Disk) (t : Task) (path : Path) : Look (ℤ × Task) := do
  match ← namei d t path with
  | none => pure (-2, t)
  | some id => if isDir (d.inode id) then pure (0, { t with pwd := id }) else pure (-20, t)

/-! ### What `dir_namei` returns -/

variable {d : Disk} {t : Task} {id id' : Id} {name path rest : List UInt8}

/-- A lookup that goes on has got something to go on with. -/
theorem bind_eq_ok {α β : Type} {x : Look α} {f : α → Look β} {b : β} (h : x >>= f = .ok b) :
    ∃ a, x = .ok a ∧ f a = .ok b := by
  cases x with
  | error e => cases h
  | ok a => exact ⟨a, rfl, h⟩

theorem isDir_of_passable (h : passable d t id = true) : isDir (d.inode id) = true :=
  (Bool.and_eq_true_iff.mp h).1

theorem walk_isDir (hd : isDir (d.inode id) = true) (hw : walk d t id name rest = .ok (some id')) :
    isDir (d.inode id') = true := by
  induction rest generalizing id name with
  | nil =>
    obtain rfl := Option.some.inj (Except.ok.inj hw)
    exact hd
  | cons c rest ih =>
    unfold walk at hw
    split at hw
    · obtain ⟨⟨dir, r⟩, -, hw⟩ := bind_eq_ok hw
      cases r with
      | none => cases hw
      | some i =>
        obtain ⟨id₁, -, hw⟩ := bind_eq_ok hw
        split at hw
        · next hp => exact ih (isDir_of_passable hp) hw
        · cases hw
    · exact ih hd hw

theorem getDir_isDir (hg : getDir d t path = .ok (some id)) : isDir (d.inode id) = true := by
  unfold getDir at hg
  split at hg
  · cases hg
  · split at hg <;> split at hg
    · next hp => exact walk_isDir (isDir_of_passable hp) hg
    · cases hg
    · next hp => exact walk_isDir (isDir_of_passable hp) hg
    · cases hg

/-- **`dir_namei` returns a directory**, and what comes after the last slash. -/
theorem dirNamei_isDir {path : Path} (hn : dirNamei d t path = .ok (some (id, name))) :
    isDir (d.inode id) = true ∧ name = basename [] path.1 ∧ getDir d t path.1 = .ok (some id) := by
  obtain ⟨r, hg, hn⟩ := bind_eq_ok hn
  cases r with
  | none => cases hn
  | some dir =>
    obtain ⟨rfl, rfl⟩ := Prod.mk.inj (Option.some.inj (Except.ok.inj hn))
    exact ⟨getDir_isDir hg, rfl, hg⟩

end Linux011.Fs

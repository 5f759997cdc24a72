import Linux011.Buffer.Tasks
import Linux011.Lib.Logged

/-!
# The functions that dirty buffers

A function outside `fs/buffer.c` is a list of operations on the buffers it has in its
variables (`Linux011.Buffer.Op`): it calls into the cache, and changes, marks and
releases what it has been given. `block_write` is such a list, as long as its loop makes
it, and so is `file_write` with what `create_block` does. A function gives up when a call
returns a null pointer; none of them holds a buffer then.

A `World` is the cache and its tasks, with the functions each task is in. There may be
more than one: a task that waits for `getblk` may be in `sync_inodes`, which writes
inodes.
-/

namespace Linux011.Buffer

/-- `BLOCK_SIZE`. -/
def blockSize : ℕ := 1024

/-- How a function has come by a buffer. -/
inductive How
  /-- `getblk` in `block_write`, for a whole block. -/
  | whole
  /-- `getblk` in `new_block`, on a device with a super block. -/
  | zone
  /-- `bread` or `breada`. -/
  | read
  deriving DecidableEq

/-- **What a function does next.** -/
inductive Op
  /-- `bh = getblk(..)`, `bread(..)` or `breada(..)`. -/
  | call (c : Call) (how : How)
  /-- `sync_dev`. -/
  | sync (dev : ℕ)
  /-- A change of `bh->b_data`. -/
  | store (f : Block → Block)
  /-- `bh->b_uptodate = 1`, in `new_block`. -/
  | validate
  /-- `bh->b_dirt = 1`. -/
  | mark
  /-- `brelse(bh)`. -/
  | brelse
  /-- `read_super` has read the super block of the device. -/
  | setSuper

section Functions

variable (dev : ℕ) (copy : ℕ → Block → Block)

/-- The loop of `block_write`, for so many rounds. -/
def blockWriteLoop : ℕ → ℕ → ℕ → List Op
  | 0, _, _ => []
  | n + 1, pos, count =>
    if count = 0 then []
    else
      let block := pos / blockSize
      let chars := min (blockSize - pos % blockSize) count
      (if chars = blockSize then .call (.getblk dev block) .whole
        else .call (.breada dev block [block + 1, block + 2]) .read) ::
      .store (copy pos) :: .mark :: .brelse :: blockWriteLoop n (pos + chars) (count - chars)

/-- **`block_write`**; `copy` is what the user's bytes for a position make of its block. -/
def blockWrite (pos count : ℕ) : List Op := blockWriteLoop dev copy count pos count

/-- What `_bmap` finds in a slot for a zone, and the zone that `new_block` finds for it if
there is none, whose bit is in the block `map`; 0 is none. -/
structure Slot where
  found : ℕ
  made : ℕ
  map : ℕ

/-- The zone that is in the slot afterwards. -/
def Slot.zone (z : Slot) : ℕ := if z.found = 0 then z.made else z.found

/-- **`new_block`**, where the slot is empty. The buffer of the bit map, which the super block
holds, is got here in the way the super block has got it. -/
def newBlock (z : Slot) : List Op :=
  if z.found ≠ 0 ∨ z.made = 0 then []
  else [.call (.bread dev z.map) .read, .store id, .mark, .brelse,
    .call (.getblk dev z.made) .zone, .store fun _ _ => 0, .validate, .mark, .brelse]

/-- `_bmap`, in the indirect block `b`: the slot is filled. -/
def fillSlot (b : ℕ) (z : Slot) : List Op :=
  .call (.bread dev b) .read :: newBlock dev z ++
    (if z.found = 0 ∧ z.made ≠ 0 then [.store id, .mark] else []) ++ [.brelse]

/-- **`create_block`**: what it does, and the block it returns; the slots are the ones it
comes to, one after the other. -/
def createBlock (block : ℕ) (z z' z'' : Slot) : List Op × ℕ :=
  -- it panics: the block is too big
  if 7 + 512 + 512 * 512 ≤ block then ([], 0)
  else if block < 7 then (newBlock dev z, z.zone)
  else if z.zone = 0 then (newBlock dev z, 0)
  else if block < 7 + 512 then (newBlock dev z ++ fillSlot dev z.zone z', z'.zone)
  else if z'.zone = 0 then (newBlock dev z ++ fillSlot dev z.zone z', 0)
  else (newBlock dev z ++ fillSlot dev z.zone z' ++ fillSlot dev z'.zone z'', z''.zone)

/-- The loop of `file_write`, for so many rounds; `slots` is what `create_block` comes to. -/
def fileWriteLoop (slots : ℕ → Slot × Slot × Slot) : ℕ → ℕ → ℕ → List Op
  | 0, _, _ => []
  | n + 1, pos, left =>
    if left = 0 then []
    else
      let block := pos / blockSize
      let z := slots block
      let b := createBlock dev block z.1 z.2.1 z.2.2
      if b.2 = 0 then b.1
      else
        let c := min (blockSize - pos % blockSize) left
        b.1 ++ .call (.bread dev b.2) .read :: .mark :: .store (copy pos) :: .brelse ::
          fileWriteLoop slots n (pos + c) (left - c)

/-- **`file_write`**. -/
def fileWrite (slots : ℕ → Slot × Slot × Slot) (pos count : ℕ) : List Op :=
  fileWriteLoop dev copy slots count pos count

end Functions

/-- **The functions** a task may call. -/
inductive Routine
  | blockWrite (dev : ℕ) (copy : ℕ → Block → Block) (pos count : ℕ)
  | fileWrite (dev : ℕ) (copy : ℕ → Block → Block) (slots : ℕ → Slot × Slot × Slot)
      (pos count : ℕ)
  | syncDev (dev : ℕ)
  /-- `getblk`, of a block that is released as it is. -/
  | getblk (dev block : ℕ)
  /-- `write_inode`, of an inode in the block. -/
  | writeInode (dev block : ℕ) (f : Block → Block)
  /-- `read_super`. -/
  | readSuper (dev : ℕ)

/-- What the function does. -/
def Routine.ops : Routine → List Op
  | .blockWrite dev copy pos count => Buffer.blockWrite dev copy pos count
  | .fileWrite dev copy slots pos count => Buffer.fileWrite dev copy slots pos count
  | .syncDev dev => [.sync dev]
  | .getblk dev block => [.call (.getblk dev block) .whole, .brelse]
  | .writeInode dev block f => [.call (.bread dev block) .read, .store f, .mark, .brelse]
  | .readSuper dev => [.call (.bread dev 1) .read, .setSuper, .brelse]

/-- **A function that a task is in.** -/
structure Fn where
  ops : List Op
  /-- The buffers in its variables. -/
  own : List (Ref × How)
  /-- The call it waits for, `none` for `brelse`; and how it gets a buffer by that. -/
  waits : Option (Option Call × How)

/-- **The cache, its tasks and the functions they are in.** -/
structure World (n : ℕ) where
  s : State n
  fns : Fin n → List Fn
  /-- The devices that have a super block in memory. -/
  super : List ℕ

/-- A step of the whole. -/
inductive Happening (n : ℕ)
  /-- A task runs on inside the cache. -/
  | run (t : Fin n)
  /-- A driver moves the block of its current request, -/
  | move (maj : ℕ)
  /-- and ends the request. -/
  | endRequest (maj : ℕ) (uptodate : Bool) (junk : Block)
  /-- A task calls a function. -/
  | start (t : Fin n) (f : Routine)
  /-- It does the next thing in the function it is in. -/
  | op (t : Fin n)

namespace World

variable {n : ℕ} (w : World n)

/-- The task is inside the cache, or has called nothing. -/
def inside (t : Fin n) : Bool :=
  match w.fns t with
  | [] => true
  | fn :: _ => fn.waits.isSome

/-- A task acts on the cache, and the functions it is in become `fns`. -/
def act (t : Fin n) (a : Act) (fns : List Fn) : Option (World n) :=
  (w.s.act t a).map fun s => { w with s := s, fns := Function.update w.fns t fns }

/-- What is called returns, to the function `fn`. -/
def returned (t : Fin n) (c : Option Call) (how : How) (fn : Fn) (fns : List Fn) :
    Option (World n) :=
  match c.bind Call.asked, (w.s.task t).ret with
  | some _, some e => w.act t .take ({ fn with own := (e, how) :: fn.own, waits := none } :: fns)
  -- a null pointer: the function gives up
  | some _, none => w.act t .take fns
  | none, _ => w.act t .take ({ fn with waits := none } :: fns)

/-- **The next thing in a function.** -/
def op (t : Fin n) : Option (World n) :=
  match w.fns t with
  | [] => none
  | fn :: fns =>
    match fn.waits, fn.ops, fn.own with
    | some (c, how), _, _ => w.returned t c how fn fns
    | none, [], _ => some { w with fns := Function.update w.fns t fns }
    | none, .call c how :: ops, _ =>
      -- `new_block` panics if the device has no super block
      if how = .zone ∧ ∀ q ∈ c.asked, q.1 ∉ w.super then none
      else w.act t (.call c) ({ fn with ops := ops, waits := some (some c, how) } :: fns)
    | none, .sync dev :: ops, _ =>
      w.act t (.call (.syncDev dev))
        ({ fn with ops := ops, waits := some (some (.syncDev dev), .read) } :: fns)
    | none, .store f :: ops, (e, _) :: _ => w.act t (.store e f) ({ fn with ops := ops } :: fns)
    | none, .validate :: ops, (e, .zone) :: _ =>
      w.act t (.validate e) ({ fn with ops := ops } :: fns)
    | none, .mark :: ops, (e, _) :: _ => w.act t (.mark e) ({ fn with ops := ops } :: fns)
    | none, .brelse :: ops, (e, _) :: own =>
      w.act t (.release e) (⟨ops, own, some (none, .read)⟩ :: fns)
    | none, .setSuper :: ops, (e, .read) :: _ =>
      some { w with
        fns := Function.update w.fns t ({ fn with ops := ops } :: fns)
        super := e.dev :: w.super }
    | none, _, _ => none

/-- **A step.** -/
def step : Happening n → Option (World n)
  | .run t => if w.inside t then (w.s.run t).map fun s => { w with s := s } else none
  | .move maj => (w.s.step (.move maj)).map fun s => { w with s := s }
  | .endRequest maj uptodate junk =>
    (w.s.step (.endRequest maj uptodate junk)).map fun s => { w with s := s }
  | .start t f =>
    if w.inside t ∧ (w.s.task t).idle then
      some { w with fns := Function.update w.fns t (⟨f.ops, [], none⟩ :: w.fns t) }
    else none
  | .op t => w.op t

/-- **The start**: no functions, and no super blocks. -/
structure Start : Prop where
  state : w.s.Start
  fns : ∀ t, w.fns t = []
  super : w.super = []

end World

end Linux011.Buffer

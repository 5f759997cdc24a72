import Mathlib.Data.Nat.Bitwise
import Mathlib.Logic.Function.Basic

/-!
# Buffer heads, and the queues of `fs/buffer.c`

The heads are an array from `start_buffer` on, so a `struct buffer_head *` is an
index; a null pointer is `none`. Every head is on the free list, a ring through
`b_prev_free` and `b_next_free` that `free_list` points into, and a head with a
device is on one of the hash queues, chains through `b_prev` and `b_next`.

The functions of this file are the parts of `fs/buffer.c` that never sleep:
`find_buffer`, the two queue operations, and the search of `getblk` for a buffer to
take. They are pure functions of the heads.
-/

namespace Linux011.Buffer

/-- `NR_HASH`. -/
def nrHash : ℕ := 307

/-- The `BLOCK_SIZE` bytes of a block. -/
abbrev Block : Type := Fin 1024 → BitVec 8

/-- `struct buffer_head`. -/
structure BufferHead where
  data : Block
  blocknr : ℕ
  /-- The device; `0` is none. -/
  dev : ℕ
  uptodate : Bool
  dirt : Bool
  count : ℕ
  lock : Bool
  prev : Option ℕ
  next : Option ℕ
  prevFree : Option ℕ
  nextFree : Option ℕ

/-- A head without its links. -/
def BufferHead.bare (h : BufferHead) : BufferHead :=
  { h with prev := none, next := none, prevFree := none, nextFree := none }

/-- **The heads and the roots of their queues.** -/
structure Cache where
  /-- `NR_BUFFERS`. -/
  nrBuffers : ℕ
  head : ℕ → BufferHead
  hashTable : ℕ → Option ℕ
  freeList : ℕ

namespace Cache

variable (c : Cache)

/-- A store into one head. -/
def setHead (b : ℕ) (f : BufferHead → BufferHead) : Cache :=
  { c with head := Function.update c.head b (f (c.head b)) }

/-- A store through a pointer, where it is not null. -/
def setAt (b : Option ℕ) (f : BufferHead → BufferHead) : Cache :=
  match b with
  | some b => c.setHead b f
  | none => c

/-- A store into the hash table. -/
def setHash (h : ℕ) (b : Option ℕ) : Cache :=
  { c with hashTable := Function.update c.hashTable h b }

end Cache

/-- `_hashfn(dev,block)`. -/
def hashfn (dev block : ℕ) : ℕ := (dev ^^^ block) % nrHash

/-- The loop of `find_buffer`, along `b_next`. -/
def findFrom (c : Cache) (dev block : ℕ) : ℕ → Option ℕ → Option ℕ
  | 0, _ => none
  | _ + 1, none => none
  | n + 1, some tmp =>
    if (c.head tmp).dev = dev ∧ (c.head tmp).blocknr = block then some tmp
    else findFrom c dev block n (c.head tmp).next

/-- `find_buffer`. -/
def findBuffer (c : Cache) (dev block : ℕ) : Option ℕ :=
  findFrom c dev block (c.nrBuffers + 1) (c.hashTable (hashfn dev block))

/-- The first half of `remove_from_queues`: remove from hash-queue. -/
def removeFromHash (c : Cache) (bh : ℕ) : Cache :=
  let c := c.setAt (c.head bh).next fun h => { h with prev := (c.head bh).prev }
  let c := c.setAt (c.head bh).prev fun h => { h with next := (c.head bh).next }
  let hash := hashfn (c.head bh).dev (c.head bh).blocknr
  if c.hashTable hash = some bh then c.setHash hash (c.head bh).next else c

/-- The second half: remove from free list; `none` is the panic of a corrupted list. -/
def removeFromFree (c : Cache) (bh : ℕ) : Option Cache :=
  if (c.head bh).prevFree = none ∨ (c.head bh).nextFree = none then none
  else
    let c := c.setAt (c.head bh).prevFree fun h => { h with nextFree := (c.head bh).nextFree }
    let c := c.setAt (c.head bh).nextFree fun h => { h with prevFree := (c.head bh).prevFree }
    some { c with
      freeList := if c.freeList = bh then ((c.head bh).nextFree).getD bh else c.freeList }

/-- `remove_from_queues`. -/
def removeFromQueues (c : Cache) (bh : ℕ) : Option Cache :=
  removeFromFree (removeFromHash c bh) bh

/-- The first half of `insert_into_queues`: put at end of free list. -/
def insertIntoFree (c : Cache) (bh : ℕ) : Cache :=
  let c := c.setHead bh fun h => { h with nextFree := some c.freeList }
  let c := c.setHead bh fun h => { h with prevFree := (c.head c.freeList).prevFree }
  let c := c.setAt (c.head c.freeList).prevFree fun h => { h with nextFree := some bh }
  c.setHead c.freeList fun h => { h with prevFree := some bh }

/-- The second half: put the buffer in new hash-queue if it has a device. The last
store goes through a null pointer when the queue was empty; it touches no head. -/
def insertIntoHash (c : Cache) (bh : ℕ) : Cache :=
  let c := c.setHead bh fun h => { h with prev := none }
  let c := c.setHead bh fun h => { h with next := none }
  if (c.head bh).dev = 0 then c
  else
    let hash := hashfn (c.head bh).dev (c.head bh).blocknr
    let c := c.setHead bh fun h => { h with next := c.hashTable hash }
    let c := c.setHash hash (some bh)
    c.setAt (c.head bh).next fun h => { h with prev := some bh }

/-- `insert_into_queues`. -/
def insertIntoQueues (c : Cache) (bh : ℕ) : Cache := insertIntoHash (insertIntoFree c bh) bh

/-- `BADNESS(bh)`. -/
def badness (h : BufferHead) : ℕ := 2 * h.dirt.toNat + h.lock.toNat

/-- The `do` loop of `getblk`, from `tmp` on, with `bh` the best buffer so far. -/
def scanFrom (c : Cache) : ℕ → ℕ → Option ℕ → Option ℕ
  | 0, _, bh => bh
  | n + 1, tmp, bh =>
    let better := (c.head tmp).count = 0 ∧
      ∀ b ∈ bh, badness (c.head tmp) < badness (c.head b)
    if better ∧ badness (c.head tmp) = 0 then some tmp
    else
      let bh := if better then some tmp else bh
      match (c.head tmp).nextFree with
      | none => bh
      | some t => if t = c.freeList then bh else scanFrom c n t bh

/-- The search of `getblk` for a buffer to take: `none` when all are in use. -/
def scanFree (c : Cache) : Option ℕ := scanFrom c c.nrBuffers c.freeList none

/-- The end of `getblk`: the buffer is re-tagged and goes to the end of the free
list. -/
def retag (c : Cache) (bh dev block : ℕ) : Option Cache :=
  let c := c.setHead bh fun h => { h with count := 1, dirt := false, uptodate := false }
  (removeFromQueues c bh).map fun c =>
    insertIntoQueues (c.setHead bh fun h => { h with dev := dev, blocknr := block }) bh

/-- The heads as `buffer_init` leaves them: nothing is hashed, and the free list runs
through all of them in order. The block number and the data are whatever memory
held. -/
def bufferInit (n : ℕ) (old : ℕ → BufferHead) : Cache where
  nrBuffers := n
  head i :=
    { old i with
      dev := 0
      uptodate := false
      dirt := false
      count := 0
      lock := false
      prev := none
      next := none
      prevFree := some (if i = 0 then n - 1 else i - 1)
      nextFree := some (if i = n - 1 then 0 else i + 1) }
  hashTable _ := none
  freeList := 0

end Linux011.Buffer

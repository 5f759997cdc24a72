import Linux011.Lib.Chain
import Linux011.Mm.Memory
import Mathlib.Data.Finset.Basic
import Mathlib.Data.Int.Notation

/-!
# The kernel's malloc

`lib/malloc.c`: a page is cut into objects of one size, and a bucket descriptor says what has
become of them: which page it is, the first free object, and how many are in use. The free objects
are linked through their own first words, the descriptors of one size through `next` from
`bucket_dir` on, and the descriptors not in use from `free_bucket_desc` on. The descriptors are
cut from pages of their own, which are never given back.

Memory is looked at in two ways: the words, at their addresses, and the descriptors, at theirs.
A page is one or the other, so no word of a descriptor is read as the link of an object
(`Linux011.Malloc.Ok`). For the record, `held` are the pages that have been taken and not given
back, and `descPages` those that were cut into descriptors.
-/

namespace Linux011.Malloc

/-- `struct bucket_desc`; the sizes are of 16 bits. -/
structure BucketDesc where
  page : ℕ
  next : Option ℕ
  /-- `NULL` is 0. -/
  freeptr : ℕ
  refcnt : ℕ
  bucketSize : ℕ

/-- The sizes in `bucket_dir`. -/
def bucketDir : List ℕ := [16, 32, 64, 128, 256, 512, 1024, 2048, 4096]

/-- `bucket_dir[i].size`; behind the last bucket stands a 0. -/
def bucketSize (i : ℕ) : ℕ := bucketDir.getD i 0

/-- **What `malloc` and `free_s` work on.** -/
structure Heap where
  /-- `mem_map`. -/
  memMap : ℕ → ℕ
  /-- `HIGH_MEMORY`. -/
  highMemory : ℕ
  word : ℕ → ℕ
  desc : ℕ → BucketDesc
  /-- `bucket_dir[i].chain`. -/
  chain : ℕ → Option ℕ
  freeBucketDesc : Option ℕ
  held : Finset ℕ
  descPages : Finset ℕ

/-- How a routine is left early: a `panic`; or it does not end, or goes through a null pointer. -/
inductive Stop
  | panic (msg : String)
  | stuck

/-- A pointer in memory. -/
def ptr (w : ℕ) : Option ℕ := if w = 0 then none else some w

/-- The page of an address: `(unsigned long) obj & 0xfffff000`. -/
def pageOf (a : ℕ) : ℕ := 4096 * (a / 4096)

namespace Heap

variable (s : Heap)

/-- A store of a word. -/
def setWord (a w : ℕ) : Heap := { s with word := Function.update s.word a w }

/-- A store into a descriptor. -/
def setDesc (d : ℕ) (f : BucketDesc → BucketDesc) : Heap :=
  { s with desc := Function.update s.desc d (f (s.desc d)) }

/-- A store of `bucket_dir[i].chain`. -/
def setChain (i : ℕ) (p : Option ℕ) : Heap := { s with chain := Function.update s.chain i p }

/-- The link of a descriptor. -/
def next (d : ℕ) : Option ℕ := (s.desc d).next

/-- The link of a free object. -/
def link (a : ℕ) : Option ℕ := ptr (s.word a)

end Heap

/-! ### Pages -/

/-- `get_free_page`: the last free page, marked used and cleared; `none` is 0. -/
def getFreePage (s : Heap) : Option (ℕ × Heap) :=
  (Mm.scasb s.memMap Mm.pagingPages).map fun n =>
    let page := 4096 * (Mm.lowFrame + n)
    (page, { s with
      memMap := Function.update s.memMap n 1
      word := fun a => if pageOf a = page then 0 else s.word a
      desc := fun d => if pageOf d = page then ⟨0, none, 0, 0, 0⟩ else s.desc d
      held := insert page s.held })

/-- `free_page`. -/
def freePage (page : ℕ) (s : Heap) : Except Stop Heap :=
  if page < 4096 * Mm.lowFrame then .ok s
  else if s.highMemory ≤ page then .error (.panic "trying to free nonexistent page")
  else if s.memMap (Mm.mapNr (page / 4096)) ≠ 0 then
    .ok { s with
      memMap := Function.update s.memMap (Mm.mapNr (page / 4096))
        ((s.memMap (Mm.mapNr (page / 4096)) + 255) % 256)
      held := s.held.erase page }
  else .error (.panic "trying to free free page")

/-! ### The loops -/

/-- A list of descriptors is never longer than there are addresses. -/
def rounds : ℕ := 0x100000000

/-- The loop of `init_bucket_desc`: descriptors are linked to the ones behind them, and where the
loop ends is returned. -/
def linkDescs : ℕ → ℕ → Heap → ℕ × Heap
  | 0, bdesc, s => (bdesc, s)
  | n + 1, bdesc, s =>
    linkDescs n (bdesc + 16) (s.setDesc bdesc fun b => { b with next := some (bdesc + 16) })

/-- `init_bucket_desc`. -/
def initBucketDesc (s : Heap) : Except Stop Heap :=
  match getFreePage s with
  | none => .error (.panic "Out of memory in init_bucket_desc()")
  | some (first, s) =>
    let (last, s) := linkDescs (4096 / 16 - 1) first s
    let s := s.setDesc last fun b => { b with next := s.freeBucketDesc }
    .ok { s with freeBucketDesc := some first, descPages := insert first s.descPages }

/-- The chain of free objects is set up, and ended with a null pointer. -/
def threadObjects (size : ℕ) : ℕ → ℕ → Heap → Heap
  | 0, cp, s => s.setWord cp 0
  | n + 1, cp, s => threadObjects size n (cp + size) (s.setWord cp (cp + size))

/-! ### `malloc` -/

/-- A new bucket for objects of the size of `bucket_dir[i]`, from a descriptor that is free. -/
def newBucket (i : ℕ) (s : Heap) : Except Stop (ℕ × Heap) :=
  match s.freeBucketDesc with
  | none => .error .stuck
  | some bdesc =>
    let s := { s with freeBucketDesc := s.next bdesc }
    let s := s.setDesc bdesc fun b => { b with refcnt := 0, bucketSize := bucketSize i }
    match getFreePage s with
    | none => .error (.panic "Out of memory in kernel malloc()")
    | some (cp, s) =>
      let s := s.setDesc bdesc fun b => { b with page := cp, freeptr := cp }
      let s := threadObjects (bucketSize i) (4096 / bucketSize i - 1) cp s
      let s := s.setDesc bdesc fun b => { b with next := s.chain i }
      .ok (bdesc, s.setChain i (some bdesc))

/-- The first free object of a bucket is taken. -/
def takeObject (bdesc : ℕ) (s : Heap) : ℕ × Heap :=
  let retval := (s.desc bdesc).freeptr
  (retval, s.setDesc bdesc fun b =>
    { b with freeptr := s.word retval, refcnt := (b.refcnt + 1) % 65536 })

/-- `if (!free_bucket_desc) init_bucket_desc()`. -/
def needDesc (s : Heap) : Except Stop Heap :=
  if s.freeBucketDesc = none then initBucketDesc s else .ok s

/-- The descriptor `malloc` takes an object of: the first with free space, or a new one. -/
def bucketFor (i : ℕ) (s : Heap) : Except Stop (ℕ × Heap) :=
  match Chain.search s.next (fun d => (s.desc d).freeptr ≠ 0) rounds none (s.chain i) with
  | none => .error .stuck
  | some (_, some bdesc) => .ok (bdesc, s)
  | some (_, none) =>
    match needDesc s with
    | .error e => .error e
    | .ok s => newBucket i s

/-- The first bucket whose objects are large enough; behind the last if there is none. -/
def bucketOf (len : ℕ) : ℕ := bucketDir.findIdx fun size => decide (len ≤ size)

/-- `malloc`. -/
def malloc (len : ℕ) (s : Heap) : Except Stop (ℕ × Heap) :=
  if bucketSize (bucketOf len) = 0 then .error (.panic "malloc: bad arg")
  else
    match bucketFor (bucketOf len) s with
    | .error e => .error e
    | .ok (bdesc, s) => .ok (takeObject bdesc s)

/-! ### `free_s` -/

/-- The search of `free_s`, from `bucket_dir[i]` on: the bucket, and the descriptor with the one
before it. -/
def findDesc (page : ℕ) (size : ℤ) (s : Heap) : ℕ → ℕ → Except Stop (ℕ × Option ℕ × ℕ)
  | 0, _ => .error (.panic "Bad address passed to kernel free_s()")
  | n + 1, i =>
    if (bucketSize i : ℤ) < size then findDesc page size s n (i + 1)
    else
      match Chain.search s.next (fun d => (s.desc d).page = page) rounds none (s.chain i) with
      | none => .error .stuck
      | some (prev, some bdesc) => .ok (i, prev, bdesc)
      | some (_, none) => findDesc page size s n (i + 1)

/-- `prev`, looked for again where it is not before the descriptor. -/
def checkPrev (i : ℕ) (prev : Option ℕ) (bdesc : ℕ) (s : Heap) : Option (Option ℕ) :=
  if (prev.elim (s.chain i) s.next) = some bdesc then some prev
  else (Chain.search s.next (fun d => s.next d = some bdesc) rounds none (s.chain i)).map Prod.snd

/-- The descriptor is taken off its chain, behind `prev`. -/
def unlinkDesc (i : ℕ) (bdesc : ℕ) (s : Heap) : Option ℕ → Except Stop Heap
  | some prev => .ok (s.setDesc prev fun b => { b with next := s.next bdesc })
  | none =>
    if s.chain i ≠ some bdesc then .error (.panic "malloc bucket chains corrupted")
    else .ok (s.setChain i (s.next bdesc))

/-- A bucket with no object in use goes back: its page, and its descriptor. -/
def dropBucket (i : ℕ) (prev : Option ℕ) (bdesc : ℕ) (s : Heap) : Except Stop Heap :=
  match checkPrev i prev bdesc s with
  | none => .error .stuck
  | some prev =>
    match unlinkDesc i bdesc s prev with
    | .error e => .error e
    | .ok s =>
      match freePage (s.desc bdesc).page s with
      | .error e => .error e
      | .ok s =>
        let s := s.setDesc bdesc fun b => { b with next := s.freeBucketDesc }
        .ok { s with freeBucketDesc := some bdesc }

/-- An object goes back to its bucket. -/
def putObject (obj bdesc : ℕ) (s : Heap) : Heap :=
  let s := s.setWord obj (s.desc bdesc).freeptr
  s.setDesc bdesc fun b => { b with freeptr := obj, refcnt := (b.refcnt + 65535) % 65536 }

/-- `free_s`. -/
def freeS (obj : ℕ) (size : ℤ) (s : Heap) : Except Stop Heap :=
  match findDesc (pageOf obj) size s bucketDir.length 0 with
  | .error e => .error e
  | .ok (i, prev, bdesc) =>
    let s := putObject obj bdesc s
    if (s.desc bdesc).refcnt = 0 then dropBucket i prev bdesc s else .ok s

end Linux011.Malloc

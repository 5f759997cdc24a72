import Linux011.Buffer.Requests

/-!
# The functions of `fs/buffer.c` that sleep

A task that is inside the buffer cache has a stack of calls. A `Frame` is a call that
is under way, and where in its text it is; `Frame.step` runs the topmost one to its
next interesting place. What a function hands back to its caller is in `ret`.

Between two steps another task may run. That is more freedom than the kernel has,
which only switches where the code sleeps: every place where it sleeps is the
beginning of a step here, and the step that follows a `wait_on_buffer` can only be
taken while the buffer is not locked.
-/

namespace Linux011.Buffer

/-- A pointer to a buffer that has been counted for its holder, who takes the buffer
to be this block. -/
structure Ref where
  bh : ℕ
  dev : ℕ
  block : ℕ
  deriving DecidableEq

/-- The calls into the cache. -/
inductive Call
  | getHashTable (dev block : ℕ)
  | getblk (dev block : ℕ)
  | bread (dev block : ℕ)
  | breada (dev first : ℕ) (ahead : List ℕ)
  | syncDev (dev : ℕ)
  | sysSync
  deriving DecidableEq

/-- The block a call asks for. -/
def Call.asked : Call → Option (ℕ × ℕ)
  | .getHashTable dev block => some (dev, block)
  | .getblk dev block => some (dev, block)
  | .bread dev block => some (dev, block)
  | .breada dev first _ => some (dev, first)
  | .syncDev _ => none
  | .sysSync => none

/-- **A call under way.** -/
inductive Frame
  /-- `get_hash_table`, at the head of its loop. -/
  | getHashTable (dev block : ℕ)
  /-- `get_hash_table`, in `wait_on_buffer`. -/
  | hashWait (e : Ref)
  /-- `getblk`, at `repeat`. -/
  | getblk (dev block : ℕ)
  /-- `getblk`, when `get_hash_table` has returned. -/
  | getblkHashed (dev block : ℕ)
  /-- `getblk`, asleep on `buffer_wait`. -/
  | getblkAsleep (dev block : ℕ)
  /-- `getblk`, in `wait_on_buffer` of the buffer it wants to take. -/
  | getblkWait (dev block bh : ℕ)
  /-- `sync_dev`, or `sys_sync` where `only` is `none`: the first or the second loop. -/
  | sync (only : Option ℕ) (again : Bool) (i : ℕ)
  /-- In `wait_on_buffer` of the loop. -/
  | syncWait (only : Option ℕ) (again : Bool) (i : ℕ)
  /-- In `sync_inodes`, which calls `bread` and `brelse`. -/
  | syncInodes (only : Option ℕ)
  /-- `make_request`, in `lock_buffer`. -/
  | lockBuffer (cmd : Cmd) (ahead : Bool) (maj bh : ℕ)
  /-- `make_request`, looking for an empty request. -/
  | makeRequest (cmd : Cmd) (ahead : Bool) (maj bh : ℕ)
  /-- `brelse`, in `wait_on_buffer`. -/
  | brelse (e : Ref)
  /-- `bread`. -/
  | bread (dev block : ℕ)
  /-- `bread`, when `getblk` has returned. -/
  | breadGot (dev block : ℕ)
  /-- `bread` and `breada`, in `wait_on_buffer`. -/
  | breadWait (e : Ref)
  /-- `breada`, and the blocks to read ahead. -/
  | breada (dev first : ℕ) (ahead : List ℕ)
  /-- `breada`, when the first `getblk` has returned. -/
  | breadaGot (dev first : ℕ) (ahead : List ℕ)
  /-- `breada`, at the head of its loop. -/
  | breadaNext (e : Ref) (dev : ℕ) (ahead : List ℕ)
  /-- `breada`, when `getblk` has returned in the loop. -/
  | breadaAhead (e : Ref) (dev block : ℕ) (ahead : List ℕ)
  /-- `breada`, at the end of the body of its loop. -/
  | breadaDrop (e tmp : Ref) (dev : ℕ) (ahead : List ℕ)
  /-- The function outside this file that has made the call; `none` is `brelse`. -/
  | caller (c : Option Call)
  deriving DecidableEq

/-- What a step of a call comes to. -/
inductive Move
  /-- The task sleeps. -/
  | wait
  | panic
  /-- The call goes on as the frames `fs`, of which there are none when it has
  returned. -/
  | go (s : Sys) (fs : List Frame) (ret : Option Ref)

namespace Sys

variable (s : Sys)

/-- The end of `lock_buffer`, and the test that follows it in `make_request`. -/
def lockAndTest (cmd : Cmd) (ahead : Bool) (maj bh : ℕ) (fs : List Frame) : Move :=
  if (cmd = .write ∧ (s.cache.head bh).dirt = false) ∨
      (cmd = .read ∧ (s.cache.head bh).uptodate = true) then .go s fs none
  else .go (s.setHead bh fun h => { h with lock := true })
    (.makeRequest cmd ahead maj bh :: fs) none

/-- `ll_rw_block(rw,bh)`, called from the frames `fs`; `READA` is `READ` with `ahead`. -/
def llRwBlock (cmd : Cmd) (ahead : Bool) (bh : ℕ) (fs : List Frame) : Move :=
  let maj := major (s.cache.head bh).dev
  if nrBlkDev ≤ maj ∨ s.requestFn maj = false then .go s fs none
  else if (s.cache.head bh).lock then
    if ahead then .go s fs none else .go s (.lockBuffer cmd ahead maj bh :: fs) none
  else s.lockAndTest cmd ahead maj bh fs

end Sys

/-- `bh->b_count++`. -/
def BufferHead.incCount (h : BufferHead) : BufferHead := { h with count := (h.count + 1) % 256 }

/-- `bh->b_count--`. -/
def BufferHead.decCount (h : BufferHead) : BufferHead := { h with count := (h.count + 255) % 256 }

/-- **A step of a call**, with what the last call it has made returned. -/
def Frame.step (s : Sys) (ret : Option Ref) : Frame → Move
  | .getHashTable dev block =>
    match findBuffer s.cache dev block with
    | none => .go s [] none
    | some bh => .go (s.setHead bh BufferHead.incCount) [.hashWait ⟨bh, dev, block⟩] none
  | .hashWait e =>
    if (s.cache.head e.bh).lock then .wait
    else if (s.cache.head e.bh).dev = e.dev ∧ (s.cache.head e.bh).blocknr = e.block then
      .go s [] (some e)
    else .go (s.setHead e.bh BufferHead.decCount) [.getHashTable e.dev e.block] none
  | .getblk dev block => .go s [.getHashTable dev block, .getblkHashed dev block] none
  | .getblkHashed dev block =>
    match ret with
    | some e => .go s [] (some e)
    | none =>
      match scanFree s.cache with
      | none => .go s [.getblkAsleep dev block] none
      | some bh => .go s [.getblkWait dev block bh] none
  | .getblkAsleep dev block => .go s [.getblk dev block] none
  | .getblkWait dev block bh =>
    if (s.cache.head bh).lock then .wait
    else if (s.cache.head bh).count ≠ 0 then .go s [.getblk dev block] none
    else if (s.cache.head bh).dirt then
      .go s [.sync (some (s.cache.head bh).dev) false 0, .getblkWait dev block bh] none
    else if (findBuffer s.cache dev block).isSome then .go s [.getblk dev block] none
    else
      match retag s.cache bh dev block with
      | none => .panic
      | some c => .go { s with cache := c } [] (some ⟨bh, dev, block⟩)
  | .sync only again i =>
    if s.cache.nrBuffers ≤ i then
      if again then .go s [] none else .go s [.syncInodes only] none
    else if ∀ dev ∈ only, (s.cache.head i).dev = dev then .go s [.syncWait only again i] none
    else .go s [.sync only again (i + 1)] none
  | .syncWait only again i =>
    if (s.cache.head i).lock then .wait
    else if (∀ dev ∈ only, (s.cache.head i).dev = dev) ∧ (s.cache.head i).dirt = true then
      s.llRwBlock .write false i [.sync only again (i + 1)]
    else .go s [.sync only again (i + 1)] none
  | .syncInodes only => .go s [.sync only true 0] none
  | .lockBuffer cmd ahead maj bh =>
    if (s.cache.head bh).lock then .wait else s.lockAndTest cmd ahead maj bh []
  | .makeRequest cmd ahead maj bh =>
    match s.emptySlot (Sys.slotLimit cmd) with
    | none =>
      if ahead then .go (s.setHead bh fun h => { h with lock := false }) [] none else .wait
    | some i => .go (s.addRequest maj i (s.fillRequest cmd bh)) [] none
  | .brelse e =>
    if (s.cache.head e.bh).lock then .wait
    else if (s.cache.head e.bh).count = 0 then .panic
    else .go (s.setHead e.bh BufferHead.decCount) [] none
  | .bread dev block => .go s [.getblk dev block, .breadGot dev block] none
  | .breadGot _ _ =>
    match ret with
    | none => .panic
    | some e =>
      if (s.cache.head e.bh).uptodate then .go s [] (some e)
      else s.llRwBlock .read false e.bh [.breadWait e]
  | .breadWait e =>
    if (s.cache.head e.bh).lock then .wait
    else if (s.cache.head e.bh).uptodate then .go s [] (some e)
    else .go s [.brelse e] none
  | .breada dev first ahead => .go s [.getblk dev first, .breadaGot dev first ahead] none
  | .breadaGot dev _ ahead =>
    match ret with
    | none => .panic
    | some e =>
      if (s.cache.head e.bh).uptodate then .go s [.breadaNext e dev ahead] none
      else s.llRwBlock .read false e.bh [.breadaNext e dev ahead]
  | .breadaNext e dev ahead =>
    match ahead with
    | [] => .go s [.breadWait e] none
    | first :: ahead => .go s [.getblk dev first, .breadaAhead e dev first ahead] none
  | .breadaAhead e dev _ ahead =>
    match ret with
    | none => .go s [.breadaNext e dev ahead] none
    | some tmp =>
      if (s.cache.head tmp.bh).uptodate then .go s [.breadaDrop e tmp dev ahead] none
      else s.llRwBlock .read true e.bh [.breadaDrop e tmp dev ahead]
  | .breadaDrop e tmp dev ahead =>
    .go (s.setHead tmp.bh BufferHead.decCount) [.breadaNext e dev ahead] none
  | .caller _ => .wait

end Linux011.Buffer

import Linux011.Buffer.Cache

/-!
# Block requests, and the drivers behind them

`kernel/blk_drv/ll_rw_blk.c` turns a transfer between a buffer and the disk into a
request: one of `NR_REQUEST` slots is filled in and linked into the queue of the
device's major number. The driver works on the head of its queue; when it is done,
`end_request` marks the buffer, unlocks it, frees the slot and goes on to the next
request.

The drivers themselves are outside this file. All that is asked of one is that it
moves the block of the request it works on and then ends it: `Sys.move` is the moment
when the data of a `WRITE` reaches the disk, `Sys.endRequest` the interrupt that ends a
request.
-/

namespace Linux011.Buffer

/-- `READ` and `WRITE`. -/
inductive Cmd
  | read
  | write
  deriving DecidableEq

/-- The value of a command, as `IN_ORDER` compares it. -/
def Cmd.num : Cmd → ℕ
  | .read => 0
  | .write => 1

/-- `struct request`, in use. -/
structure Request where
  dev : ℕ
  cmd : Cmd
  sector : ℕ
  bh : ℕ
  deriving DecidableEq

/-- `NR_REQUEST`. -/
def nrRequest : ℕ := 32

/-- `NR_BLK_DEV`. -/
def nrBlkDev : ℕ := 7

/-- `MAJOR(a)`. -/
def major (dev : ℕ) : ℕ := dev / 256

/-- **The buffers, the requests and the disks.** -/
structure Sys where
  cache : Cache
  /-- The request slots; `none` has `dev` -1. -/
  slot : ℕ → Option Request
  /-- The slots from `current_request` on, for each major number. -/
  queue : ℕ → List ℕ
  /-- Whether there is a `request_fn`. -/
  requestFn : ℕ → Bool
  /-- Whether the block of the current request is on the disk already. -/
  moved : ℕ → Bool
  disk : ℕ → ℕ → Block

/-- `IN_ORDER(s1,s2)`. -/
def inOrder (s1 s2 : Request) : Bool :=
  s1.cmd.num < s2.cmd.num || (s1.cmd == s2.cmd &&
    (s1.dev < s2.dev || (s1.dev == s2.dev && s1.sector < s2.sector)))

namespace Sys

variable (s : Sys)

/-- A store into one head. -/
def setHead (b : ℕ) (f : BufferHead → BufferHead) : Sys :=
  { s with cache := s.cache.setHead b f }

/-- `IN_ORDER` of two slots. -/
def slotsInOrder (i j : ℕ) : Bool := (s.slot i).any fun r => (s.slot j).any fun r' => inOrder r r'

/-- The loop of `add_request`: the request `req` is linked in behind `tmp`, the first
of the list, or further down. -/
def linkRequest (req : ℕ) : List ℕ → List ℕ
  | [] => [req]
  | [tmp] => [tmp, req]
  | tmp :: next :: rest =>
    if (s.slotsInOrder tmp req || !s.slotsInOrder tmp next) && s.slotsInOrder req next then
      tmp :: req :: next :: rest
    else tmp :: linkRequest req (next :: rest)

/-- The search of `make_request` for an empty request, from slot `n - 1` down. -/
def emptySlot : ℕ → Option ℕ
  | 0 => none
  | n + 1 => if s.slot n = none then some n else emptySlot n

/-- The slots a request may take: the last third is for reads only. -/
def slotLimit : Cmd → ℕ
  | .read => nrRequest
  | .write => nrRequest * 2 / 3

/-- The request for a buffer. -/
def fillRequest (cmd : Cmd) (bh : ℕ) : Request where
  dev := (s.cache.head bh).dev
  cmd := cmd
  sector := (s.cache.head bh).blocknr * 2
  bh := bh

/-- `add_request`, of a request that has been filled into slot `i`. -/
def addRequest (maj i : ℕ) (r : Request) : Sys :=
  let s := { s with slot := Function.update s.slot i (some r) }
  let s := s.setHead r.bh fun h => { h with dirt := false }
  { s with queue := Function.update s.queue maj (s.linkRequest i (s.queue maj)) }

/-- The request a driver works on. -/
def current (maj : ℕ) : Option Request := (s.queue maj).head?.bind s.slot

/-- **The driver moves the block** of a `WRITE` to the disk. -/
def move (maj : ℕ) : Option Sys :=
  match s.current maj with
  | some r =>
    if r.cmd = .write ∧ s.moved maj = false then
      some { s with
        moved := Function.update s.moved maj true
        disk := Function.update s.disk r.dev
          (Function.update (s.disk r.dev) (r.sector / 2) (s.cache.head r.bh).data) }
    else none
  | none => none

/-- What is in the buffer of a request that ends: of a `READ` that failed, anything. -/
def received (r : Request) (uptodate : Bool) (junk : Block) : Block :=
  match r.cmd with
  | .read => if uptodate then s.disk r.dev (r.sector / 2) else junk
  | .write => (s.cache.head r.bh).data

/-- **The driver ends the request**: `end_request(uptodate)`. A `WRITE` that succeeded has
reached the disk. -/
def endRequest (maj : ℕ) (uptodate : Bool) (junk : Block) : Option Sys :=
  match s.queue maj, s.current maj with
  | i :: rest, some r =>
    if r.cmd = .write ∧ uptodate = true ∧ s.moved maj = false then none
    else
      let data := s.received r uptodate junk
      let s := s.setHead r.bh fun h => { h with data := data }
      let s := s.setHead r.bh fun h => { h with uptodate := uptodate, lock := false }
      some { s with
        slot := Function.update s.slot i none
        queue := Function.update s.queue maj rest
        moved := Function.update s.moved maj false }
  | _, _ => none

end Sys

end Linux011.Buffer

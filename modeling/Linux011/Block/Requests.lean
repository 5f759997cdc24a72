import Linux011.Lib.Chain
import Linux011.Lib.Sweeps
import Mathlib.Data.Int.Notation
import Mathlib.Data.List.Perm.Subperm

/-!
# The request queues

`kernel/blk_drv/ll_rw_blk.c` and the part of `blk.h` the drivers include. There is one
array of `NR_REQUEST` slots; a slot is in use while its `dev` is not -1, and the slots
that wait for one driver are linked through `next`, from `current_request` of its major
number on. `Linux011.Block.addRequest` links a slot in, `Linux011.Block.endRequest` takes
the first one off.

`Linux011.Block.Queued` says that what the links lead through are the slots in use, and
each operation has one lemma on what it does to the queues. The insertion is
`Linux011.place` (`Linux011.Block.Queued.addRequest`).
-/

namespace Linux011.Block

/-! ### Requests and buffers -/

/-- `READ` and `WRITE`, as a request holds them. -/
inductive Cmd
  | read
  | write
  deriving DecidableEq

/-- The value of a command. -/
def Cmd.num : Cmd → ℕ
  | .read => 0
  | .write => 1

/-- `struct request`. What waits for a paging request is left out, as there are none. -/
structure Request where
  /-- -1 if no request. -/
  dev : ℤ
  cmd : Cmd
  errors : ℕ
  sector : ℕ
  nrSectors : ℕ
  buffer : ℕ
  bh : ℕ
  next : Option ℕ
  deriving DecidableEq

/-- `struct buffer_head`, as far as a request goes. -/
structure BufferHead where
  data : ℕ
  blocknr : ℕ
  dev : ℕ
  uptodate : Bool
  dirt : Bool
  lock : Bool

/-- `NR_REQUEST`. -/
def nrRequest : ℕ := 32

/-- `NR_BLK_DEV`. -/
def nrBlkDev : ℕ := 7

/-- `MAJOR(a)`, of an unsigned word. -/
def major (dev : ℤ) : ℕ := (dev % 0x100000000).toNat / 256

/-- **The slots, the table of drivers and the buffers.** -/
structure Sys where
  request : ℕ → Request
  currentRequest : ℕ → Option ℕ
  /-- Whether there is a `request_fn`. -/
  requestFn : ℕ → Bool
  head : ℕ → BufferHead

/-- `IN_ORDER(s1,s2)`. -/
def inOrder (s1 s2 : Request) : Bool :=
  s1.cmd.num < s2.cmd.num || (s1.cmd.num == s2.cmd.num &&
    (s1.dev < s2.dev || (s1.dev == s2.dev && s1.sector < s2.sector)))

/-- **A use of `CURRENT`** by a driver, with the queue as it is then: a dereference, or a look at
how often a request has failed, with the queue as it was when that happened. -/
inductive Use (ρ : Type)
  | deref (queue : List ρ)
  | errors (failed queue : List ρ)

/-- There is a request, and it is the one that has failed. -/
def Use.Right {ρ : Type} : Use ρ → Prop
  | .deref queue => queue ≠ []
  | .errors failed queue => queue ≠ [] ∧ queue = failed

namespace Sys

variable (s : Sys)

/-- A store into one slot. -/
def setRequest (i : ℕ) (f : Request → Request) : Sys :=
  { s with request := Function.update s.request i (f (s.request i)) }

/-- A store into one buffer head. -/
def setHead (b : ℕ) (f : BufferHead → BufferHead) : Sys :=
  { s with head := Function.update s.head b (f (s.head b)) }

/-- `IN_ORDER` of two slots. -/
def slotsInOrder (i j : ℕ) : Bool := inOrder (s.request i) (s.request j)

/-- The link of a slot. -/
def next (i : ℕ) : Option ℕ := (s.request i).next

end Sys

/-! ### `add_request` and `end_request` -/

/-- The loop of `add_request`, for at most so many rounds: the slot behind which the
request is linked in. -/
def findPlace (s : Sys) (req : ℕ) : ℕ → ℕ → Option ℕ
  | 0, _ => none
  | n + 1, tmp =>
    match s.next tmp with
    | none => some tmp
    | some next =>
      if (s.slotsInOrder tmp req || !s.slotsInOrder tmp next) && s.slotsInOrder req next then
        some tmp
      else findPlace s req n next

/-- `add_request`; the list is never longer than there are slots. Where the queue was empty,
`request_fn` is called next. -/
def addRequest (maj req : ℕ) (s : Sys) : Option Sys :=
  let s := s.setRequest req fun r => { r with next := none }
  let s := s.setHead (s.request req).bh fun h => { h with dirt := false }
  match s.currentRequest maj with
  | none => some { s with currentRequest := Function.update s.currentRequest maj (some req) }
  | some tmp =>
    match findPlace s req nrRequest tmp with
    | none => none
    | some tmp =>
      let s := s.setRequest req fun r => { r with next := s.next tmp }
      some (s.setRequest tmp fun r => { r with next := some req })

/-- `unlock_buffer`. -/
def unlockBuffer (b : ℕ) (s : Sys) : Sys := s.setHead b fun h => { h with lock := false }

/-- `end_request(uptodate)`, of a driver that has a current request. -/
def endRequest (maj : ℕ) (uptodate : Bool) (s : Sys) : Option Sys :=
  (s.currentRequest maj).map fun i =>
    let s := s.setHead (s.request i).bh fun h => { h with uptodate := uptodate }
    let s := unlockBuffer (s.request i).bh s
    let s := s.setRequest i fun r => { r with dev := -1 }
    { s with currentRequest := Function.update s.currentRequest maj (s.next i) }

/-- What `blk_dev_init` makes of the slots. -/
def blkDevInit (requestFn : ℕ → Bool) (head : ℕ → BufferHead) : Sys where
  request _ := ⟨-1, .read, 0, 0, 0, 0, 0, none⟩
  currentRequest _ := none
  requestFn := requestFn
  head := head

/-! ### The queues -/

/-- **What the links lead through**: from each `current_request`, once each, the slots whose
device has that major number. -/
structure Queued (s : Sys) (q : ℕ → List ℕ) : Prop where
  chain : ∀ maj, Chain s.next (s.currentRequest maj) (q maj)
  nodup : ∀ maj, (q maj).Nodup
  mem : ∀ maj i, i ∈ q maj ↔ i < nrRequest ∧ 0 ≤ (s.request i).dev ∧
    major (s.request i).dev = maj

variable {s s' : Sys} {q : ℕ → List ℕ} {maj i j b : ℕ} {r : Request}

theorem Sys.request_setRequest (f : Request → Request) :
    (s.setRequest i f).request j = if j = i then f (s.request i) else s.request j :=
  Function.update_apply ..

theorem Sys.head_setHead (f : BufferHead → BufferHead) :
    (s.setHead b f).head j = if j = b then f (s.head b) else s.head j :=
  Function.update_apply ..

@[simp] theorem Sys.next_setHead (f : BufferHead → BufferHead) :
    (s.setHead b f).next = s.next := rfl

/-- A store into the link of a slot. -/
theorem Sys.next_setNext (p : Option ℕ) :
    (s.setRequest i fun r => { r with next := p }).next = Function.update s.next i p := by
  ext1 j
  rw [Sys.next, Sys.request_setRequest, Function.update_apply]
  split
  · rfl
  · rfl

/-- A store that leaves the link of a slot alone. -/
theorem Sys.next_setRequest {f : Request → Request} (hf : ∀ r, (f r).next = r.next) :
    (s.setRequest i f).next = s.next := by
  ext1 j
  rw [Sys.next, Sys.request_setRequest]
  split
  · next h => rw [h, hf]; rfl
  · rfl

namespace Queued

theorem init (fn : ℕ → Bool) (head : ℕ → BufferHead) :
    Queued (blkDevInit fn head) fun _ => [] := by
  refine ⟨fun _ => rfl, fun _ => List.nodup_nil, fun maj i => ?_⟩
  constructor
  · intro hi
    cases hi
  · rintro ⟨-, hd, -⟩
    have hneg : (0 : ℤ) ≤ -1 := hd
    omega

theorem lt (h : Queued s q) (hi : i ∈ q maj) : i < nrRequest := ((h.mem maj i).mp hi).1

/-- A queue is not longer than there are slots. -/
theorem length_le (h : Queued s q) : (q maj).length ≤ nrRequest := by
  have hsub : q maj ⊆ List.range nrRequest := fun i hi => List.mem_range.mpr (h.lt hi)
  have := (List.subperm_of_subset (h.nodup maj) hsub).length_le
  rwa [List.length_range] at this

/-- A slot is on one queue. -/
theorem disjoint (h : Queued s q) {maj' : ℕ} (hi : i ∈ q maj) (hi' : i ∈ q maj') : maj = maj' := by
  obtain ⟨-, -, hm⟩ := (h.mem maj i).mp hi
  obtain ⟨-, -, hm'⟩ := (h.mem maj' i).mp hi'
  exact hm.symm.trans hm'

/-- A slot that is not in use is on no queue. -/
theorem free (h : Queued s q) (hi : (s.request i).dev < 0) : i ∉ q maj := by
  intro hm
  obtain ⟨-, hd, -⟩ := (h.mem maj i).mp hm
  omega

end Queued

/-! ### Adding a request -/

/-- **Where the loop stops**: behind the slot it returns, `Linux011.place` puts the request. -/
theorem findPlace_spec {l : List ℕ} {n tmp : ℕ} (hc : Chain s.next (some tmp) (tmp :: l))
    (hn : l.length < n) : ∃ l₁ a l₂, tmp :: l = l₁ ++ a :: l₂ ∧ findPlace s i n tmp = some a ∧
      place s.slotsInOrder i (tmp :: l) = l₁ ++ a :: i :: l₂ := by
  induction l generalizing tmp n with
  | nil =>
    obtain ⟨n, rfl⟩ := Nat.exists_eq_succ_of_ne_zero (Nat.ne_of_gt hn)
    have hnext : s.next tmp = none := hc.2
    refine ⟨[], tmp, [], rfl, ?_, rfl⟩
    rw [findPlace, hnext]
  | cons b l ih =>
    obtain ⟨n, rfl⟩ := Nat.exists_eq_succ_of_ne_zero (Nat.ne_of_gt (Nat.zero_lt_of_lt hn))
    have hnext : s.next tmp = some b := hc.2.1
    have hrest : Chain s.next (some b) (b :: l) := hnext ▸ hc.2
    rw [findPlace, hnext, place]
    dsimp only
    split
    · exact ⟨[], tmp, b :: l, rfl, rfl, rfl⟩
    · obtain ⟨l₁, a, l₂, hl, hf, hp⟩ := ih hrest (Nat.lt_of_succ_lt_succ hn)
      refine ⟨tmp :: l₁, a, l₂, ?_, hf, ?_⟩
      · rw [hl, List.cons_append]
      · rw [hp, List.cons_append]

/-- **What `add_request` comes to**: the request is linked into its queue, and its buffer is
marked clean. -/
structure Added (s s' : Sys) (maj i : ℕ) (l : List ℕ) : Prop where
  chain : Chain s'.next (s'.currentRequest maj) (place s.slotsInOrder i l)
  current : ∀ maj', maj' ≠ maj → s'.currentRequest maj' = s.currentRequest maj'
  next : ∀ j, j ∉ l → j ≠ i → s'.next j = s.next j
  request : ∀ j, s'.request j = { s.request j with next := s'.next j }
  head : ∀ b, s'.head b =
    if b = (s.request i).bh then { s.head b with dirt := false } else s.head b
  requestFn : s'.requestFn = s.requestFn

theorem addRequest_added {l : List ℕ} (hc : Chain s.next (s.currentRequest maj) l)
    (hd : l.Nodup) (hi : i ∉ l) (hlen : l.length ≤ nrRequest) :
    ∃ s', addRequest maj i s = some s' ∧ Added s s' maj i l := by
  -- the link is cleared and the buffer marked before the search
  obtain ⟨t, ht⟩ : ∃ t : Sys, t = (s.setRequest i fun r => { r with next := none }).setHead
      (s.request i).bh fun h => { h with dirt := false } := ⟨_, rfl⟩
  have hbh : ((s.setRequest i fun r => { r with next := none }).request i).bh =
      (s.request i).bh := by
    rw [Sys.request_setRequest, if_pos rfl]
  have hnext : t.next = Function.update s.next i none := by
    rw [ht, Sys.next_setHead, Sys.next_setNext]
  have hreq : ∀ j, t.request j = { s.request j with next := t.next j } := by
    intro j
    have hj : t.request j = if j = i then { s.request i with next := none } else s.request j := by
      rw [ht]
      exact Sys.request_setRequest (s := s) fun r => { r with next := none }
    rw [hnext, hj, Function.update_apply]
    split
    · next h => rw [h]
    · rfl
  have hhead : ∀ b, t.head b =
      if b = (s.request i).bh then { s.head b with dirt := false } else s.head b := by
    intro b
    rw [ht, Sys.head_setHead]
    split
    · next h => rw [h]; rfl
    · rfl
  have hct : Chain t.next (s.currentRequest maj) l := by
    rw [hnext]
    exact hc.congr fun j hj => Function.update_of_ne (ne_of_mem_of_not_mem hj hi) _ _
  have horder : t.slotsInOrder = s.slotsInOrder := by
    ext j k
    rw [Sys.slotsInOrder, hreq j, hreq k]
    rfl
  have hcur : t.currentRequest = s.currentRequest := by rw [ht]; rfl
  have hadd : addRequest maj i s = match t.currentRequest maj with
      | none => some { t with currentRequest := Function.update t.currentRequest maj (some i) }
      | some tmp => match findPlace t i nrRequest tmp with
        | none => none
        | some tmp => some ((t.setRequest i fun r => { r with next := t.next tmp }).setRequest tmp
            fun r => { r with next := some i }) := by
    rw [ht, ← hbh]
    rfl
  rw [hadd, hcur]
  cases l with
  | nil =>
    have hnone : s.currentRequest maj = none := hc
    rw [hnone]
    refine ⟨_, rfl, ⟨?_, ?_, ?_, hreq, hhead, by rw [ht]; rfl⟩⟩
    · change Chain t.next (Function.update s.currentRequest maj (some i) maj) [i]
      rw [Function.update_self]
      refine ⟨rfl, ?_⟩
      rw [hnext, Function.update_self]
      exact rfl
    · intro maj' hm
      exact Function.update_of_ne hm _ _
    · intro j _ hj
      change t.next j = _
      rw [hnext, Function.update_of_ne hj]
  | cons tmp l =>
    have hsome : s.currentRequest maj = some tmp := hc.1
    rw [hsome] at hct ⊢
    obtain ⟨l₁, a, l₂, hl, hfind, hplace⟩ := findPlace_spec (i := i) hct hlen
    rw [hl] at hct hd hi
    have hai : a ≠ i := by
      rintro rfl
      exact hi (List.mem_append_right l₁ List.mem_cons_self)
    dsimp only
    rw [hfind]
    -- the two stores of `add_request`
    obtain ⟨t', ht'⟩ : ∃ t' : Sys, t' = (t.setRequest i fun r =>
        { r with next := t.next a }).setRequest a fun r => { r with next := some i } := ⟨_, rfl⟩
    have hnext' : t'.next = Function.update (Function.update t.next i (t.next a)) a (some i) := by
      rw [ht', Sys.next_setNext, Sys.next_setNext]
    refine ⟨t', by rw [ht'], ⟨?_, ?_, ?_, ?_, ?_, by rw [ht', ht]; rfl⟩⟩
    · have hcur' : t'.currentRequest maj = some tmp := by
        rw [ht', ← hsome, ← hcur]
        rfl
      rw [hnext', hcur', ← horder, hplace]
      exact hct.insertAfter hd hi
    · intro maj' _
      rw [ht', ← hcur]
      rfl
    · intro j hj hji
      have hja : j ≠ a := by
        rintro rfl
        rw [hl] at hj
        exact hj (List.mem_append_right l₁ List.mem_cons_self)
      rw [hnext', Function.update_of_ne hja, Function.update_of_ne hji, hnext,
        Function.update_of_ne hji]
    · intro j
      have hstep : t'.request j = { t.request j with next := t'.next j } := by
        rw [hnext', ht', Sys.request_setRequest, Sys.request_setRequest, Sys.request_setRequest,
          if_neg hai, Function.update_apply, Function.update_apply]
        by_cases hja : j = a
        · rw [if_pos hja, if_pos hja, hja]
        · rw [if_neg hja, if_neg hja]
          by_cases hji : j = i
          · rw [if_pos hji, if_pos hji, hji]
          · rw [if_neg hji, if_neg hji]
            rfl
      rw [hstep, hreq]
    · intro b
      rw [← hhead b, ht']
      rfl

/-- **The queues, when a request has been filled into a free slot and added.** -/
theorem Queued.addRequest (h : Queued s q) (hfree : (s.request i).dev < 0) (hlt : i < nrRequest)
    (hdev : 0 ≤ r.dev) (hmaj : major r.dev = maj) :
    ∃ s', addRequest maj i (s.setRequest i fun _ => r) = some s' ∧
      Added (s.setRequest i fun _ => r) s' maj i (q maj) ∧
      Queued s' (Function.update q maj
        (place (s.setRequest i fun _ => r).slotsInOrder i (q maj))) := by
  obtain ⟨t, ht⟩ : ∃ t : Sys, t = s.setRequest i fun _ => r := ⟨_, rfl⟩
  have hreq : ∀ j, t.request j = if j = i then r else s.request j := by
    intro j
    rw [ht]
    exact Sys.request_setRequest _
  have hchain : ∀ maj', Chain t.next (t.currentRequest maj') (q maj') := by
    intro maj'
    have hcur : t.currentRequest = s.currentRequest := by rw [ht]; rfl
    rw [hcur]
    refine (h.chain maj').congr fun j hj => ?_
    rw [Sys.next, hreq, if_neg (ne_of_mem_of_not_mem hj (h.free hfree))]
    rfl
  rw [← ht]
  obtain ⟨s', hs', hadd⟩ := addRequest_added (hchain maj) (h.nodup maj) (h.free hfree) h.length_le
  refine ⟨s', hs', hadd, ⟨fun maj' => ?_, fun maj' => ?_, fun maj' j => ?_⟩⟩
  · by_cases hm : maj' = maj
    · rw [hm, Function.update_self]
      exact hadd.chain
    · rw [Function.update_of_ne hm, hadd.current maj' hm]
      refine (hchain maj').congr fun j hj => hadd.next j (fun hjm => hm (h.disjoint hj hjm)) ?_
      exact ne_of_mem_of_not_mem hj (h.free hfree)
  · by_cases hm : maj' = maj
    · rw [hm, Function.update_self, (place_perm i (q maj)).nodup_iff]
      exact List.nodup_cons.mpr ⟨h.free hfree, h.nodup maj⟩
    · rw [Function.update_of_ne hm]
      exact h.nodup maj'
  · have hmem : j ∈ Function.update q maj (place t.slotsInOrder i (q maj)) maj' ↔
        j ∈ q maj' ∨ (j = i ∧ maj' = maj) := by
      by_cases hm : maj' = maj
      · rw [hm, Function.update_self, (place_perm i (q maj)).mem_iff, List.mem_cons]
        tauto
      · rw [Function.update_of_ne hm]
        tauto
    rw [hmem, hadd.request j, hreq j]
    by_cases hji : j = i
    · rw [if_pos hji, hji]
      constructor
      · rintro (hm | ⟨-, rfl⟩)
        · exact absurd hm (h.free hfree)
        · exact ⟨hlt, hdev, hmaj⟩
      · rintro ⟨-, -, hm⟩
        exact Or.inr ⟨rfl, hm.symm.trans hmaj⟩
    · rw [if_neg hji, h.mem maj' j]
      tauto

/-! ### The end of a request -/

/-- **What `end_request` comes to.** -/
structure Ended (s s' : Sys) (maj i : ℕ) (uptodate : Bool) : Prop where
  current : s'.currentRequest = Function.update s.currentRequest maj (s.next i)
  next : s'.next = s.next
  request : ∀ j, s'.request j = if j = i then { s.request i with dev := -1 } else s.request j
  head : ∀ b, s'.head b = if b = (s.request i).bh then
    { s.head b with uptodate := uptodate, lock := false } else s.head b
  requestFn : s'.requestFn = s.requestFn

theorem endRequest_ended {up : Bool} (he : endRequest maj up s = some s') :
    ∃ i, s.currentRequest maj = some i ∧ Ended s s' maj i up := by
  obtain ⟨i, hi, rfl⟩ := Option.map_eq_some_iff.mp he
  have hnext : (s.setRequest i fun r => { r with dev := -1 }).next = s.next :=
    Sys.next_setRequest fun _ => rfl
  refine ⟨i, hi, ⟨?_, hnext, fun j => ?_, fun b => ?_, rfl⟩⟩
  · change Function.update s.currentRequest maj
      ((s.setRequest i fun r => { r with dev := -1 }).next i) = _
    rw [hnext]
  · exact Sys.request_setRequest (s := s) fun r => { r with dev := -1 }
  · change ((s.setHead (s.request i).bh fun h => { h with uptodate := up }).setHead
      (s.request i).bh fun h => { h with lock := false }).head b = _
    rw [Sys.head_setHead, Sys.head_setHead, Sys.head_setHead]
    split
    · next hb => rw [if_pos rfl, hb]
    · rfl

/-- **The queues, when a request has ended**: the first slot is off, and free. -/
theorem Queued.endRequest {up : Bool} (h : Queued s q) (he : endRequest maj up s = some s') :
    ∃ i rest, q maj = i :: rest ∧ Ended s s' maj i up ∧
      Queued s' (Function.update q maj rest) := by
  obtain ⟨i, hi, hend⟩ := endRequest_ended he
  have hc := h.chain maj
  rw [hi] at hc
  obtain ⟨rest, hq⟩ : ∃ rest, q maj = i :: rest := by
    cases hq : q maj with
    | nil =>
      rw [hq] at hc
      cases hc
    | cons j rest =>
      rw [hq] at hc
      obtain rfl := Option.some.inj hc.1
      exact ⟨rest, rfl⟩
  rw [hq] at hc
  have hnd := h.nodup maj
  rw [hq] at hnd
  have hother : ∀ maj', maj' ≠ maj → i ∉ q maj' := fun maj' hm hmem =>
    hm (h.disjoint hmem (hq ▸ List.mem_cons_self))
  refine ⟨i, rest, hq, hend, ⟨fun maj' => ?_, fun maj' => ?_, fun maj' j => ?_⟩⟩
  · rw [hend.next, hend.current]
    by_cases hm : maj' = maj
    · rw [hm, Function.update_self, Function.update_self]
      exact hc.2
    · rw [Function.update_of_ne hm, Function.update_of_ne hm]
      exact h.chain maj'
  · by_cases hm : maj' = maj
    · rw [hm, Function.update_self]
      exact (List.nodup_cons.mp hnd).2
    · rw [Function.update_of_ne hm]
      exact h.nodup maj'
  · have hmem : j ∈ Function.update q maj rest maj' ↔ j ∈ q maj' ∧ j ≠ i := by
      by_cases hm : maj' = maj
      · rw [hm, Function.update_self, hq, List.mem_cons]
        constructor
        · intro hj
          exact ⟨Or.inr hj, ne_of_mem_of_not_mem hj (List.nodup_cons.mp hnd).1⟩
        · rintro ⟨rfl | hj, hne⟩
          · exact absurd rfl hne
          · exact hj
      · rw [Function.update_of_ne hm]
        constructor
        · intro hj
          exact ⟨hj, ne_of_mem_of_not_mem hj (hother maj' hm)⟩
        · exact fun hj => hj.1
    rw [hmem, hend.request j, h.mem maj' j]
    by_cases hji : j = i
    · rw [if_pos hji]
      constructor
      · exact fun hj => absurd hji hj.2
      · rintro ⟨-, hd, -⟩
        have hneg : (0 : ℤ) ≤ -1 := hd
        omega
    · rw [if_neg hji]
      tauto

end Linux011.Block

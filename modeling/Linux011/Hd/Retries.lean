import Linux011.Hd.Driver
import Mathlib.Data.List.Perm.Basic

/-!
# How often a request is tried

The hard-disk driver ends a request with an error when it has failed seven times. Here it is
recorded how often the first request of the queue has failed, and which requests were ended with
`end_request(0)`, each with the number of its failures (`Linux011.Hd.Tally`).

`do_hd_request` makes sure that the two sectors of a request lie in the partition, and it does so
again for a request that is tried again. That request may have come one sector far; of the last
block of the partition one sector is left then, and what is looked at is that sector and the one
behind the partition. So it is ended at its next error, however seldom it has failed. This is the
only way (`Linux011.Hd.not_given_up_early_iff`).
-/

namespace Linux011.Hd

open Block (Request Cmd)

/-! ### The record -/

/-- `MAX_ERRORS` -/
def maxErrors : ℕ := 7

/-- **What is recorded**: how often the first request has failed, and the requests that were ended
with an error, with the number of their failures. -/
structure Tally where
  fails : ℕ
  lost : List (Entry × ℕ)

/-- `do_hd_request` ends a request at once. -/
def Rejected (D : Disks) (r : Request) : Prop :=
  5 * D.nrHd ≤ minor r.dev ∨ (D.hd (minor r.dev)).nrSects < (r.sector + 2) % 0x100000000

instance (D : Disks) (r : Request) : Decidable (Rejected D r) :=
  inferInstanceAs (Decidable (_ ∨ _))

namespace Tally

variable (g : Tally)

/-- The first request is ended with an error. -/
def lose (e : Entry) : Tally := ⟨0, (e, g.fails) :: g.lost⟩

/-- The first request fails: `bad_rw_intr`. -/
def fail (e : Entry) : Tally :=
  if maxErrors ≤ e.now.errors + 1 then { g with fails := g.fails + 1 }.lose e
  else { g with fails := g.fails + 1 }

/-- What a round of `do_hd_request` adds. -/
def round (D : Disks) (a : Answers) (s : State) : Tally :=
  match s.queue with
  | [] => g
  | e :: _ =>
    if Rejected D e.now then g.lose e
    else if s.reset ∨ s.recalibrate then g
    else if e.now.cmd = .write ∧ a.drq = false then g.fail e
    else g

/-- What an interrupt adds. -/
def handle (h : Handler) (bad : Bool) (s : State) : Tally :=
  match s.queue with
  | [] => g
  | e :: _ =>
    if bad then g.fail e
    else if h ≠ .recalIntr ∧ (State.moveOn e.now).nrSectors = 0 then { g with fails := 0 }
    else g

end Tally

/-- **`do_hd_request`**, recorded. -/
inductive Serve (D : Disks) : State → Tally → State → Tally → Prop
  | ret {s s' : State} {g : Tally} (a : Answers) (h : round D a s = .ret s') :
    Serve D s g s' (g.round D a s)
  | repeat_ {s t s' : State} {g g' : Tally} (a : Answers) (h : round D a s = .repeat_ t)
      (ht : Serve D t (g.round D a s) s' g') : Serve D s g s' g'

/-- **A request of two sectors** that lies in its partition. -/
structure Whole (D : Disks) (r : Request) : Prop where
  dev : minor r.dev < 5 * D.nrHd
  two : r.nrSectors = 2
  le : r.sector + 2 ≤ (D.hd (minor r.dev)).nrSects

/-- **An error would come too early**: of the last block of a partition, behind which there is no
sector more, one sector is left, and the request has not failed six times yet. -/
def Early (D : Disks) (s : State) (g : Tally) : Prop :=
  ∃ e q, s.queue = e :: q ∧ Whole D e.made ∧
    (D.hd (minor e.made.dev)).nrSects < (e.made.sector + 3) % 0x100000000 ∧
      e.now.nrSectors = 1 ∧ g.fails + 1 < maxErrors

/-- **A step**, recorded; if it is to be `fine`, no error comes too early. A request that is made
has no errors. -/
inductive Recorded (D : Disks) (fine : Bool) : State × Tally → State × Tally → Prop
  | add {s : State} {g : Tally} {e : Entry} {q₁ q₂ : List Entry} (r : Request) (hr : r.errors = 0)
      (hq : s.queue = e :: (q₁ ++ q₂)) :
    Recorded D fine (s, g) ({ s with queue := e :: (q₁ ++ .new r :: q₂) }, g)
  | first {s s' : State} {g g' : Tally} (r : Request) (hr : r.errors = 0) (hq : s.queue = [])
      (h : Serve D { s with queue := [.new r] } { g with fails := 0 } s' g') :
    Recorded D fine (s, g) (s', g')
  | interrupt {s t : State} {g : Tally} {h : Handler} (bad junk : Bool) (hh : s.doHd = some h)
      (hdue : bad = false → s.Due h) (hfine : fine = true → bad = true → ¬Early D s g)
      (ht : s.handle h bad junk = some (false, t)) :
    Recorded D fine (s, g) (t, g.handle h bad s)
  | interruptNext {s t s' : State} {g g' : Tally} {h : Handler} (bad junk : Bool)
      (hh : s.doHd = some h) (hdue : bad = false → s.Due h)
      (hfine : fine = true → bad = true → ¬Early D s g)
      (ht : s.handle h bad junk = some (true, t))
      (hnext : Serve D t (g.handle h bad s) s' g') :
    Recorded D fine (s, g) (s', g')

/-- **No request is given up early** that lies in its partition. -/
def Good (D : Disks) (g : Tally) : Prop := ∀ p ∈ g.lost, Whole D p.1.made → maxErrors ≤ p.2

variable {D : Disks} {s t s' : State} {g g' : Tally} {e : Entry} {q : List Entry} {fine : Bool}

/-! ### What the record is a record of -/

/-! ### One failure, one round, one interrupt -/

/-- One error more. -/
def Entry.bump (e : Entry) : Entry :=
  { e with now := { e.now with errors := e.now.errors + 1 } }

/-- What is left of the queue when its first request has failed. -/
def failed (e : Entry) (q : List Entry) : List Entry :=
  if maxErrors ≤ e.now.errors + 1 then q else e.bump :: q

/-- **`bad_rw_intr`** -/
theorem badRwIntr_cases {junk : Bool} (ht : s.badRwIntr junk = some t) :
    ∃ e q, s.queue = e :: q ∧ t.queue = failed e q ∧ t.done = s.done ∧ t.doHd = s.doHd := by
  rw [State.badRwIntr] at ht
  rcases hq : s.queue with _ | ⟨e, q⟩
  · rw [hq] at ht
    cases ht
  refine ⟨e, q, rfl, ?_⟩
  have hreset : ∀ (b : Bool) (u : State), u.queue = failed e q → u.done = s.done →
      u.doHd = s.doHd → some (if b then { u with reset := true } else u) = some t →
        t.queue = failed e q ∧ t.done = s.done ∧ t.doHd = s.doHd := by
    intro b u hqueue hdone hdo heq
    obtain rfl := Option.some.inj heq
    split_ifs
    · exact ⟨hqueue, hdone, hdo⟩
    · exact ⟨hqueue, hdone, hdo⟩
  rw [hq, State.setCurrent, hq] at ht
  dsimp only at ht
  by_cases hmax : maxErrors ≤ e.now.errors + 1
  · rw [if_pos (show 7 ≤ e.now.errors + 1 from hmax), State.endRequest] at ht
    exact hreset _ { s with queue := q } (if_pos hmax).symm rfl rfl ht
  · rw [if_neg (show ¬7 ≤ e.now.errors + 1 from hmax)] at ht
    exact hreset _ { s with queue := e.bump :: q } (if_neg hmax).symm rfl rfl ht

theorem hdOut_cases {ready : Bool} {drive nsect sect head cyl : ℕ} {win : Win} {h : Handler}
    (ht : s.hdOut D ready drive nsect sect head cyl win h = some t) :
    t.queue = s.queue ∧ t.done = s.done := by
  rw [State.hdOut] at ht
  split_ifs at ht
  obtain rfl := Option.some.inj ht
  exact ⟨rfl, rfl⟩

theorem portWrite_cases (s : State) :
    s.portWrite.queue = s.queue ∧ s.portWrite.done = s.done ∧ s.portWrite.doHd = s.doHd := by
  rw [State.portWrite]
  split
  · exact ⟨rfl, rfl, rfl⟩
  · next hq => exact ⟨rfl, rfl, rfl⟩

/-- **What a round does** with the first request: it stays as it is, and the round returns; or it
is ended at once; or it fails. -/
def Does (D : Disks) (a : Answers) (s : State) (e : Entry) (q : List Entry) : Round → Prop
  | .ret t => t.queue = s.queue ∧ t.done = s.done ∧ ¬Rejected D e.now ∧
      ∀ g : Tally, g.round D a s = g
  | .repeat_ t => t.done = s.done ∧
      ((Rejected D e.now ∧ t.queue = q ∧ ∀ g : Tally, g.round D a s = g.lose e) ∨
        (¬Rejected D e.now ∧ t.queue = failed e q ∧ ∀ g : Tally, g.round D a s = g.fail e))
  | .panic => True

theorem Does.of {a : Answers} {o : Option State} {f : State → Round}
    (h : ∀ t, o = some t → Does D a s e q (f t)) : Does D a s e q (Round.of f o) := by
  rcases o with _ | t
  · trivial
  · exact h t rfl

/-- **A round of `do_hd_request`** -/
theorem round_does (a : Answers) (hq : s.queue = e :: q) : Does D a s e q (round D a s) := by
  have htally : ∀ g : Tally, g.round D a s =
      if Rejected D e.now then g.lose e
      else if s.reset ∨ s.recalibrate then g
      else if e.now.cmd = .write ∧ a.drq = false then g.fail e
      else g := by
    intro g
    rw [Tally.round, hq]
  rw [round, hq]
  dsimp only
  by_cases hmajor : Block.major e.now.dev ≠ 3
  · rw [if_pos hmajor]
    trivial
  rw [if_neg hmajor]
  by_cases hreject : Rejected D e.now
  · rw [if_pos (show _ ∨ _ from hreject)]
    refine Does.of fun t ht => ?_
    rw [State.endRequest, hq] at ht
    obtain rfl := Option.some.inj ht
    refine ⟨rfl, Or.inl ⟨hreject, rfl, fun g => ?_⟩⟩
    rw [htally, if_pos hreject]
  rw [if_neg (show ¬(_ ∨ _) from hreject)]
  by_cases hreset : s.reset = true
  · rw [if_pos hreset]
    refine Does.of fun t ht => ?_
    obtain ⟨hqueue, hdone⟩ := hdOut_cases ht
    refine ⟨hqueue.trans hq.symm, hdone, hreject, fun g => ?_⟩
    rw [htally, if_neg hreject, if_pos (Or.inl hreset)]
  rw [if_neg hreset]
  by_cases hrecal : s.recalibrate = true
  · rw [if_pos hrecal]
    refine Does.of fun t ht => ?_
    obtain ⟨hqueue, hdone⟩ := hdOut_cases ht
    refine ⟨hqueue.trans hq.symm, hdone, hreject, fun g => ?_⟩
    rw [htally, if_neg hreject, if_pos (Or.inr hrecal)]
  rw [if_neg hrecal]
  -- a command to read or write
  have hplain : ¬(s.reset = true ∨ s.recalibrate = true) := not_or.mpr ⟨hreset, hrecal⟩
  split
  · next hcmd =>
    refine Does.of fun t ht => ?_
    obtain ⟨hqueue, hdone⟩ := hdOut_cases ht
    by_cases hdrq : a.drq = true
    · rw [if_pos hdrq]
      obtain ⟨hport, hport', -⟩ := portWrite_cases t
      refine ⟨hport.trans (hqueue.trans hq.symm), hport'.trans hdone, hreject, fun g => ?_⟩
      rw [htally, if_neg hreject, if_neg hplain, if_neg fun h => by simp [hdrq] at h]
    · rw [if_neg hdrq]
      refine Does.of fun u hu => ?_
      obtain ⟨e', q', hq', hqueue', hdone', -⟩ := badRwIntr_cases hu
      obtain ⟨rfl, rfl⟩ := List.cons.inj (hq'.symm.trans hqueue)
      refine ⟨hdone'.trans hdone, Or.inr ⟨hreject, hqueue', fun g => ?_⟩⟩
      rw [htally, if_neg hreject, if_neg hplain, if_pos ⟨hcmd, Bool.not_eq_true _ ▸ hdrq⟩]
  · next hcmd =>
    refine Does.of fun t ht => ?_
    obtain ⟨hqueue, hdone⟩ := hdOut_cases ht
    refine ⟨hqueue.trans hq.symm, hdone, hreject, fun g => ?_⟩
    rw [htally, if_neg hreject, if_neg hplain, if_neg fun h => by simp [hcmd] at h]

/-- **What a good interrupt does** with the first request: a sector less is to be transferred, or
the request is done. -/
structure Moved (s t : State) (next : Bool) (e : Entry) (q : List Entry) : Prop where
  queue : s.queue = e :: q
  cases : ((State.moveOn e.now).nrSectors ≠ 0 ∧ next = false ∧ t.done = s.done ∧
      t.doHd ≠ some .recalIntr ∧ ∃ e', t.queue = e' :: q ∧ e'.made = e.made ∧
        ∃ n ≤ e.now.errors, e'.now = State.moveOn { e.now with errors := n }) ∨
    ((State.moveOn e.now).nrSectors = 0 ∧ next = true ∧ t.queue = q ∧
      ∃ e', e'.made = e.made ∧ t.done = e' :: s.done)

/-- A change of the first request. -/
theorem setCurrent_cases (hq : s.queue = e :: q) (f : Entry → Entry) :
    s.setCurrent f = { s with queue := f e :: q } := by
  rw [State.setCurrent, hq]

/-- Something has been transferred. -/
theorem portRead_cases (hq : s.queue = e :: q) : ∃ e', s.portRead.queue = e' :: q ∧
    e'.made = e.made ∧ e'.now = e.now ∧ s.portRead.done = s.done := by
  rw [State.portRead]
  split
  · exact ⟨e, hq, rfl, rfl, rfl⟩
  · dsimp only
    rw [setCurrent_cases hq]
    exact ⟨_, rfl, rfl, rfl, rfl⟩

theorem written_cases (hq : s.queue = e :: q) : ∃ e', s.written.queue = e' :: q ∧
    e'.made = e.made ∧ e'.now = e.now ∧ s.written.done = s.done := by
  rw [State.written]
  split
  · exact ⟨e, hq, rfl, rfl, rfl⟩
  split
  · exact ⟨e, hq, rfl, rfl, rfl⟩
  · dsimp only
    rw [setCurrent_cases hq]
    exact ⟨_, rfl, rfl, rfl, rfl⟩

theorem written_nil (hq : s.queue = []) : s.written.queue = [] := by
  rw [State.written]
  split
  · exact hq
  split
  · exact hq
  · rw [State.setCurrent, hq]
    exact hq

/-- **`read_intr`**, when all went well. -/
theorem readIntr_moved {junk next : Bool} (ht : s.readIntr false junk = some (next, t)) :
    ∃ e q, Moved s t next e q := by
  rw [State.readIntr, if_neg Bool.false_ne_true] at ht
  rcases hq : s.queue with _ | ⟨e, q⟩
  · rw [hq] at ht
    cases ht
  refine ⟨e, q, hq, ?_⟩
  obtain ⟨e', hport, hmade, hnow, hdone⟩ := portRead_cases hq
  rw [hq] at ht
  dsimp only at ht
  rw [setCurrent_cases hport] at ht
  split_ifs at ht with hleft
  · obtain ⟨rfl, rfl⟩ := Prod.mk.inj (Option.some.inj ht)
    exact Or.inl ⟨hleft, rfl, hdone, by simp, _, rfl, hmade, 0, Nat.zero_le _, by rw [hnow]⟩
  · rw [State.endRequest] at ht
    obtain ⟨rfl, rfl⟩ := Prod.mk.inj (Option.some.inj ht)
    refine Or.inr ⟨not_not.mp hleft, rfl, rfl,
      { e' with now := State.moveOn { e'.now with errors := 0 } }, hmade, ?_⟩
    rw [← hdone]
    rfl

/-- **`write_intr`**, when all went well. -/
theorem writeIntr_moved {junk next : Bool} (ht : s.writeIntr false junk = some (next, t)) :
    ∃ e q, Moved s t next e q := by
  rw [State.writeIntr, if_neg Bool.false_ne_true] at ht
  rcases hq : s.queue with _ | ⟨e, q⟩
  · rw [hq] at ht
    cases ht
  refine ⟨e, q, hq, ?_⟩
  rw [hq] at ht
  dsimp only at ht
  rw [setCurrent_cases hq, setCurrent_cases hq] at ht
  split_ifs at ht with hleft
  · obtain ⟨rfl, rfl⟩ := Prod.mk.inj (Option.some.inj ht)
    obtain ⟨hqueue, hdone, hdo⟩ := portWrite_cases
      { s with queue := { e with now := State.moveOn e.now } :: q, doHd := some .writeIntr }
    refine Or.inl ⟨hleft, rfl, hdone, ?_, _, hqueue, rfl, e.now.errors, le_rfl, rfl⟩
    rw [hdo]
    simp
  · rw [State.endRequest] at ht
    obtain ⟨rfl, rfl⟩ := Prod.mk.inj (Option.some.inj ht)
    exact Or.inr ⟨not_not.mp hleft, rfl, rfl, { e with now := { e.now with nrSectors := 0 } }, rfl,
      rfl⟩

/-- **An interrupt**: the first request fails, or there is nothing about it, or it moves on. -/
theorem handle_cases {h : Handler} {bad junk next : Bool}
    (ht : s.handle h bad junk = some (next, t)) :
    (bad = true ∧ next = true ∧ t.done = s.done ∧ t.doHd = none ∧
      ∃ e q, s.queue = e :: q ∧ t.queue = failed e q) ∨
    (bad = false ∧ h = .recalIntr ∧ next = true ∧ t.done = s.done ∧ t.queue = s.queue) ∨
    (bad = false ∧ h ≠ .recalIntr ∧ ∃ e q, Moved s t next e q) := by
  rcases bad with _ | _
  · -- all went well
    right
    rcases h with _ | _ | _
    · refine Or.inr ⟨rfl, by simp, ?_⟩
      obtain ⟨e, q, hm⟩ := readIntr_moved (s := { s with doHd := none }) ht
      exact ⟨e, q, hm.queue, hm.cases⟩
    · refine Or.inr ⟨rfl, by simp, ?_⟩
      obtain ⟨e, q, hm⟩ := writeIntr_moved (s := ({ s with doHd := none } : State).written) ht
      rcases hq : s.queue with _ | ⟨e', q'⟩
      · have hnil := written_nil (s := { s with doHd := none }) hq
        cases hnil.symm.trans hm.queue
      · obtain ⟨w, hw, hmade, hnow, hdone⟩ := written_cases (s := { s with doHd := none }) hq
        obtain ⟨rfl, rfl⟩ := List.cons.inj (hw.symm.trans hm.queue)
        have hcases := hm.cases
        rw [hmade, hnow, hdone] at hcases
        exact ⟨e', q', hq, hcases⟩
    · obtain ⟨rfl, rfl⟩ := Prod.mk.inj (Option.some.inj ht)
      exact Or.inl ⟨rfl, rfl, rfl, rfl, rfl⟩
  · left
    have hbad : ∃ u, ({ s with doHd := none, active := none } : State).badRwIntr junk = some u ∧
        next = true ∧ t = u := by
      have hmap : (({ s with doHd := none, active := none } : State).badRwIntr junk).map
          (fun s => (true, s)) = some (next, t) := by
        rcases h with _ | _ | _
        · exact ht
        · exact ht
        · exact ht
      obtain ⟨u, hu, heq⟩ := Option.map_eq_some_iff.mp hmap
      obtain ⟨rfl, rfl⟩ := Prod.mk.inj heq
      exact ⟨u, hu, rfl, rfl⟩
    obtain ⟨u, hu, rfl, rfl⟩ := hbad
    obtain ⟨e, q, hq, hqueue, hdone, hdo⟩ := badRwIntr_cases hu
    exact ⟨rfl, rfl, hdone, hdo, e, q, hq, hqueue⟩

/-! ### What is kept -/

/-- A request that has not been tried. -/
structure Fresh (e : Entry) : Prop where
  now : e.now = e.made
  errors : e.made.errors = 0

/-- **A request that has been tried**, and has failed `n` times: of two sectors it has come one far
or none. -/
structure Tried (D : Disks) (n : ℕ) (e : Entry) : Prop where
  dev : e.now.dev = e.made.dev
  errors : e.now.errors ≤ n
  stage : Whole D e.made → e.now.sector = e.made.sector ∧ e.now.nrSectors = 2 ∨
    e.now.sector = e.made.sector + 1 ∧ e.now.nrSectors = 1

/-- **The queue**, between two calls of `do_hd_request`. -/
structure Queued (D : Disks) (s : State) (g : Tally) : Prop where
  first : ∀ e q, s.queue = e :: q → Tried D g.fails e
  rest : ∀ e q, s.queue = e :: q → ∀ e' ∈ q, Fresh e'

/-- **What is kept.** While the drive recalibrates, the first request has passed the check. -/
structure Checked (D : Disks) (s : State) (g : Tally) : Prop extends Queued D s g where
  recal : s.doHd = some .recalIntr → ∀ e q, s.queue = e :: q → ¬Rejected D e.now

theorem Fresh.tried (h : Fresh e) (n : ℕ) : Tried D n e := by
  refine ⟨?_, ?_, fun hw => Or.inl ?_⟩
  · rw [h.now]
  · rw [h.now, h.errors]
    exact Nat.zero_le n
  · rw [h.now]
    exact ⟨rfl, hw.two⟩

theorem Fresh.new {r : Request} (h : r.errors = 0) : Fresh (.new r) := ⟨rfl, h⟩

/-- The first request is gone. -/
theorem Queued.tail (h : Queued D s g) (hq : s.queue = e :: q) (ht : t.queue = q) (g' : Tally) :
    Queued D t g' := by
  constructor
  · intro e' q' hq'
    exact (h.rest e q hq e' (by rw [← ht, hq']; exact List.mem_cons_self)).tried _
  · intro e' q' hq' c hc
    exact h.rest e q hq c (by rw [← ht, hq']; exact List.mem_cons_of_mem e' hc)

/-- The first request is another. -/
theorem Queued.head (h : Queued D s g) (hq : s.queue = e :: q) {e' : Entry}
    (ht : t.queue = e' :: q) (he : Tried D g'.fails e') : Queued D t g' := by
  constructor
  · intro c q' hq'
    obtain ⟨rfl, rfl⟩ := List.cons.inj (hq'.symm.trans ht)
    exact he
  · intro c q' hq' c' hc'
    obtain ⟨rfl, rfl⟩ := List.cons.inj (hq'.symm.trans ht)
    exact h.rest e q' hq c' hc'

/-- **The first request fails.** -/
theorem Queued.fail (h : Queued D s g) (hq : s.queue = e :: q) (ht : t.queue = failed e q) :
    Queued D t (g.fail e) := by
  rw [failed] at ht
  rw [Tally.fail]
  have htried := h.first e q hq
  split_ifs at ht ⊢ with hmax
  · exact h.tail hq ht _
  · exact h.head hq ht ⟨htried.dev, Nat.succ_le_succ htried.errors, htried.stage⟩

/-- A request that passes the check at first. -/
theorem Whole.not_rejected (hD : ∀ dev, (D.hd dev).nrSects < 0x100000000) {r : Request}
    (h : Whole D r) : ¬Rejected D r := by
  have hle := h.le
  have hsize := hD (minor r.dev)
  rintro (hdev | hend)
  · exact absurd h.dev (Nat.not_lt.mpr hdev)
  · rw [Nat.mod_eq_of_lt (by omega)] at hend
    omega

theorem Fresh.not_rejected (hD : ∀ dev, (D.hd dev).nrSects < 0x100000000) (h : Fresh e)
    (hw : Whole D e.made) : ¬Rejected D e.now := by
  rw [h.now]
  exact hw.not_rejected hD

/-- **A request is rejected** when it is tried again for its last sector, which is the last of the
partition. -/
theorem Tried.rejected_iff (hD : ∀ dev, (D.hd dev).nrSects < 0x100000000) {n : ℕ}
    (h : Tried D n e) (hw : Whole D e.made) : Rejected D e.now ↔
      (D.hd (minor e.made.dev)).nrSects < (e.made.sector + 3) % 0x100000000 ∧
        e.now.nrSectors = 1 := by
  have hle := hw.le
  have hsize := hD (minor e.made.dev)
  have hdev : ¬5 * D.nrHd ≤ minor e.made.dev := Nat.not_le.mpr hw.dev
  rw [Rejected, h.dev, or_iff_right hdev]
  rcases h.stage hw with ⟨hsector, hleft⟩ | ⟨hsector, hleft⟩
  · rw [hsector, hleft, Nat.mod_eq_of_lt (by omega)]
    omega
  · rw [hsector, hleft, Nat.add_assoc]
    exact (and_iff_left rfl).symm

/-- One sector more has been transferred. -/
theorem Tried.moveOn (hD : ∀ dev, (D.hd dev).nrSects < 0x100000000) {n m : ℕ} (h : Tried D n e)
    {e' : Entry} (hmade : e'.made = e.made) (hm : m ≤ e.now.errors)
    (hnow : e'.now = State.moveOn { e.now with errors := m })
    (hleft : (State.moveOn e.now).nrSectors ≠ 0) : Tried D n e' := by
  refine ⟨?_, ?_, fun hw => Or.inr ?_⟩
  · rw [hnow, hmade]
    exact h.dev
  · rw [hnow]
    exact hm.trans h.errors
  · rw [hmade] at hw
    have hle := hw.le
    have hsize := hD (minor e.made.dev)
    change (e.now.nrSectors + 0xffffffff) % 0x100000000 ≠ 0 at hleft
    rw [hnow, hmade]
    change (e.now.sector + 1) % 0x100000000 = _ ∧
      (e.now.nrSectors + 0xffffffff) % 0x100000000 = 1
    rcases h.stage hw with ⟨hsector, htwo⟩ | ⟨hsector, hone⟩
    · rw [hsector, htwo]
      omega
    · rw [hone] at hleft
      exact absurd rfl hleft

/-! ### `do_hd_request` -/

/-- The list of what was given up grows. -/
theorem lost_fail (e : Entry) : g.lost <:+ (g.fail e).lost := by
  rw [Tally.fail]
  split_ifs
  · exact List.suffix_cons _ _
  · exact List.suffix_rfl

theorem lost_round (a : Answers) : g.lost <:+ (g.round D a s).lost := by
  rw [Tally.round]
  split
  · exact List.suffix_rfl
  split_ifs
  · exact List.suffix_cons _ _
  · exact List.suffix_rfl
  · exact lost_fail _
  · exact List.suffix_rfl

theorem Serve.lost (h : Serve D s g s' g') : g.lost <:+ g'.lost := by
  induction h with
  | ret a h => exact lost_round a
  | repeat_ a h _ ih => exact (lost_round a).trans ih

/-- **It is all right to call `do_hd_request`**: if it rejects the first request, that has failed
often enough. -/
def Servable (D : Disks) (s : State) (g : Tally) : Prop :=
  ∀ e q, s.queue = e :: q → Whole D e.made → Rejected D e.now → maxErrors ≤ g.fails

/-- The first request is one that has not been tried. -/
theorem Queued.servable_tail (hD : ∀ dev, (D.hd dev).nrSects < 0x100000000) (h : Queued D s g)
    (hq : s.queue = e :: q) (ht : t.queue = q) (g' : Tally) : Servable D t g' := by
  intro c q' hq' hw hr
  have hc := h.rest e q hq c (by rw [← ht, hq']; exact List.mem_cons_self)
  exact absurd hr (hc.not_rejected hD hw)

theorem good_lose (hg : Good D g) (he : Whole D e.made → maxErrors ≤ g.fails) :
    Good D (g.lose e) := by
  intro p hp hw
  rcases List.mem_cons.mp hp with rfl | hp
  · exact he hw
  · exact hg p hp hw

/-- A request that fails is given up only when it has failed often enough. -/
theorem Queued.good_fail (h : Queued D s g) (hq : s.queue = e :: q) (hg : Good D g) :
    Good D (g.fail e) := by
  rw [Tally.fail]
  split_ifs with hmax
  · exact good_lose hg fun _ => hmax.trans (Nat.succ_le_succ (h.first e q hq).errors)
  · exact hg

/-- **`do_hd_request`** keeps the queue, and returns with a first request that has passed. -/
theorem Serve.queued (hD : ∀ dev, (D.hd dev).nrSects < 0x100000000) (h : Serve D s g s' g')
    (hk : Queued D s g) :
    Queued D s' g' ∧ (∀ e q, s'.queue = e :: q → ¬Rejected D e.now) ∧
      (Servable D s g → Good D g → Good D g') := by
  induction h with
  | @ret s s' g a h =>
    rcases hq : s.queue with _ | ⟨e, q⟩
    · rw [Hd.round, hq] at h
      obtain rfl := Round.ret.inj h
      rw [Tally.round, hq]
      exact ⟨hk, by rintro e q ⟨⟩, fun _ hg => hg⟩
    · have hdoes := round_does (D := D) a hq
      rw [h] at hdoes
      obtain ⟨hqueue, -, hpass, htally⟩ := hdoes
      rw [htally]
      refine ⟨⟨?_, ?_⟩, ?_, fun _ hg => hg⟩
      · rw [hqueue]
        exact hk.first
      · rw [hqueue]
        exact hk.rest
      · intro e' q' hq'
        obtain ⟨rfl, rfl⟩ := List.cons.inj (hq'.symm.trans (hqueue.trans hq))
        exact hpass
  | @repeat_ s t s' g g' a h _ ih =>
    rcases hq : s.queue with _ | ⟨e, q⟩
    · rw [Hd.round, hq] at h
      cases h
    have hdoes := round_does (D := D) a hq
    rw [h] at hdoes
    obtain ⟨-, ⟨hreject, hqueue, htally⟩ | ⟨hpass, hqueue, htally⟩⟩ := hdoes
    · -- the request is given up, and the next one is fresh
      rw [htally] at ih
      obtain ⟨hk', hpass', hgood⟩ := ih (hk.tail hq hqueue _)
      refine ⟨hk', hpass', fun hs hg => hgood (hk.servable_tail hD hq hqueue _) ?_⟩
      exact good_lose hg fun hw => hs e q hq hw hreject
    · -- the request fails where it has passed
      rw [htally] at ih
      obtain ⟨hk', hpass', hgood⟩ := ih (hk.fail hq hqueue)
      refine ⟨hk', hpass', fun _ hg => hgood ?_ (hk.good_fail hq hg)⟩
      rw [failed] at hqueue
      split_ifs at hqueue with hmax
      · exact hk.servable_tail hD hq hqueue _
      · intro c q' hq' _ hr
        obtain ⟨rfl, rfl⟩ := List.cons.inj (hq'.symm.trans hqueue)
        exact absurd hr hpass

/-- A request that is rejected at once is lost with the failures it has. -/
theorem Serve.lose (h : Serve D s g s' g') (hq : s.queue = e :: q) (hr : Rejected D e.now) :
    (e, g.fails) ∈ g'.lost := by
  cases h with
  | ret a h =>
    have hdoes := round_does (D := D) a hq
    rw [h] at hdoes
    exact absurd hr hdoes.2.2.1
  | repeat_ a h ht =>
    have hdoes := round_does (D := D) a hq
    rw [h] at hdoes
    obtain ⟨-, ⟨-, -, htally⟩ | ⟨hpass, -, -⟩⟩ := hdoes
    · refine ht.lost.subset ?_
      rw [htally]
      exact List.mem_cons_self
    · exact absurd hr hpass

/-! ### The interrupt -/

theorem handle_bad (hq : s.queue = e :: q) (h : Handler) : g.handle h true s = g.fail e := by
  rw [Tally.handle, hq]
  exact if_pos rfl

/-- **An interrupt** keeps the queue; unless the error comes too early, `do_hd_request` may be
called behind it. -/
theorem Checked.handle (hD : ∀ dev, (D.hd dev).nrSects < 0x100000000) (hk : Checked D s g)
    {h : Handler} {bad junk next : Bool} (hh : s.doHd = some h)
    (ht : s.handle h bad junk = some (next, t)) :
    Queued D t (g.handle h bad s) ∧ (next = false → t.doHd ≠ some .recalIntr) ∧
      (Good D g → Good D (g.handle h bad s)) ∧
      ((bad = true → ¬Early D s g) → next = true → Servable D t (g.handle h bad s)) := by
  obtain ⟨rfl, rfl, -, -, e, q, hq, hqueue⟩ | ⟨rfl, rfl, rfl, -, hqueue⟩ |
    ⟨rfl, hne, e, q, hq, hcases⟩ := handle_cases ht
  · -- the first request fails
    rw [handle_bad hq]
    refine ⟨hk.fail hq hqueue, fun h => Bool.noConfusion h, hk.good_fail hq, fun hfine _ => ?_⟩
    have hearly := hfine rfl
    rw [failed] at hqueue
    rw [Tally.fail]
    split_ifs at hqueue ⊢ with hmax
    · exact hk.servable_tail hD hq hqueue _
    · intro c q' hq' hw hr
      obtain ⟨rfl, rfl⟩ := List.cons.inj (hq'.symm.trans hqueue)
      obtain ⟨hlast, hone⟩ := ((hk.first e q' hq).rejected_iff hD hw).mp hr
      by_contra hfew
      exact hearly ⟨e, q', hq, hw, hlast, hone, Nat.lt_of_not_le hfew⟩
  · -- the drive has recalibrated
    have htally : g.handle .recalIntr false s = g := by
      rw [Tally.handle]
      split
      · rfl
      · rw [if_neg Bool.false_ne_true, if_neg fun h => h.1 rfl]
    rw [htally]
    refine ⟨⟨?_, ?_⟩, fun h => Bool.noConfusion h, fun hg => hg, fun _ _ c q' hq' _ hr => ?_⟩
    · rw [hqueue]
      exact hk.first
    · rw [hqueue]
      exact hk.rest
    · rw [hqueue] at hq'
      exact absurd hr (hk.recal hh c q' hq')
  · -- a sector has been transferred
    have htally : g.handle h false s =
        if (State.moveOn e.now).nrSectors = 0 then { g with fails := 0 } else g := by
      rw [Tally.handle, hq]
      dsimp only
      rw [if_neg Bool.false_ne_true]
      exact if_congr (and_iff_right hne) rfl rfl
    rw [htally]
    obtain ⟨hleft, rfl, -, hdo, e', hqueue, hmade, m, hm, hnow⟩ | ⟨hleft, rfl, hqueue, -⟩ := hcases
    · rw [if_neg hleft]
      refine ⟨hk.head hq hqueue ?_, fun _ => hdo, fun hg => hg, fun _ h => Bool.noConfusion h⟩
      exact (hk.first e q hq).moveOn hD hmade hm hnow hleft
    · rw [if_pos hleft]
      refine ⟨hk.tail hq hqueue _, fun h => Bool.noConfusion h, fun hg => hg, fun _ _ => ?_⟩
      exact hk.servable_tail hD hq hqueue _

/-! ### No request is lost from the record -/

/-! ### Runs -/

/-- **One step**: what is kept, and that a fine one gives no request up early. -/
theorem Recorded.checked (hD : ∀ dev, (D.hd dev).nrSects < 0x100000000)
    (h : Recorded D fine (s, g) (s', g')) (hk : Checked D s g) :
    Checked D s' g' ∧ (fine = true → Good D g → Good D g') := by
  cases h with
  | @add _ _ e q₁ q₂ r hr hq =>
    refine ⟨⟨⟨?_, ?_⟩, ?_⟩, fun _ hg => hg⟩
    · intro c q' hq'
      obtain ⟨rfl, rfl⟩ := List.cons.inj hq'
      exact hk.first _ _ hq
    · intro c q' hq' c' hc'
      obtain ⟨rfl, rfl⟩ := List.cons.inj hq'
      rcases List.mem_append.mp hc' with hc' | hc'
      · exact hk.rest _ _ hq c' (List.mem_append_left q₂ hc')
      · rcases List.mem_cons.mp hc' with rfl | hc'
        · exact .new hr
        · exact hk.rest _ _ hq c' (List.mem_append_right q₁ hc')
    · intro hdo c q' hq'
      obtain ⟨rfl, rfl⟩ := List.cons.inj hq'
      exact hk.recal hdo _ _ hq
  | first r hr hq h =>
    have hqueued : Queued D { s with queue := [.new r] } { g with fails := 0 } := by
      constructor
      · intro c q' hq'
        obtain ⟨rfl, rfl⟩ := List.cons.inj hq'
        exact (Fresh.new hr).tried _
      · intro c q' hq' c' hc'
        obtain ⟨rfl, rfl⟩ := List.cons.inj hq'
        exact absurd hc' List.not_mem_nil
    obtain ⟨hk', hpass, hgood⟩ := h.queued hD hqueued
    refine ⟨⟨hk', fun _ => hpass⟩, fun _ hg => hgood ?_ hg⟩
    intro c q' hq' hw hrej
    obtain ⟨rfl, rfl⟩ := List.cons.inj hq'
    exact absurd hrej ((Fresh.new hr).not_rejected hD hw)
  | interrupt bad junk hh hdue hfine ht =>
    obtain ⟨hk', hdo, hgood, -⟩ := hk.handle hD hh ht
    exact ⟨⟨hk', fun h => absurd h (hdo rfl)⟩, fun _ => hgood⟩
  | interruptNext bad junk hh hdue hfine ht hnext =>
    obtain ⟨hk', -, hgood, hserve⟩ := hk.handle hD hh ht
    obtain ⟨hk'', hpass, hgood'⟩ := hnext.queued hD hk'
    exact ⟨⟨hk'', fun _ => hpass⟩, fun hf hg => hgood' (hserve (hfine hf) rfl) (hgood hg)⟩

/-- **An error that comes too early** has the request given up. -/
theorem Early.lost (hD : ∀ dev, (D.hd dev).nrSects < 0x100000000) (hk : Checked D s g)
    (he : Early D s g) {h : Handler} {junk : Bool} (ht : s.handle h true junk = some (true, t))
    (hnext : Serve D t (g.handle h true s) s' g') : ¬Good D g' := by
  obtain ⟨e, q, hq, hw, hlast, hone, hfew⟩ := he
  obtain ⟨-, -, -, -, e', q', hq', hqueue⟩ | ⟨hbad, -⟩ | ⟨hbad, -⟩ := handle_cases ht
  · obtain ⟨rfl, rfl⟩ := List.cons.inj (hq'.symm.trans hq)
    have htried := hk.first e' q' hq
    have hmax : ¬maxErrors ≤ e'.now.errors + 1 := by
      have herrors := htried.errors
      omega
    rw [failed, if_neg hmax] at hqueue
    rw [handle_bad hq, Tally.fail, if_neg hmax] at hnext
    have hreject : Rejected D e'.bump.now := (htried.rejected_iff hD hw).mpr ⟨hlast, hone⟩
    intro hg
    exact absurd (hg _ (hnext.lose hqueue hreject) hw) (Nat.not_le.mpr hfew)
  · cases hbad
  · cases hbad

/-- The list of what was given up grows. -/
theorem Recorded.lost (h : Recorded D fine (s, g) (s', g')) : g.lost <:+ g'.lost := by
  have hhandle : ∀ h bad, g.lost <:+ (g.handle h bad s).lost := by
    intro h bad
    rw [Tally.handle]
    split
    · exact List.suffix_rfl
    split_ifs
    · exact lost_fail _
    · exact List.suffix_rfl
    · exact List.suffix_rfl
  cases h with
  | add r hr hq => exact List.suffix_rfl
  | first r hr hq h => exact h.lost
  | interrupt bad junk hh hdue hfine ht => exact hhandle _ _
  | interruptNext bad junk hh hdue hfine ht hnext => exact (hhandle _ _).trans hnext.lost

/-- **A step is fine** if no request has been given up early behind it. -/
theorem Recorded.fine_of_good (hD : ∀ dev, (D.hd dev).nrSects < 0x100000000) (hk : Checked D s g)
    (h : Recorded D false (s, g) (s', g')) (hg : Good D g') : Recorded D true (s, g) (s', g') := by
  cases h with
  | add r hr hq => exact .add r hr hq
  | first r hr hq h => exact .first r hr hq h
  | interrupt bad junk hh hdue hfine ht =>
    refine .interrupt bad junk hh hdue (fun _ hbad => ?_) ht
    -- behind an error `do_hd_request` is called
    obtain ⟨-, hnext, -⟩ | ⟨hgood, -⟩ | ⟨hgood, -⟩ := handle_cases ht
    · cases hnext
    · exact absurd hbad (ne_true_of_eq_false hgood)
    · exact absurd hbad (ne_true_of_eq_false hgood)
  | interruptNext bad junk hh hdue hfine ht hnext =>
    refine .interruptNext bad junk hh hdue (fun _ hbad he => ?_) ht hnext
    subst hbad
    exact he.lost hD hk ht hnext hg

/-- Before the first request. -/
theorem State.Start.checked (h : s.Start) : Checked D s ⟨0, []⟩ := by
  have hno : ∀ e q, s.queue ≠ e :: q := by
    rintro e q hq
    cases h.queue.symm.trans hq
  exact ⟨⟨fun e q hq => absurd hq (hno e q), fun e q hq => absurd hq (hno e q)⟩,
    fun _ e q hq => absurd hq (hno e q)⟩

/-- **A run.** -/
abbrev Run (D : Disks) (fine : Bool) : State × Tally → State × Tally → Prop :=
  Relation.ReflTransGen (Recorded D fine)

theorem Run.checked (hD : ∀ dev, (D.hd dev).nrSects < 0x100000000) {p : State × Tally}
    (h0 : s.Start) (h : Run D fine (s, ⟨0, []⟩) p) :
    Checked D p.1 p.2 ∧ (fine = true → Good D p.2) := by
  induction h with
  | refl => exact ⟨h0.checked, fun _ p hp => absurd hp List.not_mem_nil⟩
  | tail _ hstep ih =>
    obtain ⟨hk, hgood⟩ := Recorded.checked hD hstep ih.1
    exact ⟨hk, fun hf => hgood hf (ih.2 hf)⟩

/-- **No request in its partition is given up early**, with less than seven failures, just if in no
step an error comes while one sector is left of the last block of the partition. -/
theorem not_given_up_early_iff (hD : ∀ dev, (D.hd dev).nrSects < 0x100000000) (h0 : s.Start)
    (h : Run D false (s, ⟨0, []⟩) (s', g')) :
    (∀ p ∈ g'.lost, Whole D p.1.made → maxErrors ≤ p.2) ↔ Run D true (s, ⟨0, []⟩) (s', g') := by
  refine ⟨fun hg => ?_, fun hrun => (Run.checked hD h0 hrun).2 rfl⟩
  have hall : ∀ p : State × Tally, Run D false (s, ⟨0, []⟩) p → Good D p.2 →
      Run D true (s, ⟨0, []⟩) p := by
    intro p hp
    induction hp with
    | refl => exact fun _ => .refl
    | tail hrun hstep ih =>
      intro hgood
      have hk := (Run.checked hD h0 hrun).1
      have hbefore : Good D _ := fun p hp => hgood p ((Recorded.lost hstep).subset hp)
      exact (ih hbefore).tail (Recorded.fine_of_good hD hk hstep hgood)
  exact hall _ h hg

/-! ### The last block -/

/-- One drive with a partition of so many sectors. -/
def oneDrive (nrSects : ℕ) : Disks where
  nrHd := 1
  info _ := ⟨2, 17, 10, 0, 0⟩
  hd _ := ⟨0, nrSects⟩

/-- Before the first request. -/
def started : State := ⟨true, true, none, [], none, [], []⟩

/-- Block 0 of the first partition is to be read. -/
def readFirst : Request := ⟨0x301, .read, 0, 0, 2, 0, 0, none⟩

/-- The drive is ready. -/
def isReady : Answers := ⟨true, true, false⟩

/-- The state that a round comes to. -/
def Round.state : Round → State
  | .ret s => s
  | .repeat_ s => s
  | .panic => started

/-- The state that an interrupt comes to. -/
def State.after (s : State) (h : Handler) (bad : Bool) : State :=
  ((s.handle h bad false).map Prod.snd).getD s

/-- The request has been made, and the drive gets its parameters. -/
def specified : State :=
  (round (oneDrive 2) isReady { started with queue := [.new readFirst] }).state

/-- The drive recalibrates. -/
def recalibrating : State := (round (oneDrive 2) isReady (specified.after .recalIntr false)).state

/-- It reads. -/
def reading : State := (round (oneDrive 2) isReady (recalibrating.after .recalIntr false)).state

/-- It has read one sector of two. -/
def half : State := reading.after .readIntr false

theorem run_half (fine : Bool) : Run (oneDrive 2) fine (started, ⟨0, []⟩) (half, ⟨0, []⟩) := by
  have hmade : Recorded (oneDrive 2) fine (started, ⟨0, []⟩) (specified, ⟨0, []⟩) :=
    .first readFirst rfl rfl (.ret isReady rfl)
  have hspecified : Recorded (oneDrive 2) fine (specified, ⟨0, []⟩) (recalibrating, ⟨0, []⟩) :=
    .interruptNext false false rfl (fun _ => trivial) (fun _ h => Bool.noConfusion h) rfl
      (.ret isReady rfl)
  have hrecal : Recorded (oneDrive 2) fine (recalibrating, ⟨0, []⟩) (reading, ⟨0, []⟩) :=
    .interruptNext false false rfl (fun _ => trivial) (fun _ h => Bool.noConfusion h) rfl
      (.ret isReady rfl)
  have hread : Recorded (oneDrive 2) fine (reading, ⟨0, []⟩) (half, ⟨0, []⟩) :=
    .interrupt (h := .readIntr) false false rfl (fun _ => ⟨_, rfl, rfl, by decide⟩)
      (fun _ h => Bool.noConfusion h) rfl
  exact (((Relation.ReflTransGen.single hmade).tail hspecified).tail hrecal).tail hread

theorem oneDrive_nrSects (dev : ℕ) : ((oneDrive 2).hd dev).nrSects < 0x100000000 := by
  change 2 < 0x100000000
  decide

theorem started_start : started.Start := ⟨rfl, rfl, rfl, rfl, rfl, rfl, rfl⟩

/-- Half of a block has been read. -/
theorem not_given_up_half :
    (∀ p ∈ (⟨0, []⟩ : Tally).lost, Whole (oneDrive 2) p.1.made → maxErrors ≤ p.2) ↔
      Run (oneDrive 2) true (started, ⟨0, []⟩) (half, ⟨0, []⟩) :=
  not_given_up_early_iff oneDrive_nrSects started_start (run_half false)

/-- The request fails once, and is given up. -/
theorem lastBlock_failed : ¬∀ (D : Disks) (s s' : State) (g : Tally),
    (∀ dev, (D.hd dev).nrSects < 0x100000000) → s.Start →
      Run D false (s, ⟨0, []⟩) (s', g) → ∀ p ∈ g.lost, Whole D p.1.made → maxErrors ≤ p.2 := by
  intro h
  have hfail : Recorded (oneDrive 2) false (half, ⟨0, []⟩)
      ((round (oneDrive 2) isReady (half.after .readIntr true)).state,
        ⟨0, [((half.after .readIntr true).queue.headD (.new readFirst), 1)]⟩) :=
    .interruptNext true false rfl (fun h => Bool.noConfusion h) (fun h => Bool.noConfusion h) rfl
      (.repeat_ isReady rfl (.ret isReady rfl))
  have hbound := h _ _ _ _ oneDrive_nrSects started_start ((run_half false).tail hfail) _
    List.mem_cons_self ⟨by decide, rfl, le_rfl⟩
  exact absurd hbound (by decide)

end Linux011.Hd

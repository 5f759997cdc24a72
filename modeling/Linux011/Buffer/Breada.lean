import Linux011.Buffer.Content
import Linux011.Lib.Logged

/-!
# What `breada` reads ahead

`breada` asks for one block and marks the blocks of a list for reading. Its test is made
on the buffer of the listed block, but what it hands to `ll_rw_block` is the buffer of
the first one, so a listed block is never read. What it does right is the rest: the block
it returns is up to date and holds what it held, no count is left behind, and a listed
block that is in the cache when its turn comes stays there.

`Linux011.Buffer.ReadAhead.During` is a run from the beginning of a call to its end, in
which the drivers and all other tasks may do as they like, with the states it has gone
through. `Linux011.Buffer.ReadAhead.breada_reads` says what holds at the end of one.
-/

namespace Linux011.Buffer

variable {n : ℕ}

/-- **A call of `breada`**: whose it is, what it returns to, and what it asks for. -/
structure ReadAhead (n : ℕ) where
  task : Fin n
  below : List Frame
  dev : ℕ
  first : ℕ
  blocks : List ℕ

/-- The steps of a run, the last one first, each with the state it is taken in. -/
abbrev Log (n : ℕ) : Type := List (State n × Event n)

/-- **A read of the block has failed** in the run. -/
def Log.ReadFailed (log : Log n) (dev block : ℕ) : Prop :=
  ∃ u maj junk r, (u, Event.endRequest maj false junk) ∈ log ∧ u.sys.current maj = some r ∧
    r.cmd = .read ∧ r.dev = dev ∧ r.sector = block * 2

/-- What is left of the list of `breada`, the block it is at included. -/
def Frame.left : Frame → Option (List ℕ)
  | .breadaNext _ _ ahead => some ahead
  | .breadaAhead _ _ block ahead => some (block :: ahead)
  | .breadaDrop _ _ _ ahead => some ahead
  | .breadWait _ => some []
  | .brelse _ => some []
  | _ => none

namespace ReadAhead

variable (c : ReadAhead n)

/-- The stack of the task when the call has returned. -/
def back : List Frame := .caller (some (.breada c.dev c.first c.blocks)) :: c.below

/-- The call begins. -/
structure Begins (s : State n) : Prop where
  stack : (s.task c.task).stack = .breada c.dev c.first c.blocks :: c.back
  ret : (s.task c.task).ret = none

/-- **A run of the call**, until it returns. -/
def During (s : State n) (log : Log n) (u : State n) : Prop :=
  Logged (fun u ev v => (u.task c.task).stack ≠ c.back ∧ u.step ev = some v ∧ v.Bounded) s log u

/-- The device has a driver. -/
structure Driven (s : State n) : Prop where
  dev : c.dev ≠ 0
  major : major c.dev < nrBlkDev
  requestFn : s.sys.requestFn (Buffer.major c.dev) = true

/-- **The call has gone through the block** of its list. -/
def Through (s : State n) (block : ℕ) : Prop :=
  ∃ gs f done ahead, (s.task c.task).stack = gs ++ f :: c.back ∧ f.left = some ahead ∧
    c.blocks = done ++ ahead ∧ block ∈ done

/-- **What a step has to meet** for the blocks of the list to be read. -/
structure Met (s : State n) (ev : Event n) : Prop where
  /-- The block whose turn it is has been asked for as the first, or is up to date. -/
  turn : ev = .run c.task → ∀ e block ahead,
    (s.task c.task).stack = .breadaAhead e c.dev block ahead :: c.back →
      block = c.first ∨ ∃ tmp ∈ (s.task c.task).ret, (s.sys.cache.head tmp.bh).uptodate = true
  /-- Nobody takes the buffer of a block that the call has gone through, -/
  kept : ∀ block b, c.Through s block → s.sys.cache.Carries c.dev block b → ¬s.Seizes ev b
  /-- and no write of one of the blocks fails. -/
  written : ∀ block ∈ c.first :: c.blocks, s.Writes c.dev block ev

/-- **The block is read**: it is up to date in a buffer, or a read of it into a locked
buffer is queued or in progress, or that read has failed. -/
def Read (s : State n) (log : Log n) (block : ℕ) : Prop :=
  (∃ b, s.sys.cache.Carries c.dev block b ∧ ((s.sys.cache.head b).uptodate = true ∨
    ((s.sys.cache.head b).lock = true ∧ ∃ maj i r, i ∈ s.sys.queue maj ∧ s.sys.slot i = some r ∧
      r.cmd = .read ∧ r.bh = b ∧ r.dev = c.dev ∧ r.sector = block * 2))) ∨
    log.ReadFailed c.dev block

/-- The references to a head that are none of the call's: those of the other tasks, and what
the task holds. -/
def others (s : State n) (b : ℕ) : ℕ :=
  (∑ u ∈ Finset.univ.erase c.task, refsTo b (s.task u).refs) + refsTo b (s.task c.task).held

/-- **What `breada` is for**: how the run that led from `s` to `s'` has to end. -/
structure Returned (s : State n) (log : Log n) (s' : State n) : Prop where
  /-- The buffer it returns carries the first block and is up to date, -/
  given : ∀ e ∈ (s'.task c.task).ret, s'.sys.cache.Carries c.dev c.first e.bh ∧
    (s'.sys.cache.head e.bh).uptodate = true
  /-- and holds what the block held, if nobody has changed that meanwhile. -/
  content : (∀ p ∈ log, p.2.Spares c.dev c.first) → ∀ D, s.Content c.dev c.first D →
    ∀ e ∈ (s'.task c.task).ret, (s'.sys.cache.head e.bh).data = D
  /-- It returns no buffer only if a read of the block has failed. -/
  unreadable : (s'.task c.task).ret = none → log.ReadFailed c.dev c.first
  /-- Every block of the list is read. -/
  ahead : ∀ block ∈ c.blocks, c.Read s' log block
  /-- The counts are as before, the buffer that is returned apart. -/
  counts : ∀ b, b < s.sys.cache.nrBuffers → (s'.sys.cache.head b).count + c.others s b =
    (s.sys.cache.head b).count + c.others s' b + refsTo b (s'.task c.task).ret.toList

end ReadAhead

/-! ### One buffer, step by step -/

section Backed

variable {s s' : State n} {t : Fin n} {ev : Event n} {log : Log n} {dev block b : ℕ} {e : Ref}

/-- The buffer of the block is up to date, or is being read, or the read has failed. -/
def State.Backed (s : State n) (log : Log n) (dev block b : ℕ) : Prop :=
  (s.sys.cache.head b).uptodate = true ∨
    (∃ i r, s.sys.slot i = some r ∧ r.bh = b ∧ r.cmd = .read) ∨ log.ReadFailed dev block

theorem Log.ReadFailed.cons (h : log.ReadFailed dev block) (p : State n × Event n) :
    Log.ReadFailed (p :: log) dev block := by
  obtain ⟨u, maj, junk, r, hu, hr⟩ := h
  exact ⟨u, maj, junk, r, List.mem_cons_of_mem _ hu, hr⟩

namespace State

/-- A head that a task refers to is not taken. -/
theorem Ok.not_seizes (hok : s.Ok) (he : e ∈ (s.task t).refs) : ¬s.Seizes ev e.bh := by
  have hg := (hok.task t).good e he
  have hpos := refsTo_pos he
  rw [← hok.count _ hg.lt] at hpos
  cases ev with
  | run u =>
    rintro ⟨-, -, -, -, hcount, -⟩
    omega
  | _ => exact id

/-- A step changes neither the number of buffers nor the drivers. -/
theorem Ok.fixed_step (hok : s.Ok) (hs : s.step ev = some s') :
    s'.sys.cache.nrBuffers = s.sys.cache.nrBuffers ∧ s'.sys.requestFn = s.sys.requestFn := by
  cases ev with
  | run t =>
    cases hok.ran hs with
    | quiet hq => exact ⟨hq.nrBuffers, hq.requestFn⟩
    | took _ _ ht => exact ⟨ht.nrBuffers, ht.requestFn⟩
    | added _ _ _ _ hsys =>
      rw [hsys]
      exact ⟨rfl, rfl⟩
  | act t a => cases act_cases hs <;> exact ⟨rfl, rfl⟩
  | move maj =>
    obtain ⟨sys, hm, rfl⟩ := Option.map_eq_some_iff.mp hs
    obtain ⟨r, -, -, -, rfl⟩ := Sys.move_cases hm
    exact ⟨rfl, rfl⟩
  | endRequest maj up junk =>
    obtain ⟨sys, he, rfl⟩ := Option.map_eq_some_iff.mp hs
    obtain ⟨-, -, -, -, -, -, -, hnr, -, -, -, -, hfn⟩ := Sys.endRequest_cases he
    exact ⟨hnr, hfn⟩

/-- A head keeps its block, if it is not taken for another one. -/
theorem Ok.tag_step (hok : s.Ok) (hs : s.step ev = some s') (hno : ¬s.Seizes ev b) :
    (s'.sys.cache.head b).dev = (s.sys.cache.head b).dev ∧
      (s'.sys.cache.head b).blocknr = (s.sys.cache.head b).blocknr := by
  by_contra hne
  cases ev with
  | run t =>
    cases hok.ran hs with
    | quiet hq => exact hne (BufferHead.look_tag (hq.look b))
    | @took d k bh st hst hst' ht =>
      refine hne (BufferHead.look_tag (ht.look b ?_))
      rintro rfl
      exact hno ⟨d, k, st, hst, ht.count, ht.lock, ht.dirt, ht.find⟩
    | @added cmd ahead maj bh i st hst hst' hbh hi hsys =>
      refine hne ?_
      rw [hsys, Sys.addRequest_head]
      split
      · next hb =>
        rw [hb]
        exact ⟨rfl, rfl⟩
      · exact ⟨rfl, rfl⟩
  | act t a => exact hne ((act_same hs).tag b)
  | move maj =>
    obtain ⟨sys, hm, rfl⟩ := Option.map_eq_some_iff.mp hs
    exact hne ((move_same hm).tag b)
  | endRequest maj up junk =>
    obtain ⟨sys, he, rfl⟩ := Option.map_eq_some_iff.mp hs
    exact hne ((endRequest_same he).tag b)

/-- **Where no request ends**, a head that is not taken stays up to date, and the requests
stay. -/
theorem Ok.flag_step (hok : s.Ok) (hs : s.step ev = some s') (hno : ¬s.Seizes ev b)
    (hend : ∀ maj up junk, ev ≠ .endRequest maj up junk) :
    ((s.sys.cache.head b).uptodate = true → (s'.sys.cache.head b).uptodate = true) ∧
      ∀ i r, s.sys.slot i = some r → s'.sys.slot i = some r := by
  cases ev with
  | run t =>
    cases hok.ran hs with
    | quiet hq =>
      rw [(BufferHead.look_flags (hq.look b)).1, hq.slot]
      exact ⟨id, fun _ _ => id⟩
    | @took d k bh st hst hst' ht =>
      have hb : b ≠ bh := by
        rintro rfl
        exact hno ⟨d, k, st, hst, ht.count, ht.lock, ht.dirt, ht.find⟩
      rw [(BufferHead.look_flags (ht.look b hb)).1, ht.slot]
      exact ⟨id, fun _ _ => id⟩
    | @added cmd ahead maj bh i st hst hst' hbh hi hsys =>
      rw [hsys, Sys.addRequest_head]
      refine ⟨?_, fun j r hj => ?_⟩
      · split
        · next hb =>
          rw [hb]
          exact id
        · exact id
      · rw [Sys.addRequest_slot, Function.update_of_ne]
        · exact hj
        · rintro rfl
          rw [hi] at hj
          cases hj
  | act t a =>
    constructor
    · cases act_cases hs with
      | validate =>
        rw [Sys.head_setHead]
        split
        · exact fun _ => rfl
        · exact id
      | store =>
        rw [Sys.head_setHead]
        split
        · next hb => exact hb ▸ id
        · exact id
      | mark =>
        rw [Sys.head_setHead]
        split
        · next hb => exact hb ▸ id
        · exact id
      | _ => exact id
    · cases act_cases hs <;> exact fun _ _ => id
  | move maj =>
    obtain ⟨sys, hm, rfl⟩ := Option.map_eq_some_iff.mp hs
    obtain ⟨r, -, -, -, rfl⟩ := Sys.move_cases hm
    exact ⟨id, fun _ _ => id⟩
  | endRequest maj up junk => exact absurd rfl (hend maj up junk)

end State

/-- **A buffer that is read stays so**: a request to read it ends well or fails. -/
theorem State.Backed.step (h : s.Backed log dev block b) (hok : s.Ok) (hT : s.Tracked)
    (hs : s.step ev = some s') (hcar : s.sys.cache.Carries dev block b) (hno : ¬s.Seizes ev b)
    (hw : s.Writes dev block ev) :
    s'.sys.cache.Carries dev block b ∧ s'.Backed ((s, ev) :: log) dev block b := by
  refine ⟨(State.carries_congr (hok.fixed_step hs).1 (hok.tag_step hs hno)).mpr hcar, ?_⟩
  cases ev with
  | endRequest maj up junk =>
    obtain ⟨sys, he, rfl⟩ := Option.map_eq_some_iff.mp hs
    obtain ⟨i, rest, r, hq, hi, -, hhead, -, hslot, -⟩ := Sys.endRequest_cases he
    have hcur : s.sys.current maj = some r := Sys.current_eq_some.mpr ⟨i, rest, hq, hi⟩
    by_cases hb : b = r.bh
    · -- the request is for this buffer
      subst hb
      obtain ⟨hd, hsec⟩ := (hT.carries hi).mp hcar
      cases up with
      | true =>
        left
        change (sys.cache.head r.bh).uptodate = true
        rw [hhead, if_pos rfl]
      | false =>
        cases hc : r.cmd with
        | write => exact absurd ⟨hd, hsec⟩ (hw r hcur hc)
        | read =>
          exact Or.inr (Or.inr ⟨s, maj, junk, r, List.mem_cons_self, hcur, hc, hd, hsec⟩)
    · rcases h with hu | ⟨j, r', hj, hbh, hc⟩ | hf
      · left
        change (sys.cache.head b).uptodate = true
        rw [hhead, if_neg hb]
        exact hu
      · refine Or.inr (Or.inl ⟨j, r', ?_, hbh, hc⟩)
        change sys.slot j = some r'
        rw [hslot, Function.update_of_ne]
        · exact hj
        · rintro rfl
          obtain rfl := Option.some.inj (hi.symm.trans hj)
          exact hb hbh.symm
      · exact Or.inr (Or.inr (hf.cons _))
  | _ =>
    obtain ⟨hup, hslots⟩ := hok.flag_step hs hno (by
      intro _ _ _ hev
      cases hev)
    rcases h with hu | ⟨j, r', hj, hbh, hc⟩ | hf
    · exact Or.inl (hup hu)
    · exact Or.inr (Or.inl ⟨j, r', hslots j r' hj, hbh, hc⟩)
    · exact Or.inr (Or.inr (hf.cons _))

end Backed

/-! ### Where the call is -/

namespace ReadAhead

variable {c : ReadAhead n} {s s' : State n} {ev : Event n} {log : Log n} {gs st : List Frame}
  {f : Frame} {e : Ref} {ahead : List ℕ}

/-- The blocks that the call has gone through are read. -/
def Done (c : ReadAhead n) (s : State n) (log : Log n) (ahead : List ℕ) : Prop :=
  ∃ done, c.blocks = done ++ ahead ∧ ∀ block ∈ done, block ≠ c.first →
    ∃ b, s.sys.cache.Carries c.dev block b ∧ s.Backed log c.dev block b

/-- The buffer is the one of the first block, and that is read. -/
def First (c : ReadAhead n) (s : State n) (log : Log n) (e : Ref) : Prop :=
  (e.dev = c.dev ∧ e.block = c.first) ∧ s.Backed log c.dev c.first e.bh

/-- **Where the call is**: in the frame `f`, with the calls `gs` it has made. -/
def At (c : ReadAhead n) (s : State n) (log : Log n) (gs : List Frame) : Frame → Prop
  | .breada dev first blocks => gs = [] ∧ dev = c.dev ∧ first = c.first ∧ blocks = c.blocks
  | .breadaGot dev first blocks => dev = c.dev ∧ first = c.first ∧ blocks = c.blocks
  | .breadaNext e dev ahead => dev = c.dev ∧ c.Done s log ahead ∧
      (gs = [] ∧ c.First s log e ∨ (e.dev = c.dev ∧ e.block = c.first) ∧ ∃ maj,
        gs = [.lockBuffer .read false maj e.bh] ∨ gs = [.makeRequest .read false maj e.bh])
  | .breadaAhead e dev block ahead =>
      dev = c.dev ∧ c.Done s log (block :: ahead) ∧ c.First s log e
  | .breadaDrop e _ dev ahead => dev = c.dev ∧ c.Done s log ahead ∧ c.First s log e ∧
      (gs = [] ∨ ∃ maj, gs = [.makeRequest .read true maj e.bh])
  | .breadWait e => gs = [] ∧ c.Done s log [] ∧ c.First s log e
  | .brelse _ => gs = [] ∧ c.Done s log [] ∧ log.ReadFailed c.dev c.first
  | _ => False

theorem Done.keep (h : c.Done s log ahead) (hst : (s.task c.task).stack = gs ++ f :: c.back)
    (hf : f.left = some ahead) (hok : s.Ok) (hT : s.Tracked) (hs : s.step ev = some s')
    (hmet : c.Met s ev) : c.Done s' ((s, ev) :: log) ahead := by
  obtain ⟨done, hblocks, hdone⟩ := h
  refine ⟨done, hblocks, fun block hb hne => ?_⟩
  obtain ⟨b, hcar, hback⟩ := hdone block hb hne
  have hthrough : c.Through s block := ⟨gs, f, done, ahead, hst, hf, hblocks, hb⟩
  refine ⟨b, hback.step hok hT hs hcar (hmet.kept block b hthrough hcar) (hmet.written block ?_)⟩
  rw [hblocks]
  exact List.mem_cons_of_mem _ (List.mem_append_left _ hb)

theorem First.keep (h : c.First s log e) (hst : (s.task c.task).stack = gs ++ f :: c.back)
    (hf : e ∈ f.refs) (hok : s.Ok) (hT : s.Tracked) (hs : s.step ev = some s')
    (hmet : c.Met s ev) : c.First s' ((s, ev) :: log) e := by
  have he : e ∈ (s.task c.task).refs := by
    rw [Task.refs, hst, List.flatMap_append, List.flatMap_cons]
    exact List.mem_append_right _ (List.mem_append_right _ (List.mem_append_left _ hf))
  obtain ⟨⟨hd, hb⟩, hback⟩ := h
  have hg := (hok.task _).good e he
  have hcar : s.sys.cache.Carries c.dev c.first e.bh :=
    ⟨hg.lt, hg.dev.trans hd, hg.block.trans hb⟩
  exact ⟨⟨hd, hb⟩, (hback.step hok hT hs hcar (hok.not_seizes he)
    (hmet.written _ List.mem_cons_self)).2⟩

/-- **What has been read stays so**, while the call stays where it is. -/
theorem At.keep (h : c.At s log gs f) (hst : (s.task c.task).stack = gs ++ f :: c.back)
    (hok : s.Ok) (hT : s.Tracked) (hs : s.step ev = some s') (hmet : c.Met s ev) :
    c.At s' ((s, ev) :: log) gs f := by
  cases f with
  | breada => exact h
  | breadaGot => exact h
  | breadaNext e dev ahead =>
    obtain ⟨hd, hdone, hcase⟩ := h
    refine ⟨hd, hdone.keep hst rfl hok hT hs hmet, hcase.imp_left fun ⟨hgs, hfirst⟩ => ?_⟩
    exact ⟨hgs, hfirst.keep hst List.mem_cons_self hok hT hs hmet⟩
  | breadaAhead e dev block ahead =>
    obtain ⟨hd, hdone, hfirst⟩ := h
    exact ⟨hd, hdone.keep hst rfl hok hT hs hmet,
      hfirst.keep hst List.mem_cons_self hok hT hs hmet⟩
  | breadaDrop e tmp dev ahead =>
    obtain ⟨hd, hdone, hfirst, hgs⟩ := h
    refine ⟨hd, hdone.keep hst rfl hok hT hs hmet, hfirst.keep hst ?_ hok hT hs hmet, hgs⟩
    exact List.mem_cons_of_mem _ List.mem_cons_self
  | breadWait e =>
    obtain ⟨hgs, hdone, hfirst⟩ := h
    exact ⟨hgs, hdone.keep hst rfl hok hT hs hmet,
      hfirst.keep hst List.mem_cons_self hok hT hs hmet⟩
  | brelse e =>
    obtain ⟨hgs, hdone, hfail⟩ := h
    exact ⟨hgs, hdone.keep hst rfl hok hT hs hmet, hfail.cons _⟩
  | _ => exact h.elim

/-- **The call is under way.** -/
def Under (c : ReadAhead n) (s : State n) (log : Log n) : Prop :=
  ∃ gs f, (s.task c.task).stack = gs ++ f :: c.back ∧ c.At s log gs f

/-- **The call has returned.** -/
structure Ended (c : ReadAhead n) (s : State n) (log : Log n) : Prop where
  stack : (s.task c.task).stack = c.back
  done : c.Done s log []
  given : ∀ e ∈ (s.task c.task).ret, (e.dev = c.dev ∧ e.block = c.first) ∧
    (s.sys.cache.head e.bh).uptodate = true
  unreadable : (s.task c.task).ret = none → log.ReadFailed c.dev c.first

/-- A call that waits for what it has called goes on waiting while that goes on. -/
theorem At.waits (h : c.At s log gs f) {gs' : List Frame}
    (hf : ∃ q, f.awaits = some q) : c.At s log gs' f := by
  obtain ⟨q, hq⟩ := hf
  cases f with
  | breadaGot => exact h
  | breadaAhead => exact h
  | caller => exact h.elim
  | getblkHashed => exact h.elim
  | breadGot => exact h.elim
  | _ => cases hq

/-! ### The steps of the call -/

section Steps

variable {sys sys' : Sys} {fs fs' : List Frame} {ret : Option Ref} {maj bh : ℕ} {now : Bool}

/-- `lock_buffer`, and a test that fails only for what is up to date. -/
theorem lockAndTest_read (h : sys.lockAndTest .read now maj bh fs = .go sys' fs' ret) :
    (fs' = fs ∧ (sys'.cache.head bh).uptodate = true) ∨
      fs' = .makeRequest .read now maj bh :: fs := by
  rw [Sys.lockAndTest] at h
  split at h
  · next htest =>
    cases h
    left
    refine ⟨rfl, ?_⟩
    rcases htest with ⟨hc, -⟩ | ⟨-, hu⟩
    · cases hc
    · exact hu
  · cases h
    exact Or.inr rfl

/-- **`ll_rw_block(READ,bh)`** on a device with a driver. -/
theorem llRwBlock_read (hmaj : major (sys.cache.head bh).dev < nrBlkDev)
    (hfn : sys.requestFn (major (sys.cache.head bh).dev) = true)
    (h : sys.llRwBlock .read false bh fs = .go sys' fs' ret) :
    (fs' = fs ∧ (sys'.cache.head bh).uptodate = true) ∨ ∃ maj,
      fs' = .lockBuffer .read false maj bh :: fs ∨ fs' = .makeRequest .read false maj bh :: fs := by
  rw [Sys.llRwBlock] at h
  rw [if_neg (by rw [hfn]; simp; omega)] at h
  split at h
  · rw [if_neg (by simp)] at h
    cases h
    exact Or.inr ⟨_, Or.inl rfl⟩
  · exact (lockAndTest_read h).imp_right fun h => ⟨_, Or.inr h⟩

/-- **`ll_rw_block(READA,bh)`** makes a request for `bh` if for any buffer. -/
theorem llRwBlock_readAhead (h : sys.llRwBlock .read true bh fs = .go sys' fs' ret) :
    fs' = fs ∨ ∃ maj, fs' = .makeRequest .read true maj bh :: fs := by
  rw [Sys.llRwBlock] at h
  split at h
  · cases h
    exact Or.inl rfl
  · split at h
    · rw [if_pos rfl] at h
      cases h
      exact Or.inl rfl
    · exact (lockAndTest_read h).imp And.left fun h => ⟨_, h⟩

end Steps

/-- What the call has been given is what it has asked for. -/
theorem given_of_awaits (hok : s.Ok) (hst : (s.task c.task).stack = f :: c.back) {q : ℕ × ℕ}
    (hf : f.awaits = some q) (he : (s.task c.task).ret = some e) :
    e.Good s.sys.cache ∧ e.dev = q.1 ∧ e.block = q.2 := by
  have hret := (hok.task c.task).ret e he
  rw [hst, awaited, hf] at hret
  obtain rfl := Option.some.inj hret
  refine ⟨(hok.task c.task).good e ?_, rfl, rfl⟩
  rw [Task.refs, he]
  exact List.mem_append_left _ (List.mem_append_right _ (List.mem_singleton_self e))

/-- **A step of a frame of the call itself.** -/
theorem Under.own (hat : c.At s log [] f) (hkeep : c.At s' ((s, ev) :: log) [] f)
    (hst : (s.task c.task).stack = f :: c.back) (hok : s.Ok) (hT : s.Tracked)
    (hdrv : c.Driven s) (hev : ev = .run c.task) (hmet : c.Met s ev) {fs : List Frame}
    {ret : Option Ref} (hstep : f.step s.sys (s.task c.task).ret = .go s'.sys fs ret)
    (hstack : (s'.task c.task).stack = fs ++ c.back) (hret : (s'.task c.task).ret = ret) :
    c.Under s' ((s, ev) :: log) ∨ c.Ended s' ((s, ev) :: log) := by
  cases f with
  | breada dev first blocks =>
    obtain ⟨-, hat⟩ := hat
    obtain ⟨-, rfl, -⟩ := Move.go.inj hstep
    exact Or.inl ⟨[.getblk dev first], .breadaGot dev first blocks, hstack, hat⟩
  | breadaGot dev first blocks =>
    obtain ⟨rfl, rfl, rfl⟩ := hat
    have hdone : c.Done s' ((s, ev) :: log) c.blocks := ⟨[], rfl, by simp⟩
    cases hr : (s.task c.task).ret with
    | none =>
      rw [hr] at hstep
      cases hstep
    | some e =>
      obtain ⟨hg, hd, hb⟩ := given_of_awaits hok hst rfl hr
      rw [hr] at hstep
      dsimp only [Frame.step] at hstep
      split at hstep
      · next hup =>
        obtain ⟨hsys, rfl, -⟩ := Move.go.inj hstep
        refine Or.inl ⟨[], .breadaNext e c.dev c.blocks, hstack, rfl, hdone,
          Or.inl ⟨rfl, ⟨hd, hb⟩, Or.inl ?_⟩⟩
        rw [← hsys]
        exact hup
      · have hdev : (s.sys.cache.head e.bh).dev = c.dev := hg.dev.trans hd
        rcases llRwBlock_read (hdev ▸ hdrv.major) (hdev ▸ hdrv.requestFn) hstep with
          ⟨rfl, hup⟩ | ⟨maj, hfs⟩
        · exact Or.inl ⟨[], .breadaNext e c.dev c.blocks, hstack, rfl, hdone,
            Or.inl ⟨rfl, ⟨hd, hb⟩, Or.inl hup⟩⟩
        · rcases hfs with rfl | rfl
          · exact Or.inl ⟨[_], .breadaNext e c.dev c.blocks, hstack, rfl, hdone,
              Or.inr ⟨⟨hd, hb⟩, maj, Or.inl rfl⟩⟩
          · exact Or.inl ⟨[_], .breadaNext e c.dev c.blocks, hstack, rfl, hdone,
              Or.inr ⟨⟨hd, hb⟩, maj, Or.inr rfl⟩⟩
  | breadaNext e dev ahead =>
    obtain ⟨rfl, hdone, hcase⟩ := hkeep
    obtain ⟨-, hfirst⟩ := hcase.resolve_right (by simp)
    cases ahead with
    | nil =>
      obtain ⟨-, rfl, -⟩ := Move.go.inj hstep
      exact Or.inl ⟨[], .breadWait e, hstack, rfl, hdone, hfirst⟩
    | cons block ahead =>
      obtain ⟨-, rfl, -⟩ := Move.go.inj hstep
      exact Or.inl ⟨[.getblk c.dev block], .breadaAhead e c.dev block ahead, hstack, rfl, hdone,
        hfirst⟩
  | breadaAhead e dev block ahead =>
    obtain ⟨rfl, ⟨done, hblocks, hdone⟩, hfirst⟩ := hkeep
    have hturn := hmet.turn hev e block ahead hst
    -- the block counts as gone through from here on
    have hnext : (block = c.first ∨ ∃ b, s'.sys.cache.Carries c.dev block b ∧
        s'.Backed ((s, ev) :: log) c.dev block b) → c.Done s' ((s, ev) :: log) ahead := by
      intro hblock
      refine ⟨done ++ [block], by rw [hblocks, List.append_assoc]; rfl, fun k hk hne => ?_⟩
      rcases List.mem_append.mp hk with hk | hk
      · exact hdone k hk hne
      · obtain rfl := List.mem_singleton.mp hk
        exact hblock.resolve_left hne
    cases hr : (s.task c.task).ret with
    | none =>
      rw [hr] at hstep hturn
      obtain ⟨-, rfl, -⟩ := Move.go.inj hstep
      refine Or.inl ⟨[], .breadaNext e c.dev ahead, hstack, rfl, hnext (Or.inl ?_),
        Or.inl ⟨rfl, hfirst⟩⟩
      exact hturn.resolve_right (by simp)
    | some tmp =>
      obtain ⟨hg, hd, hb⟩ := given_of_awaits hok hst rfl hr
      rw [hr] at hstep hturn
      dsimp only [Frame.step] at hstep
      split at hstep
      · next hup =>
        obtain ⟨hsys, rfl, -⟩ := Move.go.inj hstep
        rw [hsys] at hg hup
        refine Or.inl ⟨[], .breadaDrop e tmp c.dev ahead, hstack, rfl,
          hnext (Or.inr ⟨tmp.bh, ?_, Or.inl hup⟩), hfirst, Or.inl rfl⟩
        exact ⟨hg.lt, hg.dev.trans hd, hg.block.trans hb⟩
      · next hup =>
        -- what is requested is the first block, whichever block it is the turn of
        have hblock : block = c.first := hturn.resolve_right (by
          rintro ⟨tmp', htmp, hup'⟩
          obtain rfl := Option.some.inj htmp
          exact hup hup')
        rcases llRwBlock_readAhead hstep with rfl | ⟨maj, rfl⟩
        · exact Or.inl ⟨[], .breadaDrop e tmp c.dev ahead, hstack, rfl, hnext (Or.inl hblock),
            hfirst, Or.inl rfl⟩
        · exact Or.inl ⟨[_], .breadaDrop e tmp c.dev ahead, hstack, rfl, hnext (Or.inl hblock),
            hfirst, Or.inr ⟨maj, rfl⟩⟩
  | breadaDrop e tmp dev ahead =>
    obtain ⟨rfl, hdone, hfirst, -⟩ := hkeep
    obtain ⟨-, rfl, -⟩ := Move.go.inj hstep
    exact Or.inl ⟨[], .breadaNext e c.dev ahead, hstack, rfl, hdone, Or.inl ⟨rfl, hfirst⟩⟩
  | breadWait e =>
    obtain ⟨-, hdone, hfirst⟩ := hkeep
    obtain ⟨-, -, -, hback⟩ := hat
    rw [Frame.step] at hstep
    split at hstep
    · cases hstep
    next hlock =>
    split at hstep
    · next hup =>
      obtain ⟨hsys, rfl, rfl⟩ := Move.go.inj hstep
      rw [hsys] at hup
      refine Or.inr ⟨hstack, hdone, fun e' he' => ?_, fun hnone => ?_⟩
      · rw [hret] at he'
        obtain rfl := Option.some.inj he'
        exact ⟨hfirst.1, hup⟩
      · rw [hret] at hnone
        cases hnone
    · next hup =>
      obtain ⟨-, rfl, -⟩ := Move.go.inj hstep
      refine Or.inl ⟨[], .brelse e, hstack, rfl, hdone, ?_⟩
      rcases hback with hu | ⟨i, r, hi, hbh, -⟩ | hfail
      · exact absurd hu hup
      · exact absurd hbh (hT.slot_bh_ne (Bool.eq_false_of_not_eq_true hlock) hi)
      · exact hfail.cons _
  | brelse e =>
    obtain ⟨-, hdone, hfail⟩ := hkeep
    rw [Frame.step] at hstep
    split at hstep
    · cases hstep
    split at hstep
    · cases hstep
    obtain ⟨-, rfl, rfl⟩ := Move.go.inj hstep
    refine Or.inr ⟨hstack, hdone, fun e' he' => ?_, fun _ => hfail⟩
    rw [hret] at he'
    cases he'
  | _ => exact hat.elim

/-- **A step of what the call has called.** -/
theorem Under.inner (hat : c.At s log gs f) (hkeep : c.At s' ((s, ev) :: log) gs f) {g : Frame}
    (hgs : gs = g :: st) {fs : List Frame} {ret : Option Ref}
    (hstep : g.step s.sys (s.task c.task).ret = .go s'.sys fs ret)
    (hstack : (s'.task c.task).stack = fs ++ st ++ f :: c.back) :
    c.Under s' ((s, ev) :: log) := by
  subst hgs
  cases f with
  | breadaGot => exact ⟨fs ++ st, _, hstack, hkeep⟩
  | breadaAhead => exact ⟨fs ++ st, _, hstack, hkeep⟩
  | breadaNext e dev ahead =>
    obtain ⟨rfl, hdone, hcase⟩ := hkeep
    obtain ⟨hasked, maj, hgs⟩ := hcase.resolve_left (by simp)
    rcases hgs with hgs | hgs
    · obtain ⟨rfl, rfl⟩ := List.cons.inj hgs
      rw [List.append_nil] at hstack
      rw [Frame.step] at hstep
      split at hstep
      · cases hstep
      rcases lockAndTest_read hstep with ⟨rfl, hup⟩ | rfl
      · exact ⟨[], _, hstack, rfl, hdone, Or.inl ⟨rfl, hasked, Or.inl hup⟩⟩
      · exact ⟨[_], _, hstack, rfl, hdone, Or.inr ⟨hasked, maj, Or.inr rfl⟩⟩
    · obtain ⟨rfl, rfl⟩ := List.cons.inj hgs
      rw [List.append_nil] at hstack
      rw [Frame.step] at hstep
      split at hstep
      · rw [if_neg (by simp)] at hstep
        cases hstep
      · next i hi =>
        obtain ⟨hsys, rfl, -⟩ := Move.go.inj hstep
        refine ⟨[], _, hstack, rfl, hdone, Or.inl ⟨rfl, hasked, Or.inr (Or.inl ?_)⟩⟩
        refine ⟨i, s.sys.fillRequest .read e.bh, ?_, rfl, rfl⟩
        rw [← hsys, Sys.addRequest_slot, Function.update_self]
  | breadaDrop e tmp dev ahead =>
    obtain ⟨rfl, hdone, hfirst, hgs⟩ := hkeep
    obtain ⟨maj, hgs⟩ := hgs.resolve_left (by simp)
    obtain ⟨rfl, rfl⟩ := List.cons.inj hgs
    rw [List.append_nil] at hstack
    refine ⟨[], .breadaDrop e tmp c.dev ahead, ?_, rfl, hdone, hfirst, Or.inl rfl⟩
    rw [Frame.step] at hstep
    split at hstep
    · rw [if_pos rfl] at hstep
      obtain ⟨-, rfl, -⟩ := Move.go.inj hstep
      exact hstack
    · obtain ⟨-, rfl, -⟩ := Move.go.inj hstep
      exact hstack
  | breada => exact absurd hkeep.1 (by simp)
  | breadWait => exact absurd hkeep.1 (by simp)
  | brelse => exact absurd hkeep.1 (by simp)
  | _ => exact hat.elim

/-- What the call has called is not one that only locks a buffer, if the task may act. -/
theorem At.acts (hat : c.At s log gs f) (hst : (s.task c.task).stack = gs ++ f :: c.back)
    (hacts : (s.task c.task).idle = true ∨ ∃ q st, (s.task c.task).stack = .caller q :: st) :
    gs ≠ [] ∧ ∃ q, f.awaits = some q := by
  -- the topmost call
  have htop : ∀ g st, (s.task c.task).stack = g :: st →
      (∃ q, g = .caller q) ∨ ∃ only, g = .syncInodes only := by
    intro g st hg
    rcases hacts with hidle | ⟨q, st', hst'⟩
    · rw [Task.idle, hg] at hidle
      cases g with
      | syncInodes only => exact Or.inr ⟨only, rfl⟩
      | _ => cases hidle
    · exact Or.inl ⟨q, (List.cons.inj (hg.symm.trans hst')).1⟩
  cases gs with
  | nil =>
    exfalso
    rcases htop f c.back hst with ⟨q, rfl⟩ | ⟨only, rfl⟩
    · exact hat
    · exact hat
  | cons g gs =>
    have hg := htop g (gs ++ f :: c.back) hst
    refine ⟨by simp, ?_⟩
    have hno : ∀ cmd now maj bh,
        g ≠ .lockBuffer cmd now maj bh ∧ g ≠ .makeRequest cmd now maj bh := by
      intro cmd now maj bh
      rcases hg with ⟨q, rfl⟩ | ⟨only, rfl⟩
      · exact ⟨by simp, by simp⟩
      · exact ⟨by simp, by simp⟩
    cases f with
    | breadaGot => exact ⟨_, rfl⟩
    | breadaAhead => exact ⟨_, rfl⟩
    | breadaNext e dev ahead =>
      obtain ⟨-, -, hcase⟩ := hat
      obtain ⟨-, maj, hgs⟩ := hcase.resolve_left (by simp)
      rcases hgs with hgs | hgs
      · exact absurd (List.cons.inj hgs).1 (hno _ _ _ _).1
      · exact absurd (List.cons.inj hgs).1 (hno _ _ _ _).2
    | breadaDrop e tmp dev ahead =>
      obtain ⟨-, -, -, hgs⟩ := hat
      obtain ⟨maj, hgs⟩ := hgs.resolve_left (by simp)
      exact absurd (List.cons.inj hgs).1 (hno _ _ _ _).2
    | breada => exact absurd hat.1 (by simp)
    | breadWait => exact absurd hat.1 (by simp)
    | brelse => exact absurd hat.1 (by simp)
    | _ => exact hat.elim

/-- **Every step** leaves the call under way, or ends it. -/
theorem Under.step (h : c.Under s log) (hok : s.Ok) (hT : s.Tracked) (hdrv : c.Driven s)
    (hs : s.step ev = some s') (hmet : c.Met s ev) :
    c.Under s' ((s, ev) :: log) ∨ c.Ended s' ((s, ev) :: log) := by
  obtain ⟨gs, f, hst, hat⟩ := h
  have hkeep := hat.keep hst hok hT hs hmet
  by_cases hrun : ev = .run c.task
  · subst hrun
    obtain ⟨g, st, fs, ret, hst', hstep, htask, -⟩ := State.run_cases hs
    have hnow : (s'.task c.task).stack = fs ++ st ∧ (s'.task c.task).ret = ret := by
      rw [htask, Function.update_self]
      exact ⟨rfl, rfl⟩
    rw [hst'] at hst
    cases gs with
    | nil =>
      obtain ⟨rfl, rfl⟩ := List.cons.inj hst
      exact Under.own hat hkeep hst' hok hT hdrv rfl hmet hstep hnow.1 hnow.2
    | cons g' gs =>
      obtain ⟨rfl, rfl⟩ := List.cons.inj hst
      left
      refine Under.inner hat hkeep rfl hstep ?_
      rw [List.append_assoc]
      exact hnow.1
  by_cases hact : ∃ a, ev = .act c.task a
  · obtain ⟨a, rfl⟩ := hact
    left
    have hself : ∀ v, (s.setTask c.task v).task c.task = v := State.setTask_self s c.task
    cases State.act_cases hs with
    | take htop =>
      obtain ⟨hne, hq⟩ := hat.acts hst (Or.inr ⟨_, _, htop⟩)
      cases gs with
      | nil => exact absurd rfl hne
      | cons g gs =>
        rw [htop] at hst
        obtain ⟨-, rfl⟩ := List.cons.inj hst
        refine ⟨gs, f, ?_, hkeep.waits hq⟩
        rw [hself]
        rfl
    | @call q hidle =>
      obtain ⟨-, hq⟩ := hat.acts hst (Or.inl hidle)
      refine ⟨q.frame :: .caller (some q) :: gs, f, ?_, hkeep.waits hq⟩
      rw [hself, hst]
      rfl
    | @release e hidle =>
      obtain ⟨-, hq⟩ := hat.acts hst (Or.inl hidle)
      refine ⟨.brelse e :: .caller none :: gs, f, ?_, hkeep.waits hq⟩
      rw [hself, hst]
      rfl
    | store =>
      refine ⟨gs, f, ?_, hkeep⟩
      change ((s.setTask c.task _).task c.task).stack = _
      rw [hself]
      exact hst
    | mark =>
      refine ⟨gs, f, ?_, hkeep⟩
      change ((s.setTask c.task _).task c.task).stack = _
      rw [hself]
      exact hst
    | validate => exact ⟨gs, f, hst, hkeep⟩
  · left
    have htask := State.task_of_other hs hrun fun a ha => hact ⟨a, ha⟩
    exact ⟨gs, f, htask ▸ hst, hkeep⟩

/-! ### The end of the call -/

section End

variable {u : State n} {D : Block}

/-- What holds all through the call. -/
structure Inv (c : ReadAhead n) (s : State n) (log : Log n) (u : State n) : Prop where
  ok : u.Ok
  tracked : u.Tracked
  driven : c.Driven u
  nrBuffers : u.sys.cache.nrBuffers = s.sys.cache.nrBuffers
  at' : c.Under u log ∨ c.Ended u log

theorem During.inv (h : c.During s log u) (hok : s.Ok) (hT : s.Tracked) (hbegins : c.Begins s)
    (hdrv : c.Driven s) (hmet : ∀ p ∈ log, c.Met p.1 p.2) : c.Inv s log u := by
  refine Logged.inv (I := fun log u => c.Inv s log u) h hmet ?_ ?_
  · exact ⟨hok, hT, hdrv, rfl, Or.inl ⟨[], _, hbegins.stack, rfl, rfl, rfl, rfl⟩⟩
  · rintro log u ev v ⟨hok, hT, hdrv, hnr, hat⟩ hmet ⟨hgo, hs, hb⟩
    obtain ⟨hnr', hfn⟩ := hok.fixed_step hs
    have hunder := hat.resolve_right fun hend => hgo hend.stack
    exact ⟨hok.step hs hb, hT.step hok hs, ⟨hdrv.dev, hdrv.major, hfn ▸ hdrv.requestFn⟩,
      hnr'.trans hnr, hunder.step hok hT hdrv hs hmet⟩

/-- **The first block holds what it held.** -/
theorem During.content (h : c.During s log u) (hok : s.Ok) (hT : s.Tracked) (hdev : c.dev ≠ 0)
    (hmet : ∀ p ∈ log, c.Met p.1 p.2) (hsp : ∀ p ∈ log, p.2.Spares c.dev c.first)
    (hD : s.Content c.dev c.first D) : u.Ok ∧ u.Tracked ∧ u.Content c.dev c.first D := by
  refine Logged.inv (I := fun _ u => u.Ok ∧ u.Tracked ∧ u.Content c.dev c.first D) h
    (P := fun p => c.Met p.1 p.2 ∧ p.2.Spares c.dev c.first)
    (fun p hp => ⟨hmet p hp, hsp p hp⟩) ⟨hok, hT, hD⟩ ?_
  rintro log u ev v ⟨hok, hT, hD⟩ ⟨hmet, hsp⟩ ⟨-, hs, hb⟩
  exact ⟨hok.step hs hb, hT.step hok hs,
    hD.step hok hT hdev hs hsp (hmet.written _ List.mem_cons_self)⟩

/-- The references to a head, the call's and the others. -/
theorem refsTo_eq (c : ReadAhead n) (s : State n) (b : ℕ) : s.refsTo b = c.others s b +
    refsTo b (s.task c.task).ret.toList +
      refsTo b ((s.task c.task).stack.flatMap Frame.refs) := by
  rw [State.refsTo, ← Finset.sum_erase_add _ _ (Finset.mem_univ c.task), others, Task.refs,
    refsTo_append, refsTo_append]
  omega

/-- **The call leaves no count behind.** -/
theorem counts_of_ended (hok : s.Ok) (hbegins : c.Begins s) (hinv : c.Inv s log u)
    (hend : c.Ended u log) {b : ℕ} (hb : b < s.sys.cache.nrBuffers) :
    (u.sys.cache.head b).count + c.others s b =
      (s.sys.cache.head b).count + c.others u b + refsTo b (u.task c.task).ret.toList := by
  -- neither the call nor its caller has a reference when it begins
  have hstart : (s.task c.task).stack.flatMap Frame.refs = c.back.flatMap Frame.refs := by
    rw [hbegins.stack]
    rfl
  have hnone : refsTo b (s.task c.task).ret.toList = 0 := by
    rw [hbegins.ret]
    rfl
  rw [hok.count b hb, hinv.ok.count b (hinv.nrBuffers ▸ hb), refsTo_eq c s, refsTo_eq c u, hstart,
    hend.stack, hnone]
  omega

/-- A buffer that is read, as its user sees it. -/
theorem read_of_backed (hT : s.Tracked) {block b : ℕ} (hcar : s.sys.cache.Carries c.dev block b)
    (h : s.Backed log c.dev block b) : c.Read s log block := by
  rcases h with hup | ⟨i, r, hi, rfl, hc⟩ | hfail
  · exact Or.inl ⟨b, hcar, Or.inl hup⟩
  · obtain ⟨maj, hmaj⟩ := hT.queued.queued i (by rw [hi]; simp)
    obtain ⟨hd, hsec⟩ := (hT.carries hi).mp hcar
    exact Or.inl ⟨r.bh, hcar, Or.inr ⟨hT.lock_of_slot hi, maj, i, r, hmaj, hi, hc, rfl, hd, hsec⟩⟩
  · exact Or.inr hfail

/-- **The invariant of the cache**, and that the requests are kept track of. -/
theorem ok_of_reachable (h : Reachable State.Start
    (fun s s' => ∃ ev, s.step ev = some s' ∧ s'.Bounded) s) : s.Ok ∧ s.Tracked :=
  h.inv (I := fun s : State n => s.Ok ∧ s.Tracked) (fun _ h0 => ⟨h0.ok, h0.tracked⟩)
    fun _ _ ⟨hok, hT⟩ ⟨_, hs, hb⟩ => ⟨hok.step hs hb, hT.step hok hs⟩

/-- **`breada` does what it is for** in every run in which each block of the list, when its
turn comes, is the first block again or is up to date, in which no buffer of a block that
it has gone through is taken, and in which no write of one of the blocks fails. -/
theorem breada_reads (hreach : Reachable State.Start
      (fun s s' => ∃ ev, s.step ev = some s' ∧ s'.Bounded) s)
    (hbegins : c.Begins s) (hdrv : c.Driven s) (h : c.During s log s')
    (hback : (s'.task c.task).stack = c.back) (hmet : ∀ p ∈ log, c.Met p.1 p.2) :
    c.Returned s log s' := by
  obtain ⟨hok, hT⟩ := ok_of_reachable hreach
  have hinv := h.inv hok hT hbegins hdrv hmet
  have hend : c.Ended s' log := by
    refine hinv.at'.resolve_left ?_
    rintro ⟨gs, f, hst, -⟩
    have hlen := congrArg List.length (hback.symm.trans hst)
    simp at hlen
    omega
  have hgiven : ∀ e ∈ (s'.task c.task).ret, s'.sys.cache.Carries c.dev c.first e.bh ∧
      (s'.sys.cache.head e.bh).uptodate = true := by
    intro e he
    obtain ⟨⟨hd, hb⟩, hup⟩ := hend.given e he
    have hg := (hinv.ok.task c.task).good e (by
      rw [Task.refs, he]
      exact List.mem_append_left _ (List.mem_append_right _ (List.mem_singleton_self e)))
    exact ⟨⟨hg.lt, hg.dev.trans hd, hg.block.trans hb⟩, hup⟩
  constructor
  · exact hgiven
  · intro hsp D hD e he
    obtain ⟨hcar, hup⟩ := hgiven e he
    exact (h.content hok hT hdrv.dev hmet hsp hD).2.2.data e.bh hcar (Or.inl hup)
  · exact hend.unreadable
  · intro block hblock
    obtain ⟨done, hblocks, hdone⟩ := hend.done
    rw [List.append_nil] at hblocks
    by_cases hfirst : block = c.first
    · rw [hfirst]
      cases hr : (s'.task c.task).ret with
      | none => exact Or.inr (hend.unreadable hr)
      | some e =>
        obtain ⟨hcar, hup⟩ := hgiven e hr
        exact Or.inl ⟨e.bh, hcar, Or.inl hup⟩
    · obtain ⟨b, hcar, hback⟩ := hdone block (hblocks ▸ hblock) hfirst
      exact read_of_backed hinv.tracked hcar hback
  · exact fun b hb => counts_of_ended hok hbegins hinv hend hb

end End

/-! ### Two calls

A machine with two buffers and one task. -/

section Runs

variable {c : ReadAhead 1} {s u : State 1} {evs : List (Event 1)} {p : Log 1 × State 1}

/-- The task. -/
def solo : Fin 1 := ⟨0, Nat.one_pos⟩

theorem bounded_of_length (h : (u.task solo).refs.length ≤ 255) : u.Bounded := by
  intro b
  rw [State.refsTo, Fin.sum_univ_one]
  exact (List.countP_le_length).trans h

/-- A step of a machine with one task, which has few references and has not returned from
`least` of its calls. -/
def stepIn (least : ℕ) (u : State 1) (ev : Event 1) : Option (State 1) :=
  if least ≤ (u.task solo).stack.length then
    (u.step ev).filter fun v => (v.task solo).refs.length ≤ 255
  else none

theorem step_of_stepIn {least : ℕ} {ev : Event 1} {v : State 1} (h : stepIn least u ev = some v) :
    least ≤ (u.task solo).stack.length ∧ u.step ev = some v ∧ v.Bounded := by
  rw [stepIn] at h
  split at h
  · next hlen =>
    obtain ⟨hs, hrefs⟩ := Option.filter_eq_some_iff.mp h
    exact ⟨hlen, hs, bounded_of_length (of_decide_eq_true hrefs)⟩
  · cases h

theorem reachable_of_trace (h : trace (stepIn 0) evs [] u = some p) (hu : u.Start) :
    Reachable State.Start (fun s s' => ∃ ev, s.step ev = some s' ∧ s'.Bounded) p.2 :=
  trace_reachable h (fun _ ev _ hs => ⟨ev, (step_of_stepIn hs).2⟩) (.start hu)

theorem during_of_trace (h : trace (stepIn (c.back.length + 1)) evs [] s = some p) :
    c.During s p.1 p.2 := by
  refine trace_logged h (fun u ev v hs => ⟨fun hback => ?_, (step_of_stepIn hs).2⟩) .start
  have hlen := (step_of_stepIn hs).1
  rw [Subsingleton.elim solo c.task, hback] at hlen
  omega

/-- A test for `Met`: no buffer of the device is taken, and every transfer succeeds. -/
def plain (c : ReadAhead 1) (q : State 1 × Event 1) : Bool :=
  match q.2 with
  | .run _ =>
    match (q.1.task c.task).stack with
    | .breadaAhead _ _ block _ :: _ => block == c.first ||
        (q.1.task c.task).ret.any fun tmp => (q.1.sys.cache.head tmp.bh).uptodate
    | .getblkWait _ _ b :: _ => (q.1.sys.cache.head b).dev != c.dev
    | _ => true
  | .endRequest _ uptodate _ => uptodate
  | _ => true

theorem met_of_plain {q : State 1 × Event 1} (h : plain c q = true) : c.Met q.1 q.2 := by
  obtain ⟨v, ev⟩ := q
  constructor
  · rintro rfl e block ahead hst
    rw [plain] at h
    dsimp only at h
    rw [hst] at h
    rw [Bool.or_eq_true, beq_iff_eq] at h
    refine h.imp_right fun h => ?_
    obtain ⟨tmp, htmp, hup⟩ := (Option.any_eq_true _ _).mp h
    exact ⟨tmp, htmp, hup⟩
  · rintro block b - hcar hseize
    cases ev with
    | run t =>
      obtain ⟨dev, k, st, hst, -⟩ := hseize
      obtain rfl : t = c.task := Subsingleton.elim _ _
      rw [plain] at h
      dsimp only at h
      rw [hst] at h
      exact bne_iff_ne.mp h hcar.2.1
    | _ => exact hseize
  · intro block _
    cases ev with
    | endRequest maj up junk =>
      rw [plain] at h
      dsimp only at h
      subst h
      trivial
    | _ => trivial

/-- Two buffers, and a task that has called nothing yet. -/
def twoBuffers : State 1 where
  sys := { oneBuffer with cache := bufferInit 2 oneBuffer.cache.head }
  task _ := ⟨[], none, [], []⟩
  stored := oneBuffer.disk

theorem twoBuffers_start : twoBuffers.Start :=
  ⟨⟨2, _, Nat.two_pos, rfl⟩, fun _ => rfl, fun _ => rfl, fun _ => rfl, fun _ => rfl, rfl⟩

/-- The task runs on. -/
def runs (k : ℕ) : List (Event 1) := List.replicate k (.run solo)

/-- The request of the first hard disk ends well. -/
def ends : Event 1 := .endRequest 1 true fun _ => 0

/-- Block 0, ahead of it block 1, and block 0 again. -/
def again : ReadAhead 1 := ⟨solo, [], 256, 0, [1, 0]⟩

/-- Block 1 has been read, and the call is made. -/
def againEvents : List (Event 1) :=
  .act solo (.call (.bread 256 1)) :: runs 7 ++ ends :: runs 1 ++
    [.act solo .take, .act solo (.release ⟨0, 256, 1⟩)] ++ runs 1 ++
    [.act solo .take, .act solo (.call (.breada 256 0 [1, 0]))]

def againStart : Log 1 × State 1 :=
  (trace (stepIn 0) againEvents [] twoBuffers).get (by decide +kernel)

/-- The run of the call. -/
def againEnd : Log 1 × State 1 :=
  (trace (stepIn 2) (runs 17 ++ ends :: runs 6) [] againStart.2).get (by decide +kernel)

theorem againStart_eq : trace (stepIn 0) againEvents [] twoBuffers = some againStart :=
  (Option.some_get _).symm

theorem againEnd_eq :
    trace (stepIn 2) (runs 17 ++ ends :: runs 6) [] againStart.2 = some againEnd :=
  (Option.some_get _).symm

/-- The block of the list that is not the first one is in the cache. -/
theorem breada_reads_again : again.Returned againStart.2 againEnd.1 againEnd.2 :=
  breada_reads (reachable_of_trace againStart_eq twoBuffers_start)
    ⟨by decide +kernel, by decide +kernel⟩ ⟨by decide, by decide, by decide +kernel⟩
    (during_of_trace againEnd_eq) (by decide +kernel)
    fun q hq => met_of_plain (List.all_eq_true.mp (by decide +kernel) q hq)

/-- A test for a request that does not end with an error. -/
def endsWell (q : State 1 × Event 1) : Bool :=
  match q.2 with
  | .endRequest _ uptodate _ => uptodate
  | _ => true

/-- Block 0, and ahead of it block 1. -/
def fresh : ReadAhead 1 := ⟨solo, [], 256, 0, [1]⟩

/-- The call is made while nothing is in the cache. -/
def freshStart : Log 1 × State 1 :=
  (trace (stepIn 0) [.act solo (.call (.breada 256 0 [1]))] [] twoBuffers).get (by decide +kernel)

/-- The run of the call. -/
def freshEnd : Log 1 × State 1 :=
  (trace (stepIn 2) (runs 15 ++ ends :: runs 1) [] freshStart.2).get (by decide +kernel)

theorem freshStart_eq :
    trace (stepIn 0) [.act solo (.call (.breada 256 0 [1]))] [] twoBuffers = some freshStart :=
  (Option.some_get _).symm

theorem freshEnd_eq :
    trace (stepIn 2) (runs 15 ++ ends :: runs 1) [] freshStart.2 = some freshEnd :=
  (Option.some_get _).symm

/-- **A block that is not in the cache is not read ahead**, though the device has a driver
and there is always an empty request. -/
theorem not_breada_reads : ¬∀ (n : ℕ) (c : ReadAhead n) (s s' : State n) (log : Log n),
    Reachable State.Start (fun s s' => ∃ ev, s.step ev = some s' ∧ s'.Bounded) s →
    c.Begins s → c.Driven s → c.During s log s' → (s'.task c.task).stack = c.back →
    (∀ p ∈ log, (p.1.sys.emptySlot nrRequest).isSome) → c.Returned s log s' := by
  intro h
  have hread := (h 1 fresh freshStart.2 freshEnd.2 freshEnd.1
    (reachable_of_trace freshStart_eq twoBuffers_start)
    ⟨by decide +kernel, by decide +kernel⟩ ⟨by decide, by decide, by decide +kernel⟩
    (during_of_trace freshEnd_eq) (by decide +kernel)
    (by decide +kernel)).ahead 1 (List.mem_singleton_self 1)
  rcases hread with ⟨b, ⟨hlt, -, hblock⟩, hup⟩ | ⟨u, maj, junk, r, hmem, -⟩
  · -- the buffer of block 1 is the second one, and nothing has been read into it
    have hnr : freshEnd.2.sys.cache.nrBuffers = 2 := by decide +kernel
    rw [hnr] at hlt
    have hnot : (freshEnd.2.sys.cache.head 0).blocknr ≠ 1 ∧
        (freshEnd.2.sys.cache.head 1).uptodate = false ∧
        (freshEnd.2.sys.cache.head 1).lock = false := by decide +kernel
    obtain rfl | rfl : b = 0 ∨ b = 1 := by omega
    · exact hnot.1 hblock
    · rw [hnot.2.1, hnot.2.2] at hup
      rcases hup with hup | ⟨hup, -⟩ <;> cases hup
  · have hall : freshEnd.1.all endsWell = true := by decide +kernel
    exact Bool.false_ne_true (List.all_eq_true.mp hall _ hmem)

end Runs

end ReadAhead

end Linux011.Buffer

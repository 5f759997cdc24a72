import Linux011.Buffer.Breada
import Linux011.Buffer.Callers

/-!
# Dirty buffers, and devices without a driver

`ll_rw_block` does nothing for a device that has no request function, and leaves `b_dirt` as
it is. Of the functions that dirty buffers, all but one have read the buffer, or the super
block of its device, and that is a device with a driver; `block_write` takes a buffer for a
whole block without a look at the device.

`Linux011.Buffer.World.Served` is what holds as long as that never happens on a device
without a driver: a buffer that is dirty, or up to date, is one of a device that has one. A
pass of `sync_dev` then cleans it (`Linux011.Buffer.World.Pass.clean`), and the loop of
`getblk` that waits for that ends.
-/

namespace Linux011.Buffer

variable {n : ℕ}

/-! ### The cache -/

/-- **What is dirty or up to date is of a device with a driver**, and so are the requests. -/
structure State.Served (s : State n) : Prop where
  ok : s.Ok
  tracked : s.Tracked
  fitting : ∀ t, Fitting (s.task t).stack
  frame : ∀ t, ∀ f ∈ (s.task t).stack, f.Served s.sys
  uptodate : ∀ b, b < s.sys.cache.nrBuffers → (s.sys.cache.head b).uptodate = true →
    s.sys.HasDriver (s.sys.cache.head b).dev
  dirt : ∀ b, b < s.sys.cache.nrBuffers → (s.sys.cache.head b).dirt = true →
    s.sys.HasDriver (s.sys.cache.head b).dev
  slot : ∀ i r, s.sys.slot i = some r → s.sys.HasDriver r.dev
  /-- What `bread` and `breada` have returned is of such a device. -/
  ret : ∀ t, ∀ e ∈ (s.task t).ret, ∀ f ∈ (s.task t).stack.head?, f.wantsRead = true →
    s.sys.HasDriver e.dev

section Cache

variable {s s' : State n} {t : Fin n} {ev : Event n} {dev b : ℕ} {f : Frame} {st : List Frame}

theorem hasDriver_congr {s s' : Sys} (h : s'.requestFn = s.requestFn) :
    s'.HasDriver dev ↔ s.HasDriver dev := by
  rw [Sys.HasDriver, Sys.HasDriver, h]

/-- A frame that waits to lock a buffer for reading has a reference to it below. -/
theorem Fitting.ref (h : Fitting st) (hf : f ∈ st) (hb : f.awaitsLock = some b) :
    ∃ e ∈ st.flatMap Frame.refs, e.bh = b := by
  induction st with
  | nil => cases hf
  | cons g st ih =>
    obtain ⟨-, hlock, hst⟩ := h
    rw [List.flatMap_cons]
    rcases List.mem_cons.mp hf with rfl | hf
    · obtain ⟨g, hg, e, he, hbh⟩ := hlock b hb
      refine ⟨e, List.mem_append_right _ (List.mem_flatMap.mpr ⟨g, ?_, he⟩), hbh⟩
      exact List.mem_of_head? hg
    · obtain ⟨e, he, hbh⟩ := ih hst hf
      exact ⟨e, List.mem_append_right _ he, hbh⟩

/-- **A frame that is about to make a request goes on being served**: its buffer is locked, or
counted. -/
theorem State.Served.frame_keep (h : s.Served) (hs : s.step ev = some s')
    (hf : f ∈ (s.task t).stack) : f.Served s'.sys := by
  have hold := h.frame t f hf
  have hkeep : ∀ bh, ¬s.Seizes ev bh → s.sys.HasDriver (s.sys.cache.head bh).dev →
      s'.sys.HasDriver (s'.sys.cache.head bh).dev := fun bh hno hd => by
    rw [(h.ok.tag_step hs hno).1]
    exact (hasDriver_congr (h.ok.fixed_step hs).2).mpr hd
  cases f with
  | lockBuffer cmd now maj bh =>
    cases cmd with
    | write => trivial
    | read =>
      obtain ⟨e, he, rfl⟩ := (h.fitting t).ref hf (b := bh) rfl
      refine hkeep e.bh (h.ok.not_seizes (t := t) ?_) hold
      rw [Task.refs]
      exact List.mem_append_right _ he
  | makeRequest cmd now maj bh =>
    refine hkeep bh (fun hseize => ?_) hold
    have hlock : (s.sys.cache.head bh).lock = false := by
      cases ev with
      | run u =>
        obtain ⟨-, -, -, -, -, hlock, -⟩ := hseize
        exact hlock
      | _ => exact hseize.elim
    exact h.tracked.locks_ne hlock hf rfl
  | _ => trivial

/-- **A task runs on.** -/
theorem State.Served.run (h : s.Served) (hr : s.run t = some s') (hbound : s'.Bounded) :
    s'.Served := by
  have hs : s.step (.run t) = some s' := hr
  have hok' := h.ok.step hs hbound
  have hT' := h.tracked.step h.ok hs
  have hdrv : ∀ dev, s'.sys.HasDriver dev ↔ s.sys.HasDriver dev := fun dev =>
    hasDriver_congr (h.ok.fixed_step hs).2
  have hnr := (h.ok.fixed_step hs).1
  obtain ⟨f, st, fs, ret, hst, hstep, htask, -⟩ := State.run_cases hr
  have hmem : ∀ g, g = f ∨ g ∈ st → g ∈ (s.task t).stack := fun g hg => by
    rw [hst]
    exact List.mem_cons.mpr hg
  have hshape := Frame.shape hstep (h.frame t f (hmem f (Or.inl rfl))) fun b hb =>
    h.dirt b ((h.ok.task t).target f (hmem f (Or.inl rfl)) b hb)
  have hself : (s'.task t).stack = fs ++ st ∧ (s'.task t).ret = ret := by
    rw [htask, Function.update_self]
    exact ⟨rfl, rfl⟩
  have hother : ∀ u, u ≠ t → s'.task u = s.task u := fun u hu => by
    rw [htask, Function.update_of_ne hu]
  have hup : ∀ b, b < s'.sys.cache.nrBuffers → (s'.sys.cache.head b).uptodate = true →
      s'.sys.HasDriver (s'.sys.cache.head b).dev := by
    intro b hb hup
    rw [hdrv]
    cases h.ok.ran hr with
    | quiet hq =>
      rw [(BufferHead.look_flags (hq.look b)).1] at hup
      rw [(BufferHead.look_tag (hq.look b)).1]
      exact h.uptodate b (hnr ▸ hb) hup
    | @took d k bh st' _ _ ht =>
      have hne : b ≠ bh := by
        rintro rfl
        rw [ht.now.2.2.1] at hup
        cases hup
      rw [(BufferHead.look_flags (ht.look b hne)).1] at hup
      rw [(BufferHead.look_tag (ht.look b hne)).1]
      exact h.uptodate b (hnr ▸ hb) hup
    | @added cmd now maj bh i st' _ _ _ _ hsys =>
      rw [hsys, Sys.addRequest_head] at hup ⊢
      split at hup
      · next hbh =>
        rw [if_pos hbh]
        subst hbh
        exact h.uptodate _ (hnr ▸ hb) hup
      · next hbh =>
        rw [if_neg hbh]
        exact h.uptodate b (hnr ▸ hb) hup
  refine ⟨hok', hT', fun u => ?_, fun u g hg => ?_, hup, fun b hb hd => ?_, fun i r hi => ?_,
    fun u e he g hg hw => ?_⟩
  · by_cases hu : u = t
    · rw [hu, hself.1]
      exact hshape.fitting st (hst ▸ h.fitting t)
    · rw [hother u hu]
      exact h.fitting u
  · by_cases hu : u = t
    · subst hu
      rw [hself.1] at hg
      rcases List.mem_append.mp hg with hg | hg
      · exact hshape.served g hg
      · exact h.frame_keep hs (hmem g (Or.inr hg))
    · rw [hother u hu] at hg
      exact h.frame_keep hs hg
  · rw [hdrv]
    cases h.ok.ran hr with
    | quiet hq =>
      rw [(BufferHead.look_flags (hq.look b)).2] at hd
      rw [(BufferHead.look_tag (hq.look b)).1]
      exact h.dirt b (hnr ▸ hb) hd
    | @took d k bh st' _ _ ht =>
      have hne : b ≠ bh := by
        rintro rfl
        rw [ht.now.2.2.2] at hd
        cases hd
      rw [(BufferHead.look_flags (ht.look b hne)).2] at hd
      rw [(BufferHead.look_tag (ht.look b hne)).1]
      exact h.dirt b (hnr ▸ hb) hd
    | @added cmd now maj bh i st' _ _ _ _ hsys =>
      rw [hsys, Sys.addRequest_head] at hd ⊢
      split at hd
      · cases hd
      · next hbh =>
        rw [if_neg hbh]
        exact h.dirt b (hnr ▸ hb) hd
  · rw [hdrv]
    cases h.ok.ran hr with
    | quiet hq => exact h.slot i r (hq.slot ▸ hi)
    | took _ _ ht => exact h.slot i r (ht.slot ▸ hi)
    | @added cmd now maj bh j st' hst' _ _ _ hsys =>
      rw [hsys, Sys.addRequest_slot] at hi
      by_cases hij : i = j
      · rw [hij, Function.update_self] at hi
        obtain rfl := Option.some.inj hi
        exact h.frame t (.makeRequest cmd now maj bh) (hst' ▸ List.mem_cons_self)
      · rw [Function.update_of_ne hij] at hi
        exact h.slot i r hi
  · by_cases hu : u = t
    · subst hu
      rw [hself.2] at he
      rw [hself.1] at hg
      have hframe := h.ok.frame hst hstep
      obtain ⟨rfl, -⟩ := hframe.result e he
      have hgood : e.Good s'.sys.cache := (hok'.task u).good e (by
        rw [Task.refs, hself.2, he]
        exact List.mem_append_left _ (List.mem_append_right _ (List.mem_singleton_self e)))
      have hread : f.reads = true := by
        have hfit := h.fitting u
        rw [hst] at hfit
        exact hfit.1 g hg hw
      rw [← hgood.dev]
      exact hup e.bh hgood.lt (hshape.ret hread e he)
    · rw [hother u hu] at he hg
      rw [hdrv]
      exact h.ret u e he g hg hw

/-- **A driver moves a block, or ends a request.** -/
theorem State.Served.driver (h : s.Served) (hs : s.step ev = some s') (hbound : s'.Bounded)
    (hev : (∃ maj, ev = .move maj) ∨ ∃ maj up junk, ev = .endRequest maj up junk) :
    s'.Served := by
  have hok' := h.ok.step hs hbound
  have hT' := h.tracked.step h.ok hs
  have hdrv : ∀ dev, s'.sys.HasDriver dev ↔ s.sys.HasDriver dev := fun dev =>
    hasDriver_congr (h.ok.fixed_step hs).2
  rcases hev with ⟨maj, rfl⟩ | ⟨maj, up, junk, rfl⟩
  · obtain ⟨sys, hm, rfl⟩ := Option.map_eq_some_iff.mp hs
    obtain ⟨r, -, -, -, rfl⟩ := Sys.move_cases hm
    exact ⟨hok', hT', h.fitting, h.frame, h.uptodate, h.dirt, h.slot, h.ret⟩
  · have hframe : ∀ t, ∀ f ∈ (s.task t).stack, f.Served s'.sys := fun t f hf =>
      h.frame_keep hs hf
    obtain ⟨sys, he, rfl⟩ := Option.map_eq_some_iff.mp hs
    have htag := (State.endRequest_same he).tag
    obtain ⟨i, rest, r, -, hi, -, hhead, hnr, hslot, -, -, -, hfn⟩ := Sys.endRequest_cases he
    refine ⟨hok', hT', h.fitting, hframe, fun b hb hup => ?_, fun b hb hd => ?_, fun j r' hj => ?_,
      fun t e hret f hf hw => (hdrv _).mpr (h.ret t e hret f hf hw)⟩
    · change sys.HasDriver (sys.cache.head b).dev
      change (sys.cache.head b).uptodate = true at hup
      rw [(htag b).1, hasDriver_congr hfn]
      rw [hhead] at hup
      split at hup
      · next hbr =>
        -- the request was for the block of the buffer
        rw [hbr, ← (h.tracked.request i r hi).2.1]
        exact h.slot i r hi
      · exact h.uptodate b (hnr ▸ hb) hup
    · change sys.HasDriver (sys.cache.head b).dev
      change (sys.cache.head b).dirt = true at hd
      rw [(htag b).1, hasDriver_congr hfn]
      refine h.dirt b (hnr ▸ hb) ?_
      rw [hhead] at hd
      split at hd
      · next hbr =>
        rw [hbr]
        exact hd
      · exact hd
    · change sys.slot j = some r' at hj
      rw [hslot, Function.update_apply] at hj
      split at hj
      · cases hj
      · exact (hdrv _).mpr (h.slot j r' hj)

/-- What a function may do to the flags of a buffer: it is one of a device with a driver. -/
def Act.Served (s : State n) : Act → Prop
  | .mark e => s.sys.HasDriver e.dev
  | .validate e => s.sys.HasDriver e.dev
  | _ => True

/-- The frames that a call begins with. -/
theorem Fitting.call (h : Fitting st) (hst : ∀ g ∈ st.head?, g.wantsRead = false) (c : Call) :
    Fitting (c.frame :: .caller (some c) :: st) := by
  refine ⟨fun g hg hw => ?_, ?_, fun g hg hw => ?_, by simp [Frame.awaitsLock], h⟩
  · obtain rfl := Option.some.inj hg
    cases c <;> first | rfl | cases hw
  · cases c <;> simp [Call.frame, Frame.awaitsLock]
  · rw [hst g hg] at hw
    cases hw

theorem Fitting.release (h : Fitting st) (hst : ∀ g ∈ st.head?, g.wantsRead = false) (e : Ref) :
    Fitting (.brelse e :: .caller none :: st) := by
  refine ⟨fun g hg hw => ?_, by simp [Frame.awaitsLock], fun g hg hw => ?_,
    by simp [Frame.awaitsLock], h⟩
  · obtain rfl := Option.some.inj hg
    cases hw
  · rw [hst g hg] at hw
    cases hw

/-- A task that may call has no caller of `bread` on top. -/
theorem wantsRead_of_idle {v : Task} (h : v.idle = true) :
    ∀ g ∈ v.stack.head?, g.wantsRead = false := by
  intro g hg
  rw [Task.idle] at h
  split at h
  · next hst =>
    rw [hst] at hg
    cases hg
  · next hst =>
    rw [hst] at hg
    obtain rfl := Option.some.inj hg
    rfl
  · cases h

/-- **A task acts.** -/
theorem State.Served.act (h : s.Served) {a : Act} (ha : s.act t a = some s')
    (hbound : s'.Bounded) (hserved : a.Served s) : s'.Served := by
  have hs : s.step (.act t a) = some s' := ha
  have hok' := h.ok.step hs hbound
  have hT' := h.tracked.step h.ok hs
  have hdrv : ∀ dev, s'.sys.HasDriver dev ↔ s.sys.HasDriver dev := fun dev =>
    hasDriver_congr (h.ok.fixed_step hs).2
  have hsame := State.act_same ha
  have hslot : s'.sys.slot = s.sys.slot := by
    cases State.act_cases ha <;> rfl
  -- the stack and the result of the task
  have hself : ∀ v, (s.setTask t v).task t = v := State.setTask_self s t
  have hother : ∀ u, u ≠ t → s'.task u = s.task u := fun u hu =>
    State.task_of_other hs (by simp) fun b hb => hu (Event.act.inj hb).1.symm
  have hmine : Fitting (s'.task t).stack ∧ (∀ f ∈ (s'.task t).stack, f.Served s'.sys) ∧
      ∀ e ∈ (s'.task t).ret, ∀ f ∈ (s'.task t).stack.head?, f.wantsRead = true →
        s'.sys.HasDriver e.dev := by
    have hold : ∀ f ∈ (s.task t).stack, f.Served s'.sys := fun f hf => h.frame_keep hs hf
    have hsame : (s'.task t).stack = (s.task t).stack → (s'.task t).ret = (s.task t).ret →
        Fitting (s'.task t).stack ∧ (∀ f ∈ (s'.task t).stack, f.Served s'.sys) ∧
          ∀ e ∈ (s'.task t).ret, ∀ f ∈ (s'.task t).stack.head?, f.wantsRead = true →
            s'.sys.HasDriver e.dev := by
      intro hst hret
      rw [hst, hret]
      exact ⟨h.fitting t, hold, fun e he f hf hw => (hdrv _).mpr (h.ret t e he f hf hw)⟩
    cases State.act_cases ha with
    | take hst =>
      rw [hself]
      have hfit := h.fitting t
      rw [hst] at hfit
      exact ⟨hfit.2.2, fun f hf => hold f (hst ▸ List.mem_cons_of_mem _ hf), by simp⟩
    | @call c hidle =>
      rw [hself]
      refine ⟨(h.fitting t).call (wantsRead_of_idle hidle) c, fun f hf => ?_, by simp⟩
      rcases List.mem_cons.mp hf with rfl | hf
      · cases c <;> trivial
      · rcases List.mem_cons.mp hf with rfl | hf
        · trivial
        · exact hold f hf
    | @release e hidle =>
      rw [hself]
      refine ⟨(h.fitting t).release (wantsRead_of_idle hidle) e, fun f hf => ?_, by simp⟩
      rcases List.mem_cons.mp hf with rfl | hf
      · trivial
      · rcases List.mem_cons.mp hf with rfl | hf
        · trivial
        · exact hold f hf
    | store =>
      refine hsame ?_ ?_
      · change ((s.setTask t _).task t).stack = _
        rw [hself]
      · change ((s.setTask t _).task t).ret = _
        rw [hself]
    | mark =>
      refine hsame ?_ ?_
      · change ((s.setTask t _).task t).stack = _
        rw [hself]
      · change ((s.setTask t _).task t).ret = _
        rw [hself]
    | validate => exact hsame rfl rfl
  -- a buffer whose flag is set is the one of a reference
  have hflag : ∀ e ∈ (s.task t).held, s.sys.HasDriver e.dev →
      s.sys.HasDriver (s.sys.cache.head e.bh).dev := by
    intro e he hd
    have hg := (h.ok.task t).good e (by
      rw [Task.refs]
      exact List.mem_append_left _ (List.mem_append_left _ he))
    rw [hg.dev]
    exact hd
  refine ⟨hok', hT', fun u => ?_, fun u f hf => ?_, fun b hb hup => ?_, fun b hb hd => ?_, ?_,
    fun u => ?_⟩
  · by_cases hu : u = t
    · exact hu ▸ hmine.1
    · rw [hother u hu]
      exact h.fitting u
  · by_cases hu : u = t
    · subst hu
      exact hmine.2.1 f hf
    · rw [hother u hu] at hf
      exact h.frame_keep hs hf
  · rw [(hsame.tag b).1, hdrv]
    rw [hsame.nrBuffers] at hb
    cases State.act_cases ha with
    | @validate e hidle he =>
      rw [Sys.head_setHead] at hup
      split at hup
      · next hbe =>
        rw [hbe]
        exact hflag e he hserved
      · exact h.uptodate b hb hup
    | @store e f =>
      rw [Sys.head_setHead] at hup
      split at hup
      · next hbe => exact h.uptodate b hb (hbe ▸ hup)
      · exact h.uptodate b hb hup
    | @mark e =>
      rw [Sys.head_setHead] at hup
      split at hup
      · next hbe => exact h.uptodate b hb (hbe ▸ hup)
      · exact h.uptodate b hb hup
    | _ => exact h.uptodate b hb hup
  · rw [(hsame.tag b).1, hdrv]
    rw [hsame.nrBuffers] at hb
    cases State.act_cases ha with
    | @mark e hidle he =>
      rw [Sys.head_setHead] at hd
      split at hd
      · next hbe =>
        rw [hbe]
        exact hflag e he hserved
      · exact h.dirt b hb hd
    | @store e f =>
      rw [Sys.head_setHead] at hd
      split at hd
      · next hbe => exact h.dirt b hb (hbe ▸ hd)
      · exact h.dirt b hb hd
    | @validate e =>
      rw [Sys.head_setHead] at hd
      split at hd
      · next hbe => exact h.dirt b hb (hbe ▸ hd)
      · exact h.dirt b hb hd
    | _ => exact h.dirt b hb hd
  · intro i r hi
    rw [hslot] at hi
    exact (hdrv _).mpr (h.slot i r hi)
  · by_cases hu : u = t
    · exact hu ▸ hmine.2.2
    · rw [hother u hu]
      exact fun e he f hf hw => (hdrv _).mpr (h.ret u e he f hf hw)

theorem State.Start.served (h : s.Start) : s.Served := by
  obtain ⟨m, old, hm, hc⟩ := h.cache
  refine ⟨h.ok, h.tracked, fun t => ?_, fun t f hf => ?_, fun b _ hup => ?_, fun b _ hd => ?_,
    fun i r hi => ?_, fun t e he => ?_⟩
  · rw [h.task t]
    trivial
  · rw [h.task t] at hf
    cases hf
  · rw [hc] at hup
    cases hup
  · rw [hc] at hd
    cases hd
  · rw [h.slot] at hi
    cases hi
  · rw [h.task t] at he
    cases he

end Cache

/-! ### The functions -/

/-- What is said to be read is. -/
def Op.Plain : Op → Prop
  | .call c .read => (Frame.caller (some c)).wantsRead = true
  | _ => True

section Functions

variable {dev : ℕ} {copy : ℕ → Block → Block}

theorem blockWriteLoop_plain (k pos count : ℕ) :
    ∀ op ∈ blockWriteLoop dev copy k pos count, op.Plain := by
  induction k generalizing pos count with
  | zero => simp [blockWriteLoop]
  | succ k ih =>
    rw [blockWriteLoop]
    split
    · simp
    · intro op hop
      simp only [List.mem_cons] at hop
      rcases hop with rfl | rfl | rfl | rfl | hop
      · split
        · trivial
        · rfl
      · trivial
      · trivial
      · trivial
      · exact ih _ _ op hop

theorem newBlock_plain (z : Slot) : ∀ op ∈ newBlock dev z, op.Plain := by
  rw [newBlock]
  split
  · simp
  · simp [Op.Plain, Frame.wantsRead]

theorem fillSlot_plain (b : ℕ) (z : Slot) : ∀ op ∈ fillSlot dev b z, op.Plain := by
  intro op hop
  simp only [fillSlot, List.cons_append, List.mem_cons, List.mem_append] at hop
  rcases hop with rfl | (hop | hop) | hop
  · rfl
  · exact newBlock_plain z op hop
  · split at hop
    · rcases List.mem_cons.mp hop with rfl | hop
      · trivial
      · obtain rfl := List.mem_singleton.mp hop
        trivial
    · cases hop
  · rcases hop with rfl | hop
    · trivial
    · cases hop

theorem createBlock_plain (block : ℕ) (z z' z'' : Slot) :
    ∀ op ∈ (createBlock dev block z z' z'').1, op.Plain := by
  have happ : ∀ l l' : List Op, (∀ op ∈ l, op.Plain) → (∀ op ∈ l', op.Plain) →
      ∀ op ∈ l ++ l', op.Plain := fun l l' hl hl' op hop =>
    (List.mem_append.mp hop).elim (hl op) (hl' op)
  rw [createBlock]
  split
  · simp
  split
  · exact newBlock_plain z
  split
  · exact newBlock_plain z
  split
  · exact happ _ _ (newBlock_plain z) (fillSlot_plain _ z')
  split
  · exact happ _ _ (newBlock_plain z) (fillSlot_plain _ z')
  · exact happ _ _ (happ _ _ (newBlock_plain z) (fillSlot_plain _ z')) (fillSlot_plain _ z'')

theorem fileWriteLoop_plain {slots : ℕ → Slot × Slot × Slot} (k pos left : ℕ) :
    ∀ op ∈ fileWriteLoop dev copy slots k pos left, op.Plain := by
  induction k generalizing pos left with
  | zero => simp [fileWriteLoop]
  | succ k ih =>
    rw [fileWriteLoop]
    split
    · simp
    · intro op hop
      dsimp only at hop
      split at hop
      · exact createBlock_plain _ _ _ _ op hop
      · simp only [List.mem_append, List.mem_cons] at hop
        rcases hop with hop | rfl | rfl | rfl | rfl | hop
        · exact createBlock_plain _ _ _ _ op hop
        · rfl
        · trivial
        · trivial
        · trivial
        · exact ih _ _ op hop

theorem Routine.plain (f : Routine) : ∀ op ∈ f.ops, op.Plain := by
  cases f with
  | blockWrite dev copy pos count => exact blockWriteLoop_plain _ _ _
  | fileWrite dev copy slots pos count => exact fileWriteLoop_plain _ _ _
  | syncDev => simp [ops, Op.Plain]
  | getblk => simp [ops, Op.Plain]
  | writeInode => simp [ops, Op.Plain, Frame.wantsRead]
  | readSuper => simp [ops, Op.Plain, Frame.wantsRead]

end Functions

/-- **A function has its buffers from devices with a driver**, but for what `block_write` has
taken as a whole. -/
structure Fn.Served (sys : Sys) (fn : Fn) : Prop where
  plain : ∀ op ∈ fn.ops, op.Plain
  own : ∀ p ∈ fn.own, p.2 ≠ .whole → sys.HasDriver p.1.dev
  waits : ∀ c how, fn.waits = some (some c, how) → ∀ q ∈ c.asked,
    (how = .zone → sys.HasDriver q.1) ∧
      (how = .read → (Frame.caller (some c)).wantsRead = true)

theorem Fn.Served.congr {sys sys' : Sys} {fn : Fn} (h : fn.Served sys)
    (hfn : sys'.requestFn = sys.requestFn) : fn.Served sys' := by
  have hdrv : ∀ dev, sys'.HasDriver dev ↔ sys.HasDriver dev := fun dev => hasDriver_congr hfn
  refine ⟨h.plain, fun p hp hw => (hdrv _).mpr (h.own p hp hw), fun c how hc q hq => ?_⟩
  exact ⟨fun hz => (hdrv _).mpr ((h.waits c how hc q hq).1 hz), (h.waits c how hc q hq).2⟩

namespace World

variable {w w' : World n} {t : Fin n} {ev : Happening n}

/-- What the functions wait for. -/
def awaited (fns : List Fn) : List (Option Call) := fns.filterMap fun fn => fn.waits.map Prod.fst

/-- **The invariant**, as long as `block_write` takes no whole block of a device without a
driver. -/
structure Served (w : World n) : Prop where
  s : w.s.Served
  fn : ∀ t, ∀ fn ∈ w.fns t, fn.Served w.s.sys
  /-- The calls under way are those the functions wait for. -/
  calls : ∀ t, (w.s.task t).stack.filterMap Frame.callOf = awaited (w.fns t)
  super : ∀ dev ∈ w.super, w.s.sys.HasDriver dev

/-- **The step does not mark a whole block of a device without a driver.** -/
def Met (w : World n) (ev : Happening n) : Prop :=
  ∀ t fn fns ops e own, ev = .op t → w.fns t = fn :: fns → fn.waits = none →
    fn.ops = .mark :: ops → fn.own = (e, .whole) :: own → w.s.sys.HasDriver e.dev

/-- What an act does to the calls under way. -/
theorem callers_act {s s' : State n} {a : Act} (ha : s.act t a = some s') :
    match a with
    | .take => ∃ c st, (s.task t).stack = .caller c :: st ∧ (s'.task t).stack = st
    | .call c => (s'.task t).stack.filterMap Frame.callOf =
        some c :: (s.task t).stack.filterMap Frame.callOf
    | .release _ => (s'.task t).stack.filterMap Frame.callOf =
        none :: (s.task t).stack.filterMap Frame.callOf
    | _ => (s'.task t).stack = (s.task t).stack := by
  have hself : ∀ v, (s.setTask t v).task t = v := State.setTask_self s t
  cases State.act_cases ha with
  | @take c st hst => exact ⟨c, st, hst, by rw [hself]⟩
  | @call c =>
    dsimp only
    rw [hself]
    cases c <;> rfl
  | release =>
    dsimp only
    rw [hself]
    rfl
  | store =>
    change ((s.setTask t _).task t).stack = _
    rw [hself]
  | mark =>
    change ((s.setTask t _).task t).stack = _
    rw [hself]
  | validate => rfl

/-- **A task acts**, and the functions it is in go on as `fns`. -/
theorem Served.act (h : w.Served) {a : Act} {fns : List Fn} (ha : w.act t a fns = some w')
    (hbound : w'.s.Bounded) (hact : a.Served w.s) (hfns : ∀ fn ∈ fns, fn.Served w.s.sys)
    (hcalls : ∀ s', w.s.act t a = some s' →
      (s'.task t).stack.filterMap Frame.callOf = awaited fns) : w'.Served := by
  obtain ⟨s', hs, rfl⟩ := Option.map_eq_some_iff.mp ha
  have hstep : w.s.step (.act t a) = some s' := hs
  have hfn := (h.s.ok.fixed_step hstep).2
  refine ⟨h.s.act hs hbound hact, fun u fn hm => ?_, fun u => ?_, fun dev hdev => ?_⟩
  · change fn ∈ Function.update w.fns t fns u at hm
    by_cases hu : u = t
    · rw [hu, Function.update_self] at hm
      exact (hfns fn hm).congr hfn
    · rw [Function.update_of_ne hu] at hm
      exact (h.fn u fn hm).congr hfn
  · change (s'.task u).stack.filterMap Frame.callOf = awaited (Function.update w.fns t fns u)
    by_cases hu : u = t
    · rw [hu, Function.update_self]
      exact hcalls s' hs
    · have hother : s'.task u = w.s.task u :=
        State.task_of_other hstep (by simp) fun b hb => hu (Event.act.inj hb).1.symm
      rw [Function.update_of_ne hu, hother]
      exact h.calls u
  · exact (hasDriver_congr hfn).mpr (h.super dev hdev)

/-- **The functions of a task go on**, and a device may have got its super block. -/
theorem Served.setFns (h : w.Served) {fns : List Fn} {super : List ℕ}
    (hfns : ∀ g ∈ fns, g.Served w.s.sys)
    (hcalls : (w.s.task t).stack.filterMap Frame.callOf = awaited fns)
    (hsuper : ∀ dev ∈ super, w.s.sys.HasDriver dev) :
    ({ w with fns := Function.update w.fns t fns, super := super } : World n).Served := by
  refine ⟨h.s, fun u g hg => ?_, fun u => ?_, hsuper⟩
  · change g ∈ Function.update w.fns t fns u at hg
    by_cases hu : u = t
    · rw [hu, Function.update_self] at hg
      exact hfns g hg
    · rw [Function.update_of_ne hu] at hg
      exact h.fn u g hg
  · change (w.s.task u).stack.filterMap Frame.callOf = awaited (Function.update w.fns t fns u)
    by_cases hu : u = t
    · subst hu
      rw [Function.update_self]
      exact hcalls
    · rw [Function.update_of_ne hu]
      exact h.calls u

/-- **A call returns** to the function that waits for it. -/
theorem Served.returned (h : w.Served) {c : Option Call} {how : How} {fn : Fn} {fns : List Fn}
    (hf : w.fns t = fn :: fns) (hwaits : fn.waits = some (c, how))
    (hr : w.returned t c how fn fns = some w') (hbound : w'.s.Bounded) : w'.Served := by
  have hfn : fn.Served w.s.sys := h.fn t fn (hf ▸ List.mem_cons_self)
  have hfns : ∀ g ∈ fns, g.Served w.s.sys := fun g hg => h.fn t g (hf ▸ List.mem_cons_of_mem _ hg)
  -- the call is the one the function waits for
  have hcalls := h.calls t
  rw [hf, awaited, List.filterMap_cons, hwaits] at hcalls
  have htake : ∀ s', w.s.act t .take = some s' →
      (w.s.task t).stack.head? = some (.caller c) ∧
        (s'.task t).stack.filterMap Frame.callOf = awaited fns := by
    intro s' hs
    obtain ⟨c', st, hst, hst'⟩ := callers_act hs
    rw [hst, List.filterMap_cons] at hcalls
    obtain ⟨hc, hrest⟩ := List.cons.inj hcalls
    obtain rfl : c' = c := hc
    rw [hst, hst']
    exact ⟨rfl, hrest⟩
  rw [World.returned] at hr
  split at hr
  · next q e hq hret =>
    refine h.act hr hbound trivial ?_ fun s' hs => (htake s' hs).2
    intro g hg
    rcases List.mem_cons.mp hg with rfl | hg
    · refine ⟨hfn.plain, fun p hp hw => ?_, fun c' how' hc' => by cases hc'⟩
      rcases List.mem_cons.mp hp with rfl | hp
      · -- the buffer that is returned
        obtain ⟨s', hs, -⟩ := Option.map_eq_some_iff.mp hr
        obtain ⟨hhead, -⟩ := htake s' hs
        obtain ⟨c', rfl⟩ : ∃ c', c = some c' := by
          cases c with
          | none => cases hq
          | some c' => exact ⟨c', rfl⟩
        obtain ⟨hzone, hread⟩ := hfn.waits c' how hwaits q hq
        cases how with
        | whole => exact absurd rfl hw
        | read => exact h.s.ret t e hret _ hhead (hread rfl)
        | zone =>
          have hasked := (h.s.ok.task t).ret e hret
          cases hst : (w.s.task t).stack with
          | nil =>
            rw [hst] at hhead
            cases hhead
          | cons f st =>
            rw [hst] at hhead hasked
            obtain rfl := Option.some.inj hhead
            obtain rfl : q = (e.dev, e.block) := Option.some.inj (hq.symm.trans hasked)
            exact hzone rfl
      · exact hfn.own p hp hw
    · exact hfns g hg
  · exact h.act hr hbound trivial hfns fun s' hs => (htake s' hs).2
  · refine h.act hr hbound trivial ?_ fun s' hs => (htake s' hs).2
    intro g hg
    rcases List.mem_cons.mp hg with rfl | hg
    · exact ⟨hfn.plain, hfn.own, fun c' how' hc' => by cases hc'⟩
    · exact hfns g hg

/-- **The next thing in a function.** -/
theorem Served.op (h : w.Served) (hop : w.op t = some w') (hbound : w'.s.Bounded)
    (hmet : w.Met (.op t)) : w'.Served := by
  rw [World.op] at hop
  split at hop
  · cases hop
  next fn fns hf =>
  have hfn : fn.Served w.s.sys := h.fn t fn (hf ▸ List.mem_cons_self)
  have hfns : ∀ g ∈ fns, g.Served w.s.sys := fun g hg => h.fn t g (hf ▸ List.mem_cons_of_mem _ hg)
  have hcalls := h.calls t
  rw [hf, awaited, List.filterMap_cons] at hcalls
  -- the function goes on with the rest of what it does
  have hrest : ∀ ops, (∀ op ∈ ops, op ∈ fn.ops) → ∀ own, (∀ p ∈ own, p ∈ fn.own) →
      ∀ v, (∀ c how, v = some (some c, how) → ∀ q ∈ c.asked, (how = .zone → w.s.sys.HasDriver q.1) ∧
        (how = .read → (Frame.caller (some c)).wantsRead = true)) →
      ∀ g ∈ (⟨ops, own, v⟩ : Fn) :: fns, g.Served w.s.sys := by
    intro ops hops own hown v hv g hg
    rcases List.mem_cons.mp hg with rfl | hg
    · exact ⟨fun op hop => hfn.plain op (hops op hop), fun p hp => hfn.own p (hown p hp), hv⟩
    · exact hfns g hg
  have hsame : ∀ p ∈ fn.own, p ∈ fn.own := fun _ hp => hp
  have htail : ∀ {op ops}, fn.ops = op :: ops → ∀ op' ∈ ops, op' ∈ fn.ops :=
    fun hops op' ho => hops ▸ List.mem_cons_of_mem _ ho
  have hidle : fn.waits = none → ∀ c how, fn.waits = some (some c, how) → ∀ q ∈ c.asked,
      (how = .zone → w.s.sys.HasDriver q.1) ∧
        (how = .read → (Frame.caller (some c)).wantsRead = true) :=
    fun hwaits c how hc => absurd (hwaits.symm.trans hc) (Option.some_ne_none _).symm
  split at hop
  · next c how hwaits => exact h.returned hf hwaits hop hbound
  · next hwaits hops =>
    cases hop
    rw [hwaits] at hcalls
    exact h.setFns hfns hcalls h.super
  · next c how ops hwaits hops =>
    rw [hwaits] at hcalls
    split at hop
    · cases hop
    next hzone =>
    refine h.act hop hbound trivial (hrest ops (htail hops) fn.own hsame _ ?_) fun s' hs => ?_
    · intro c' how' hc' q hq
      obtain ⟨hcc, rfl⟩ := Prod.mk.inj (Option.some.inj hc')
      obtain rfl := Option.some.inj hcc
      constructor
      · rintro rfl
        rw [not_and] at hzone
        have hin := hzone rfl
        push Not at hin
        obtain ⟨q', hq', hsup⟩ := hin
        obtain rfl := Option.some.inj (hq.symm.trans hq')
        exact h.super q.1 hsup
      · rintro rfl
        exact hfn.plain (.call c .read) (hops ▸ List.mem_cons_self)
    · have := callers_act hs
      dsimp only at this
      rw [this, hcalls]
      rfl
  · next dev ops hwaits hops =>
    rw [hwaits] at hcalls
    refine h.act hop hbound trivial (hrest ops (htail hops) fn.own hsame _ ?_) fun s' hs => ?_
    · intro c' how' hc' q hq
      obtain ⟨hcc, rfl⟩ := Prod.mk.inj (Option.some.inj hc')
      obtain rfl := Option.some.inj hcc
      cases hq
    · have := callers_act hs
      dsimp only at this
      rw [this, hcalls]
      rfl
  · next f ops e how own hwaits hops hown =>
    rw [hwaits] at hcalls
    refine h.act hop hbound trivial (hrest ops (htail hops) fn.own hsame _ (hidle hwaits))
      fun s' hs => ?_
    have := callers_act hs
    dsimp only at this
    rw [this, hcalls, awaited, List.filterMap_cons, hwaits]
  · next ops e own hwaits hops hown =>
    rw [hwaits] at hcalls
    have hdrv : w.s.sys.HasDriver e.dev :=
      hfn.own (e, .zone) (hown ▸ List.mem_cons_self) (by simp)
    refine h.act hop hbound hdrv (hrest ops (htail hops) fn.own hsame _ (hidle hwaits))
      fun s' hs => ?_
    have := callers_act hs
    dsimp only at this
    rw [this, hcalls, awaited, List.filterMap_cons, hwaits]
  · next ops e how own hwaits hops hown =>
    rw [hwaits] at hcalls
    have hdrv : w.s.sys.HasDriver e.dev := by
      cases how with
      | whole => exact hmet t fn fns ops e own rfl hf hwaits hops hown
      | zone => exact hfn.own (e, .zone) (hown ▸ List.mem_cons_self) (by simp)
      | read => exact hfn.own (e, .read) (hown ▸ List.mem_cons_self) (by simp)
    refine h.act hop hbound hdrv (hrest ops (htail hops) fn.own hsame _ (hidle hwaits))
      fun s' hs => ?_
    have := callers_act hs
    dsimp only at this
    rw [this, hcalls, awaited, List.filterMap_cons, hwaits]
  · next ops e how own hwaits hops hown =>
    rw [hwaits] at hcalls
    refine h.act hop hbound trivial (hrest ops (htail hops) own (fun p hp => ?_) _ ?_)
      fun s' hs => ?_
    · rw [hown]
      exact List.mem_cons_of_mem _ hp
    · intro c' how' hc'
      cases hc'
    · have := callers_act hs
      dsimp only at this
      rw [this, hcalls]
      rfl
  · next ops e own hwaits hops hown =>
    cases hop
    rw [hwaits] at hcalls
    have hdrv : w.s.sys.HasDriver e.dev :=
      hfn.own (e, .read) (hown ▸ List.mem_cons_self) (by simp)
    refine h.setFns (hrest ops (htail hops) fn.own hsame fn.waits (hidle hwaits)) ?_
      fun dev hdev => ?_
    · rw [hcalls, awaited, List.filterMap_cons, hwaits]
    · rcases List.mem_cons.mp hdev with rfl | hdev
      · exact hdrv
      · exact h.super dev hdev
  · cases hop

/-- Only the cache has changed, and not the callers of the calls under way. -/
theorem Served.cache (h : w.Served) {s' : State n} (hs' : s'.Served)
    (hfn : s'.sys.requestFn = w.s.sys.requestFn)
    (hcalls : ∀ t, (s'.task t).stack.filterMap Frame.callOf =
      (w.s.task t).stack.filterMap Frame.callOf) : ({ w with s := s' } : World n).Served :=
  ⟨hs', fun t fn hm => (h.fn t fn hm).congr hfn, fun t => (hcalls t).trans (h.calls t),
    fun dev hdev => (hasDriver_congr hfn).mpr (h.super dev hdev)⟩

/-- **Every step that meets the condition** keeps the invariant. -/
theorem Served.step (h : w.Served) (hs : w.step ev = some w') (hbound : w'.s.Bounded)
    (hmet : w.Met ev) : w'.Served := by
  cases ev with
  | run t =>
    rw [World.step] at hs
    split at hs
    · obtain ⟨s', hr, rfl⟩ := Option.map_eq_some_iff.mp hs
      have hstep : w.s.step (.run t) = some s' := hr
      refine h.cache (h.s.run hr hbound) (h.s.ok.fixed_step hstep).2 fun u => ?_
      obtain ⟨f, st, fs, ret, hst, hfs, htask, -⟩ := State.run_cases hr
      by_cases hu : u = t
      · subst hu
        have hf : f ∈ (w.s.task u).stack := hst ▸ List.mem_cons_self
        have hshape := Frame.shape hfs (h.s.frame u f hf) fun b hb =>
          h.s.dirt b ((h.s.ok.task u).target f hf b hb)
        have hnone : f.callOf = none := by
          cases f with
          | caller => cases hfs
          | _ => rfl
        rw [htask, Function.update_self, hst, List.filterMap_append, hshape.callers,
          List.filterMap_cons, hnone]
        rfl
      · rw [htask, Function.update_of_ne hu]
    · cases hs
  | move maj =>
    obtain ⟨s', hm, rfl⟩ := Option.map_eq_some_iff.mp hs
    refine h.cache (h.s.driver hm hbound (Or.inl ⟨maj, rfl⟩)) (h.s.ok.fixed_step hm).2 fun t => ?_
    obtain ⟨sys, -, rfl⟩ := Option.map_eq_some_iff.mp hm
    rfl
  | endRequest maj up junk =>
    obtain ⟨s', hm, rfl⟩ := Option.map_eq_some_iff.mp hs
    refine h.cache (h.s.driver hm hbound (Or.inr ⟨maj, up, junk, rfl⟩))
      (h.s.ok.fixed_step hm).2 fun t => ?_
    obtain ⟨sys, -, rfl⟩ := Option.map_eq_some_iff.mp hm
    rfl
  | start t f =>
    rw [World.step] at hs
    split at hs
    · cases hs
      refine h.setFns (fun g hg => ?_) (h.calls t) h.super
      rcases List.mem_cons.mp hg with rfl | hg
      · exact ⟨f.plain, by simp, fun c how hc => by cases hc⟩
      · exact h.fn t g hg
    · cases hs
  | op t => exact h.op hs hbound hmet

theorem Start.served (h : w.Start) : w.Served := by
  refine ⟨h.state.served, fun t fn hm => ?_, fun t => ?_, fun dev hdev => ?_⟩
  · rw [h.fns t] at hm
    cases hm
  · rw [h.state.task t, h.fns t]
    rfl
  · rw [h.super] at hdev
    cases hdev

end World

/-! ### A pass of `sync_dev` -/

section Pass

variable {s s' : State n} {t : Fin n} {st : List Frame} {dev b : ℕ} {ev : Event n}

/-- The step does not set `b_dirt` of the buffer. -/
def Event.LeavesDirt (b : ℕ) : Event n → Prop
  | .act _ (.mark e) => e.bh ≠ b
  | _ => True

/-- **A buffer that is clean stays clean**, but for the users of the cache. -/
theorem State.Ok.clean_step (hok : s.Ok) (hs : s.step ev = some s')
    (hd : (s.sys.cache.head b).dirt = false) (hev : ev.LeavesDirt b) :
    (s'.sys.cache.head b).dirt = false := by
  cases ev with
  | run u =>
    cases hok.ran hs with
    | quiet hq =>
      rw [(BufferHead.look_flags (hq.look b)).2]
      exact hd
    | @took d k bh st' _ _ ht =>
      by_cases hb : b = bh
      · rw [hb]
        exact ht.now.2.2.2
      · rw [(BufferHead.look_flags (ht.look b hb)).2]
        exact hd
    | added _ _ _ _ hsys =>
      rw [hsys, Sys.addRequest_head]
      split
      · rfl
      · exact hd
  | act u a =>
    cases State.act_cases hs with
    | mark =>
      rw [Sys.head_setHead, if_neg (Ne.symm hev)]
      exact hd
    | store =>
      rw [Sys.head_setHead]
      split
      · next hb => exact hb ▸ hd
      · exact hd
    | validate =>
      rw [Sys.head_setHead]
      split
      · next hb => exact hb ▸ hd
      · exact hd
    | _ => exact hd
  | move maj =>
    obtain ⟨sys, hm, rfl⟩ := Option.map_eq_some_iff.mp hs
    obtain ⟨r, -, -, -, rfl⟩ := Sys.move_cases hm
    exact hd
  | endRequest maj up junk =>
    obtain ⟨sys, he, rfl⟩ := Option.map_eq_some_iff.mp hs
    obtain ⟨-, -, r, -, -, -, hhead, -⟩ := Sys.endRequest_cases he
    change (sys.cache.head b).dirt = false
    rw [hhead]
    split
    · next hb => exact hb ▸ hd
    · exact hd

/-- **The pass has still to come to the buffer**, or has cleaned it. -/
def Coming (s : State n) (t : Fin n) (st : List Frame) (dev b : ℕ) : Prop :=
  (s.sys.cache.head b).dirt = false ∨ (s.sys.cache.head b).dev = dev ∧ ∃ i, i ≤ b ∧
    ((s.task t).stack = .sync (some dev) false i :: st ∨
      (s.task t).stack = .syncWait (some dev) false i :: st ∨
      ∃ maj, (s.task t).stack = .lockBuffer .write false maj i ::
          .sync (some dev) false (i + 1) :: st ∨
        (s.task t).stack = .makeRequest .write false maj i ::
          .sync (some dev) false (i + 1) :: st)

/-- The loop goes on with the next buffer. -/
theorem Coming.next {i : ℕ} (hi : i ≤ b) (hdev : (s.sys.cache.head b).dev = dev)
    (hst : (s.task t).stack = .sync (some dev) false (i + 1) :: st)
    (hb : i = b → (s.sys.cache.head b).dirt = false) : Coming s t st dev b := by
  rcases Nat.lt_or_eq_of_le hi with hlt | heq
  · exact Or.inr ⟨hdev, i + 1, hlt, Or.inl hst⟩
  · exact Or.inl (hb heq)

/-- **A step of the pass.** -/
theorem Coming.run (h : Coming s t st dev b) (hdirt : (s.sys.cache.head b).dirt = true)
    (hlt : b < s.sys.cache.nrBuffers) (hdrv : s.sys.HasDriver dev) (hr : s.run t = some s')
    (hdev' : (s'.sys.cache.head b).dev = (s.sys.cache.head b).dev) : Coming s' t st dev b := by
  obtain ⟨hdev, i, hi, hcase⟩ := h.resolve_left (by rw [hdirt]; simp)
  rw [hdev] at hdev'
  obtain ⟨f, st', fs, ret, hst, hstep, htask, -⟩ := State.run_cases hr
  have hnow : (s'.task t).stack = fs ++ st' := by rw [htask, Function.update_self]
  rcases hcase with hcase | hcase | ⟨maj, hcase | hcase⟩
  · obtain ⟨rfl, rfl⟩ := List.cons.inj (hst.symm.trans hcase)
    rw [Frame.step] at hstep
    split at hstep
    · next hend => omega
    split at hstep
    · obtain ⟨-, rfl, -⟩ := Move.go.inj hstep
      exact Or.inr ⟨hdev', i, hi, Or.inr (Or.inl hnow)⟩
    · next hother =>
      obtain ⟨-, rfl, -⟩ := Move.go.inj hstep
      refine Coming.next hi hdev' hnow ?_
      rintro rfl
      exact absurd (by simpa using hdev) hother
  · obtain ⟨rfl, rfl⟩ := List.cons.inj (hst.symm.trans hcase)
    rw [Frame.step] at hstep
    split at hstep
    · cases hstep
    next hlock =>
    split at hstep
    · next hmine =>
      have hidev : (s.sys.cache.head i).dev = dev := hmine.1 dev rfl
      rw [Sys.llRwBlock, hidev, if_neg (by rw [not_or, not_le, Bool.not_eq_false]; exact hdrv),
        if_neg hlock, Sys.lockAndTest, if_neg (by simp [hmine.2])] at hstep
      obtain ⟨-, rfl, -⟩ := Move.go.inj hstep
      exact Or.inr ⟨hdev', i, hi, Or.inr (Or.inr ⟨_, Or.inr hnow⟩)⟩
    · next hother =>
      obtain ⟨-, rfl, -⟩ := Move.go.inj hstep
      refine Coming.next hi hdev' hnow ?_
      rintro rfl
      exact absurd ⟨by simpa using hdev, hdirt⟩ hother
  · obtain ⟨rfl, rfl⟩ := List.cons.inj (hst.symm.trans hcase)
    rw [Frame.step] at hstep
    split at hstep
    · cases hstep
    rw [Sys.lockAndTest] at hstep
    split at hstep
    · next htest =>
      obtain ⟨hsys, rfl, -⟩ := Move.go.inj hstep
      refine Coming.next hi hdev' hnow ?_
      rintro rfl
      simp [hdirt] at htest
    · obtain ⟨-, rfl, -⟩ := Move.go.inj hstep
      exact Or.inr ⟨hdev', i, hi, Or.inr (Or.inr ⟨maj, Or.inr hnow⟩)⟩
  · obtain ⟨rfl, rfl⟩ := List.cons.inj (hst.symm.trans hcase)
    rw [Frame.step] at hstep
    split at hstep
    · cases hstep
    · next j hj =>
      obtain ⟨hsys, rfl, -⟩ := Move.go.inj hstep
      refine Coming.next hi hdev' hnow ?_
      -- `add_request` clears `b_dirt`
      rintro rfl
      rw [← hsys, Sys.addRequest_head,
        if_pos (show i = (s.sys.fillRequest .write i).bh from rfl)]

/-- **Every step** leaves the buffer still to come, or clean. -/
theorem Coming.step (h : Coming s t st dev b) (hok : s.Ok) (hlt : b < s.sys.cache.nrBuffers)
    (hdrv : (s.sys.cache.head b).dirt = true → s.sys.HasDriver dev)
    (hs : s.step ev = some s') (hev : ev.LeavesDirt b) : Coming s' t st dev b := by
  by_cases hd : (s.sys.cache.head b).dirt = false
  · exact Or.inl (hok.clean_step hs hd hev)
  rw [Bool.not_eq_false] at hd
  -- a dirty buffer is not taken
  have htag := hok.tag_step (b := b) hs fun hseize => by
    cases ev with
    | run u =>
      obtain ⟨-, -, -, -, -, -, hclean, -⟩ := hseize
      rw [hd] at hclean
      cases hclean
    | _ => exact hseize
  by_cases hrun : ev = .run t
  · subst hrun
    exact h.run hd hlt (hdrv hd) hs htag.1
  obtain ⟨hdev, i, hi, hcase⟩ := h.resolve_left (by rw [hd]; simp)
  have hact : ∀ a, ev ≠ .act t a := by
    rintro a rfl
    -- the task is inside the cache
    have htop : ∀ f st', (s.task t).stack = f :: st' → f.callOf = none ∧ ∀ only,
        f ≠ .syncInodes only := by
      intro f st' hst
      rcases hcase with hcase | hcase | ⟨maj, hcase | hcase⟩ <;>
        obtain ⟨rfl, -⟩ := List.cons.inj (hst.symm.trans hcase) <;> exact ⟨rfl, by simp⟩
    have hbusy : (s.task t).idle ≠ true := by
      intro hidle
      rw [Task.idle] at hidle
      split at hidle
      · next hst =>
        rw [hst] at hcase
        simp at hcase
      · next hst => exact (htop _ _ hst).2 _ rfl
      · cases hidle
    cases State.act_cases hs with
    | take hst => exact absurd (htop _ _ hst).1 (by simp [Frame.callOf])
    | call hidle => exact hbusy hidle
    | release hidle => exact hbusy hidle
    | store hidle => exact hbusy hidle
    | mark hidle => exact hbusy hidle
    | validate hidle => exact hbusy hidle
  rw [← State.task_of_other hs hrun hact] at hcase
  exact Or.inr ⟨htag.1.trans hdev, i, hi, hcase⟩

end Pass

/-! ### Every run -/

namespace World

variable {w w' w₀ : World n} {t : Fin n} {st : List Frame} {b : ℕ} {ev : Happening n}
  {log : List (World n × Happening n)}

/-- A step, after which no count has passed its bound. -/
def Next (w : World n) (ev : Happening n) (w' : World n) : Prop :=
  w.step ev = some w' ∧ w'.s.Bounded

/-- The step sets `b_dirt` of the buffer. -/
def Marks (w : World n) (ev : Happening n) (b : ℕ) : Prop :=
  ∃ t fn fns ops e how own, ev = .op t ∧ w.fns t = fn :: fns ∧ fn.waits = none ∧
    fn.ops = .mark :: ops ∧ fn.own = (e, how) :: own ∧ e.bh = b

/-- **A pass of `sync_dev`** that a task makes, from its beginning to its return to the calls
`st`, in which nobody marks the buffer. -/
def Pass (w : World n) (t : Fin n) (st : List Frame) (b : ℕ)
    (log : List (World n × Happening n)) (w' : World n) : Prop :=
  Logged (fun u ev v => (u.s.task t).stack ≠ st ∧ u.Next ev v ∧ ¬u.Marks ev b) w log w' ∧
    (w'.s.task t).stack = st

/-- **Dirty buffers can be cleaned.** -/
structure Cleanable (w : World n) : Prop where
  /-- A dirty buffer belongs to a device for which `ll_rw_block` has a request function, -/
  driver : ∀ b, b < w.s.sys.cache.nrBuffers → (w.s.sys.cache.head b).dirt = true →
    w.s.sys.HasDriver (w.s.sys.cache.head b).dev
  /-- so a pass of `sync_dev` on its device clears `b_dirt`, -/
  pass : ∀ t st b log w', b < w.s.sys.cache.nrBuffers →
    (w.s.task t).stack = .sync (some (w.s.sys.cache.head b).dev) false 0 :: st →
    w.Pass t st b log w' → (w'.s.sys.cache.head b).dirt = false
  /-- and the loop of `getblk` that has made it ends. -/
  ends : ∀ t dev block b st log w' w'', b < w.s.sys.cache.nrBuffers →
    (w.s.task t).stack = .sync (some (w.s.sys.cache.head b).dev) false 0 ::
      .getblkWait dev block b :: st →
    w.Pass t (.getblkWait dev block b :: st) b log w' → w'.step (.run t) = some w'' →
    ∀ only, (w''.s.task t).stack ≠ .sync only false 0 :: .getblkWait dev block b :: st

/-- **A step of the whole is a step of the cache**, or leaves it alone. -/
theorem step_state (hs : w.step ev = some w') : w'.s = w.s ∨ ∃ e, w.s.step e = some w'.s ∧
    ∀ b, ¬w.Marks ev b → e.LeavesDirt b := by
  have hact : ∀ {t a fns}, w.act t a fns = some w' → (∀ r, a ≠ .mark r) → w'.s = w.s ∨
      ∃ e, w.s.step e = some w'.s ∧ ∀ b, ¬w.Marks ev b → e.LeavesDirt b := by
    intro t a fns ha hmark
    obtain ⟨s', hs', rfl⟩ := Option.map_eq_some_iff.mp ha
    refine Or.inr ⟨.act t a, hs', fun b _ => ?_⟩
    cases a with
    | mark r => exact absurd rfl (hmark r)
    | _ => trivial
  cases ev with
  | run t =>
    rw [step] at hs
    split at hs
    · obtain ⟨s', hr, rfl⟩ := Option.map_eq_some_iff.mp hs
      exact Or.inr ⟨.run t, hr, fun _ _ => trivial⟩
    · cases hs
  | move maj =>
    obtain ⟨s', hm, rfl⟩ := Option.map_eq_some_iff.mp hs
    exact Or.inr ⟨.move maj, hm, fun _ _ => trivial⟩
  | endRequest maj up junk =>
    obtain ⟨s', hm, rfl⟩ := Option.map_eq_some_iff.mp hs
    exact Or.inr ⟨.endRequest maj up junk, hm, fun _ _ => trivial⟩
  | start t f =>
    rw [step] at hs
    split at hs
    · cases hs
      exact Or.inl rfl
    · cases hs
  | op t =>
    change w.op t = some w' at hs
    rw [World.op] at hs
    split at hs
    · cases hs
    next fn fns hf =>
    split at hs
    · rw [World.returned] at hs
      split at hs <;> exact hact hs (by simp)
    · cases hs
      exact Or.inl rfl
    · split at hs
      · cases hs
      · exact hact hs (by simp)
    · exact hact hs (by simp)
    · exact hact hs (by simp)
    · exact hact hs (by simp)
    · next ops e how own hwaits hops hown =>
      obtain ⟨s', hs', rfl⟩ := Option.map_eq_some_iff.mp hs
      refine Or.inr ⟨.act t (.mark e), hs', fun b hno hb => hno ?_⟩
      exact ⟨t, fn, fns, ops, e, how, own, rfl, hf, hwaits, hops, hown, hb⟩
    · exact hact hs (by simp)
    · cases hs
      exact Or.inl rfl
    · cases hs

/-- The cache stays in order, whatever the functions do. -/
theorem Next.ok (h : w.Next ev w') (hok : w.s.Ok) : w'.s.Ok ∧
    w'.s.sys.cache.nrBuffers = w.s.sys.cache.nrBuffers ∧
      w'.s.sys.requestFn = w.s.sys.requestFn := by
  obtain ⟨hs, hb⟩ := h
  rcases step_state hs with hsame | ⟨e, he, -⟩
  · rw [hsame]
    exact ⟨hok, rfl, rfl⟩
  · exact ⟨hok.step he hb, hok.fixed_step he⟩

/-- **A pass cleans the buffer** of a device with a driver. -/
theorem Pass.clean (h : w.Pass t st b log w') (hok : w.s.Ok) (hb : b < w.s.sys.cache.nrBuffers)
    (hdrv : (w.s.sys.cache.head b).dirt = true → w.s.sys.HasDriver (w.s.sys.cache.head b).dev)
    (hst : (w.s.task t).stack = .sync (some (w.s.sys.cache.head b).dev) false 0 :: st) :
    (w'.s.sys.cache.head b).dirt = false := by
  obtain ⟨hrun, hback⟩ := h
  obtain ⟨dev, hdev⟩ : ∃ dev, (w.s.sys.cache.head b).dev = dev := ⟨_, rfl⟩
  rw [hdev] at hdrv hst
  by_cases hdirt : (w.s.sys.cache.head b).dirt = true
  · have hinv := hrun.inv (P := fun _ => True) (I := fun _ u => u.s.Ok ∧
      b < u.s.sys.cache.nrBuffers ∧ u.s.sys.HasDriver dev ∧ Coming u.s t st dev b)
      (fun _ _ => trivial)
      ⟨hok, hb, hdrv hdirt, Or.inr ⟨hdev, 0, Nat.zero_le b, Or.inl hst⟩⟩ ?_
    · obtain ⟨-, -, -, hcoming⟩ := hinv
      refine hcoming.resolve_right ?_
      rintro ⟨-, i, -, hcase⟩
      rw [hback] at hcase
      rcases hcase with hcase | hcase | ⟨maj, hcase | hcase⟩ <;>
        exact absurd (congrArg List.length hcase) (by simp <;> omega)
    · rintro log u ev v ⟨hok, hb, hdrv, hcoming⟩ - ⟨-, hnext, hmarks⟩
      obtain ⟨hok', hnr, hfn⟩ := hnext.ok hok
      refine ⟨hok', hnr ▸ hb, (hasDriver_congr hfn).mpr hdrv, ?_⟩
      rcases step_state hnext.1 with hsame | ⟨e, he, hleaves⟩
      · rw [hsame]
        exact hcoming
      · exact hcoming.step hok hb (fun _ => hdrv) he (hleaves b hmarks)
  · have hinv := hrun.inv (P := fun _ => True) (I := fun _ u => u.s.Ok ∧
      (u.s.sys.cache.head b).dirt = false) (fun _ _ => trivial)
      ⟨hok, Bool.eq_false_of_not_eq_true hdirt⟩ ?_
    · exact hinv.2
    · rintro log u ev v ⟨hok, hclean⟩ - ⟨-, hnext, hmarks⟩
      refine ⟨(hnext.ok hok).1, ?_⟩
      rcases step_state hnext.1 with hsame | ⟨e, he, hleaves⟩
      · rw [hsame]
        exact hclean
      · exact hok.clean_step he hclean (hleaves b hmarks)

/-- The loop of `getblk` does not sync for a clean buffer. -/
theorem not_sync_of_clean {dev block : ℕ} (hst : (w.s.task t).stack = .getblkWait dev block b :: st)
    (hclean : (w.s.sys.cache.head b).dirt = false) (hs : w.step (.run t) = some w')
    (only : Option ℕ) :
    (w'.s.task t).stack ≠ .sync only false 0 :: .getblkWait dev block b :: st := by
  rw [step] at hs
  split at hs
  · obtain ⟨s', hr, rfl⟩ := Option.map_eq_some_iff.mp hs
    obtain ⟨f, st', fs, ret, hst', hstep, htask, -⟩ := State.run_cases hr
    obtain ⟨rfl, rfl⟩ := List.cons.inj (hst'.symm.trans hst)
    change (s'.task t).stack ≠ _
    rw [htask, Function.update_self]
    rw [Frame.step] at hstep
    split at hstep
    · cases hstep
    split at hstep
    · obtain ⟨-, rfl, -⟩ := Move.go.inj hstep
      simp
    rw [if_neg (by rw [hclean]; simp)] at hstep
    split at hstep
    · obtain ⟨-, rfl, -⟩ := Move.go.inj hstep
      simp
    split at hstep
    · cases hstep
    · -- the buffer is taken, and `getblk` returns
      obtain ⟨-, rfl, -⟩ := Move.go.inj hstep
      intro hlen
      have := congrArg List.length hlen
      simp only [List.nil_append, List.length_cons] at this
      omega
  · cases hs

theorem Served.cleanable (h : w.Served) : w.Cleanable := by
  have hpass : ∀ t st b log w', b < w.s.sys.cache.nrBuffers →
      (w.s.task t).stack = .sync (some (w.s.sys.cache.head b).dev) false 0 :: st →
      w.Pass t st b log w' → (w'.s.sys.cache.head b).dirt = false :=
    fun t st b log w' hb hst hpass => hpass.clean h.s.ok hb (h.s.dirt b hb) hst
  refine ⟨h.s.dirt, hpass, fun t dev block b st log w' w'' hb hst hp hs only => ?_⟩
  exact not_sync_of_clean hp.2 (hpass t _ b log w' hb hst hp) hs only

/-- The cache is in order in every run, and the drivers are those of the start. -/
theorem ok_of_logged (h₀ : w₀.Start) (h : Logged Next w₀ log w) :
    w.s.Ok ∧ w.s.sys.requestFn = w₀.s.sys.requestFn :=
  h.inv (P := fun _ => True)
    (I := fun _ u => u.s.Ok ∧ u.s.sys.requestFn = w₀.s.sys.requestFn) (fun _ _ => trivial)
    ⟨h₀.state.ok, rfl⟩ fun _ _ _ _ ⟨hok, hfn⟩ _ hnext =>
      ⟨(hnext.ok hok).1, (hnext.ok hok).2.2.trans hfn⟩

/-- **Dirty buffers can always be cleaned**, in a run of the functions, if and only if
`block_write` never marks a whole block of a device without a driver. -/
theorem dirty_cleanable_iff (h₀ : w₀.Start) (h : Logged Next w₀ log w) :
    (∀ u, u = w ∨ (∃ ev, (u, ev) ∈ log) → u.Cleanable) ↔ ∀ p ∈ log, p.1.Met p.2 := by
  constructor
  · -- the buffer that is marked is dirty in the next state
    rintro hclean ⟨u, ev⟩ hp t fn fns ops e own rfl hf hwaits hops hown
    obtain ⟨log', -, hrun, v, hnext, hin⟩ := h.mem hp
    have hcan := hclean v hin
    obtain ⟨hs, -⟩ := hnext
    change u.op t = some v at hs
    rw [op, hf] at hs
    dsimp only at hs
    rw [hwaits, hops, hown] at hs
    obtain ⟨s', ha, rfl⟩ := Option.map_eq_some_iff.mp hs
    cases State.act_cases ha with
    | mark hidle he =>
      have hg := ((ok_of_logged h₀ hrun).1.task t).good e (by
        rw [Task.refs]
        exact List.mem_append_left _ (List.mem_append_left _ he))
      have hdrv := hcan.driver e.bh hg.lt (by
        rw [Sys.head_setHead, if_pos rfl])
      rw [Sys.head_setHead, if_pos rfl] at hdrv
      rw [← hg.dev]
      exact hdrv
  · intro hmet
    have hserved : ∀ {log' u}, Logged Next w₀ log' u → log' ⊆ log → u.Served := fun hrun hsub =>
      hrun.inv (I := fun _ u => u.Served) (fun p hp => hmet p (hsub hp)) h₀.served
        fun _ _ _ _ hI hP hnext => hI.step hnext.1 hnext.2 hP
    rintro u (rfl | ⟨ev, hu⟩)
    · exact (hserved h (List.Subset.refl _)).cleanable
    · obtain ⟨log', hsub, hrun, -⟩ := h.mem hu
      exact (hserved hrun hsub).cleanable

/-! ### A whole block, of a disk and of a terminal

A machine with one buffer and one task; the major numbers 1 to 3 have a driver. -/

section Runs

variable {w₁ : World 1} {evs : List (Happening 1)} {p : List (World 1 × Happening 1) × World 1}

def oneWorld : World 1 where
  s :=
    { sys := { oneBuffer with requestFn := fun maj => 1 ≤ maj && maj ≤ 3 }
      task := fun _ => ⟨[], none, [], []⟩
      stored := oneBuffer.disk }
  fns _ := []
  super := []

theorem oneWorld_start : oneWorld.Start :=
  ⟨⟨⟨1, _, Nat.one_pos, rfl⟩, fun _ => rfl, fun _ => rfl, fun _ => rfl, fun _ => rfl, rfl⟩,
    fun _ => rfl, rfl⟩

/-- A step of a machine with one task, which has few references. -/
def stepFew (w : World 1) (ev : Happening 1) : Option (World 1) :=
  (w.step ev).filter fun v => (v.s.task ReadAhead.solo).refs.length ≤ 255

theorem logged_of_trace (h : trace stepFew evs [] w₁ = some p) : Logged Next w₁ p.1 p.2 :=
  trace_logged h (fun u ev v hs => by
    obtain ⟨hs, hrefs⟩ := Option.filter_eq_some_iff.mp hs
    exact ⟨hs, ReadAhead.bounded_of_length (of_decide_eq_true hrefs)⟩) .start

/-- A test for `Met`. -/
def meets (q : World 1 × Happening 1) : Bool :=
  match q.1.fns ReadAhead.solo with
  | [] => true
  | fn :: _ =>
    match fn.ops, fn.own with
    | .mark :: _, (e, .whole) :: _ => 1 ≤ major e.dev && major e.dev ≤ 3
    | _, _ => true

theorem met_of_meets {q : World 1 × Happening 1} (h : meets q = true)
    (hfn : q.1.s.sys.requestFn = oneWorld.s.sys.requestFn) : q.1.Met q.2 := by
  intro t fn fns ops e own _ hf _ hops hown
  obtain rfl : t = ReadAhead.solo := Subsingleton.elim _ _
  rw [meets, hf] at h
  dsimp only at h
  rw [hops, hown] at h
  have hmaj := h
  rw [Bool.and_eq_true, decide_eq_true_eq, decide_eq_true_eq] at hmaj
  refine ⟨?_, ?_⟩
  · rw [nrBlkDev]
    omega
  · rw [hfn]
    exact h

/-- `block_write` of the first block of a device, until it has marked the buffer. -/
def writes (dev : ℕ) : List (Happening 1) :=
  [.start ReadAhead.solo (.blockWrite dev (fun _ => id) 0 1024), .op ReadAhead.solo] ++
    List.replicate 4 (.run ReadAhead.solo) ++ List.replicate 3 (.op ReadAhead.solo)

/-- The device is a hard disk. -/
def onDisk : List (World 1 × Happening 1) × World 1 :=
  (trace stepFew (writes 768) [] oneWorld).get (by decide +kernel)

theorem onDisk_eq : trace stepFew (writes 768) [] oneWorld = some onDisk := (Option.some_get _).symm

/-- **A whole block of a disk** may be marked. -/
theorem dirty_cleanable_disk : (∀ p ∈ onDisk.1, p.1.Met p.2) ∧
    ∀ u, u = onDisk.2 ∨ (∃ ev, (u, ev) ∈ onDisk.1) → u.Cleanable := by
  have hmet : ∀ p ∈ onDisk.1, p.1.Met p.2 := by
    intro q hq
    obtain ⟨log', -, hrun, -⟩ := (logged_of_trace onDisk_eq).mem hq
    exact met_of_meets (List.all_eq_true.mp (by decide +kernel : onDisk.1.all meets = true) q hq)
      (ok_of_logged oneWorld_start hrun).2
  exact ⟨hmet, (dirty_cleanable_iff oneWorld_start (logged_of_trace onDisk_eq)).mpr hmet⟩

/-- The device is a terminal. -/
def onTty : List (World 1 × Happening 1) × World 1 :=
  (trace stepFew (writes 1024) [] oneWorld).get (by decide +kernel)

theorem onTty_eq : trace stepFew (writes 1024) [] oneWorld = some onTty := (Option.some_get _).symm

/-- **A whole block of a terminal is never cleaned.** -/
theorem not_dirty_cleanable : ¬∀ (n : ℕ) (w₀ w : World n) (log : List (World n × Happening n)),
    w₀.Start → Logged Next w₀ log w → w.Cleanable := by
  intro h
  have hcan := h 1 oneWorld onTty.2 onTty.1 oneWorld_start (logged_of_trace onTty_eq)
  have hdirt : 0 < onTty.2.s.sys.cache.nrBuffers ∧
      (onTty.2.s.sys.cache.head 0).dirt = true ∧
      onTty.2.s.sys.requestFn (major (onTty.2.s.sys.cache.head 0).dev) = false := by decide +kernel
  have hdrv := (hcan.driver 0 hdirt.1 hdirt.2.1).2
  rw [hdirt.2.2] at hdrv
  cases hdrv

end Runs

end World

end Linux011.Buffer

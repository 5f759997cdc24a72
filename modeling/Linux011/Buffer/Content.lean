import Linux011.Buffer.Coherence

/-!
# What one block holds

What a step does to the buffers is one of few things. A task that runs on leaves all data
and flags as they are, or takes an unused head for a block that no head carries, or adds
a request (`Linux011.Buffer.State.Ran`); the rest are the acts of a task and the two
things a driver does.

`Linux011.Buffer.State.Content` follows one block through them: what it holds is on the
disk, unless it is in a buffer and still to be written, and it is in every buffer of the
block whose data counts. That stays so for as long as nobody changes the block and no
write of it fails (`Linux011.Buffer.State.Content.step`); what is done to other blocks
does not matter.
-/

namespace Linux011.Buffer

variable {n : ℕ}

/-- The head carries the block. -/
def Cache.Carries (c : Cache) (dev block b : ℕ) : Prop :=
  b < c.nrBuffers ∧ (c.head b).dev = dev ∧ (c.head b).blocknr = block

/-- **Nothing but counts, locks and links has changed.** -/
structure Sys.Quiet (s s' : Sys) : Prop where
  nrBuffers : s'.cache.nrBuffers = s.cache.nrBuffers
  look : ∀ b, (s'.cache.head b).look = (s.cache.head b).look
  slot : s'.slot = s.slot
  queue : s'.queue = s.queue
  requestFn : s'.requestFn = s.requestFn
  moved : s'.moved = s.moved
  disk : s'.disk = s.disk

/-- **A head has been taken** for a block that no head carried. -/
structure Sys.Took (s : Sys) (dev block bh : ℕ) (s' : Sys) : Prop where
  lt : bh < s.cache.nrBuffers
  count : (s.cache.head bh).count = 0
  lock : (s.cache.head bh).lock = false
  dirt : (s.cache.head bh).dirt = false
  find : findBuffer s.cache dev block = none
  nrBuffers : s'.cache.nrBuffers = s.cache.nrBuffers
  look : ∀ b, b ≠ bh → (s'.cache.head b).look = (s.cache.head b).look
  now : (s'.cache.head bh).dev = dev ∧ (s'.cache.head bh).blocknr = block ∧
    (s'.cache.head bh).uptodate = false ∧ (s'.cache.head bh).dirt = false
  slot : s'.slot = s.slot
  queue : s'.queue = s.queue
  requestFn : s'.requestFn = s.requestFn
  moved : s'.moved = s.moved
  disk : s'.disk = s.disk

/-- The event does not change what is in a buffer of the block, as its user sees it. -/
def Event.Spares (dev block : ℕ) : Event n → Prop
  | .act _ (.store e _) => ¬(e.dev = dev ∧ e.block = block)
  | .act _ (.mark e) => ¬(e.dev = dev ∧ e.block = block)
  | .act _ (.validate e) => ¬(e.dev = dev ∧ e.block = block)
  | _ => True

namespace State

/-- **What a task that runs on does to the buffers and the requests.** -/
inductive Ran (s : State n) (t : Fin n) : State n → Prop
  /-- It has changed no data, and has locked a buffer for a reason if at all. -/
  | quiet {s' : State n} (hq : s.sys.Quiet s'.sys)
      (hdue : ∀ f ∈ (s'.task t).stack, f ∈ (s.task t).stack ∨ f.Due s.sys.cache) : Ran s t s'
  /-- It has taken a head. -/
  | took {s' : State n} {dev block bh : ℕ} {st : List Frame}
      (hst : (s.task t).stack = .getblkWait dev block bh :: st) (hst' : (s'.task t).stack = st)
      (ht : s.sys.Took dev block bh s'.sys) : Ran s t s'
  /-- It has added a request. -/
  | added {s' : State n} {cmd : Cmd} {ahead : Bool} {maj bh i : ℕ} {st : List Frame}
      (hst : (s.task t).stack = .makeRequest cmd ahead maj bh :: st)
      (hst' : (s'.task t).stack = st) (hbh : bh < s.sys.cache.nrBuffers)
      (hi : s.sys.slot i = none)
      (hsys : s'.sys = s.sys.addRequest maj i (s.sys.fillRequest cmd bh)) : Ran s t s'

variable {s s' : State n} {t : Fin n} {b dev block : ℕ} {D : Block} {ev : Event n}

theorem Still.quiet {s s' : Sys} (h : s.Still s') : s.Quiet s' :=
  ⟨h.nrBuffers, fun b => (congrArg (fun f => { f with lock := false }) (h.face b) :), h.slot,
    h.queue, h.requestFn, h.moved, h.disk⟩

/-- A lock does not matter. -/
theorem quiet_lock (s : Sys) (bh : ℕ) (l : Bool) :
    s.Quiet (s.setHead bh fun h => { h with lock := l }) := by
  refine ⟨rfl, fun b => ?_, rfl, rfl, rfl, rfl, rfl⟩
  rw [Sys.head_setHead]
  split
  · next hb =>
    rw [hb]
    rfl
  · rfl

/-- **A task that runs on** does one of these. -/
theorem Ok.ran (hok : s.Ok) (hr : s.run t = some s') : s.Ran t s' := by
  obtain ⟨f, st, fs, ret, hst, hstep, htask, -⟩ := run_cases hr
  have htarget : ∀ b ∈ f.target, b < s.sys.cache.nrBuffers :=
    (hok.task t).target f (hst ▸ List.mem_cons_self)
  have hstack : (s'.task t).stack = fs ++ st := by rw [htask, Function.update_self]
  -- the frames below are those of before
  have hrest : ∀ g ∈ st, g ∈ (s.task t).stack := fun g hg => hst ▸ List.mem_cons_of_mem _ hg
  generalize hsys : s'.sys = sys at hstep
  cases Frame.effect hstep with
  | still hs hf hfs =>
    refine .quiet (hsys ▸ Still.quiet hs) fun g hg => ?_
    rw [hstack] at hg
    rcases List.mem_append.mp hg with hg | hg
    · exact Or.inr (Frame.due_of_locks (hfs g hg))
    · exact Or.inl (hrest g hg)
  | @take dev block bh c hcount hlock hdirt hfind hretag =>
    obtain ⟨L, hL⟩ := hok.laid
    obtain ⟨c', L', hc', -, hnr, hbare⟩ := hL.retag (htarget bh rfl) dev block
      fun hd => (hL.findBuffer_eq_none hd).mp hfind
    obtain rfl := Option.some.inj (hretag.symm.trans hc')
    have hself := hbare bh
    rw [if_pos rfl] at hself
    refine .took hst hstack ⟨htarget bh rfl, hcount, hlock, hdirt, hfind, ?_, fun b hb => ?_, ?_,
      ?_, ?_, ?_, ?_, ?_⟩
    · rw [hsys]
      exact hnr
    · have := hbare b
      rw [if_neg hb] at this
      rw [hsys]
      exact (congrArg BufferHead.look this :)
    · rw [hsys]
      exact ⟨(congrArg BufferHead.dev hself :), (congrArg BufferHead.blocknr hself :),
        (congrArg BufferHead.uptodate hself :), (congrArg BufferHead.dirt hself :)⟩
    all_goals rw [hsys]
  | @lock _ cmd ahead maj bh fs hf hfs hlock hwrite hread =>
    refine .quiet (hsys ▸ quiet_lock s.sys bh true) fun g hg => ?_
    rw [hstack] at hg
    rcases List.mem_append.mp hg with hg | hg
    · rcases List.mem_cons.mp hg with rfl | hg
      · right
        cases cmd with
        | read => exact hread rfl
        | write => exact hwrite rfl
      · exact Or.inr (Frame.due_of_locks (hfs g hg))
    · exact Or.inl (hrest g hg)
  | @unlock cmd maj bh =>
    refine .quiet (hsys ▸ quiet_lock s.sys bh false) fun g hg => ?_
    rw [hstack] at hg
    exact Or.inl (hrest g hg)
  | @add cmd ahead maj bh i hi =>
    exact .added hst hstack (htarget bh rfl) (Sys.emptySlot_eq_some hi).2 hsys

/-! ### What one block holds -/

/-- The task is about to take the head for another block. -/
def Seizes (s : State n) : Event n → ℕ → Prop
  | .run t, b => ∃ dev block st, (s.task t).stack = .getblkWait dev block b :: st ∧
      (s.sys.cache.head b).count = 0 ∧ (s.sys.cache.head b).lock = false ∧
      (s.sys.cache.head b).dirt = false ∧ findBuffer s.sys.cache dev block = none
  | _, _ => False

/-- The event is not the end of a `WRITE` of the block that has failed. -/
def Writes (s : State n) (dev block : ℕ) : Event n → Prop
  | .endRequest maj false _ => ∀ r, s.sys.current maj = some r → r.cmd = .write →
      ¬(r.dev = dev ∧ r.sector = block * 2)
  | _ => True

/-- **The block holds `D`**: on the disk, or in a buffer that is still to be written. -/
structure Content (s : State n) (dev block : ℕ) (D : Block) : Prop where
  /-- So does every buffer of the block whose data counts. -/
  data : ∀ b, s.sys.cache.Carries dev block b →
    ((s.sys.cache.head b).uptodate = true ∨ (s.sys.cache.head b).dirt = true ∨
      ∃ i r, s.sys.slot i = some r ∧ r.bh = b ∧ r.cmd = .write) → (s.sys.cache.head b).data = D
  disk : s.sys.disk dev block = D ∨ ∃ b, s.sys.cache.Carries dev block b ∧
    (s.sys.cache.head b).uptodate = true ∧
      ((s.sys.cache.head b).dirt = true ∨ s.sys.Unmoved b)
  /-- A buffer that is being read has nothing in it yet. -/
  read : ∀ i r, s.sys.slot i = some r → r.cmd = .read → s.sys.cache.Carries dev block r.bh →
    (s.sys.cache.head r.bh).uptodate = false ∧ (s.sys.cache.head r.bh).dirt = false
  /-- A call that has locked a buffer of the block has done so for a reason. -/
  due : ∀ t, ∀ f ∈ (s.task t).stack, ∀ b, f.locks = some b →
    s.sys.cache.Carries dev block b → f.Due s.sys.cache

/-- Where nothing happens to the buffers of the block. -/
theorem Content.of_look (h : s.Content dev block D)
    (hcar : ∀ b, s'.sys.cache.Carries dev block b ↔ s.sys.cache.Carries dev block b)
    (hlook : ∀ b, s.sys.cache.Carries dev block b →
      (s'.sys.cache.head b).look = (s.sys.cache.head b).look)
    (hslot : s'.sys.slot = s.sys.slot) (hqueue : s'.sys.queue = s.sys.queue)
    (hmoved : s'.sys.moved = s.sys.moved) (hdisk : s'.sys.disk = s.sys.disk)
    (hdue : ∀ t, ∀ f ∈ (s'.task t).stack, ∀ b, f.locks = some b →
      s.sys.cache.Carries dev block b → f.Due s.sys.cache) : s'.Content dev block D := by
  have hun : ∀ b, s'.sys.Unmoved b ↔ s.sys.Unmoved b := fun b => by
    rw [Sys.Unmoved, Sys.Unmoved, hslot, hqueue, hmoved]
  constructor
  · intro b hb hv
    rw [hcar] at hb
    obtain ⟨hu, hd⟩ := BufferHead.look_flags (hlook b hb)
    rw [hu, hd, hslot] at hv
    rw [BufferHead.look_data (hlook b hb)]
    exact h.data b hb hv
  · rw [hdisk]
    rcases h.disk with hD | ⟨b, hb, hup, hw⟩
    · exact Or.inl hD
    · obtain ⟨hu, hd⟩ := BufferHead.look_flags (hlook b hb)
      refine Or.inr ⟨b, (hcar b).mpr hb, hu.trans hup, ?_⟩
      rw [hd, hun]
      exact hw
  · intro i r hi hr hb
    rw [hcar] at hb
    obtain ⟨hu, hd⟩ := BufferHead.look_flags (hlook r.bh hb)
    rw [hslot] at hi
    rw [hu, hd]
    exact h.read i r hi hr hb
  · intro t f hf b hfb hb
    rw [hcar] at hb
    refine (hdue t f hf b hfb hb).congr fun b' hb' => ?_
    obtain rfl := Option.some.inj (hfb.symm.trans hb')
    exact BufferHead.look_flags (hlook b hb)

/-- The calls of a task that locks nothing new. -/
theorem Content.due_update (h : s.Content dev block D) {v : Task}
    (htask : s'.task = Function.update s.task t v)
    (hv : ∀ f ∈ v.stack, f ∈ (s.task t).stack ∨ f.Due s.sys.cache) :
    ∀ i, ∀ f ∈ (s'.task i).stack, ∀ b, f.locks = some b →
      s.sys.cache.Carries dev block b → f.Due s.sys.cache := by
  intro i f hf b hfb hb
  by_cases hit : i = t
  · rw [htask, hit, Function.update_self] at hf
    rcases hv f hf with hf | hf
    · exact h.due t f hf b hfb hb
    · exact hf
  · rw [htask, Function.update_of_ne hit] at hf
    exact h.due i f hf b hfb hb

/-- No second head carries the block. -/
theorem Ok.carries_unique (hok : s.Ok) (hdev : dev ≠ 0) {b' : ℕ}
    (hb : s.sys.cache.Carries dev block b) (hb' : s.sys.cache.Carries dev block b') : b = b' := by
  obtain ⟨L, hL⟩ := hok.laid
  exact hL.unique b b' hb.1 hb'.1 (hb.2.1 ▸ hdev) (hb.2.1.trans hb'.2.1.symm)
    (hb.2.2.trans hb'.2.2.symm)

/-- The request of a head is for the block the head carries. -/
theorem Tracked.carries (h : s.Tracked) {i : ℕ} {r : Request} (hi : s.sys.slot i = some r) :
    s.sys.cache.Carries dev block r.bh ↔ r.dev = dev ∧ r.sector = block * 2 := by
  obtain ⟨hlt, hd, hsec⟩ := h.request i r hi
  rw [Cache.Carries, hd, hsec]
  constructor
  · rintro ⟨-, hd', hb'⟩
    exact ⟨hd', by rw [hb']⟩
  · rintro ⟨hd', hb'⟩
    exact ⟨hlt, hd', by omega⟩

/-- Where the tags are as before, so is what the heads carry. -/
theorem carries_congr {c c' : Cache} (hnr : c'.nrBuffers = c.nrBuffers)
    (htag : (c'.head b).dev = (c.head b).dev ∧ (c'.head b).blocknr = (c.head b).blocknr) :
    c'.Carries dev block b ↔ c.Carries dev block b := by
  rw [Cache.Carries, Cache.Carries, hnr, htag.1, htag.2]

/-- **A head is taken**, for this block or for another. -/
theorem Content.took (h : s.Content dev block D) (hT : s.Tracked) {d k bh : ℕ}
    (ht : s.sys.Took d k bh s'.sys)
    (hstack : ∀ t, ∀ f ∈ (s'.task t).stack, f ∈ (s.task t).stack) : s'.Content dev block D := by
  have hcar : ∀ b, b ≠ bh → (s'.sys.cache.Carries dev block b ↔ s.sys.cache.Carries dev block b) :=
    fun b hb => carries_congr ht.nrBuffers (BufferHead.look_tag (ht.look b hb))
  have hun : ∀ b, s'.sys.Unmoved b ↔ s.sys.Unmoved b := fun b => by
    rw [Sys.Unmoved, Sys.Unmoved, ht.slot, ht.queue, ht.moved]
  constructor
  · intro b hb hv
    by_cases hbh : b = bh
    · -- a head that has just been taken holds nothing
      subst hbh
      rw [ht.now.2.2.1, ht.now.2.2.2, ht.slot] at hv
      rcases hv with hv | hv | ⟨i, r, hi, hr, -⟩
      · cases hv
      · cases hv
      · exact absurd hr (hT.slot_bh_ne ht.lock hi)
    · obtain ⟨hu, hd⟩ := BufferHead.look_flags (ht.look b hbh)
      rw [hu, hd, ht.slot] at hv
      rw [BufferHead.look_data (ht.look b hbh)]
      exact h.data b ((hcar b hbh).mp hb) hv
  · rw [ht.disk]
    rcases h.disk with hD | ⟨b, hb, hup, hw⟩
    · exact Or.inl hD
    · have hbh : b ≠ bh := by
        rintro rfl
        rcases hw with hw | hw
        · rw [ht.dirt] at hw
          cases hw
        · exact hT.not_unmoved ht.lock hw
      obtain ⟨hu, hd⟩ := BufferHead.look_flags (ht.look b hbh)
      refine Or.inr ⟨b, (hcar b hbh).mpr hb, hu.trans hup, ?_⟩
      rw [hd, hun]
      exact hw
  · intro i r hi hr hb
    rw [ht.slot] at hi
    have hbh := hT.slot_bh_ne ht.lock hi
    obtain ⟨hu, hd⟩ := BufferHead.look_flags (ht.look r.bh hbh)
    rw [hu, hd]
    exact h.read i r hi hr ((hcar r.bh hbh).mp hb)
  · intro t f hf b hfb hb
    have hbh : b ≠ bh := by
      rintro rfl
      exact hT.locks_ne ht.lock (hstack t f hf) hfb
    refine (h.due t f (hstack t f hf) b hfb ((hcar b hbh).mp hb)).congr fun b' hb' => ?_
    obtain rfl := Option.some.inj (hfb.symm.trans hb')
    exact BufferHead.look_flags (ht.look b hbh)

/-- **A request is added**, for a buffer of this block or of another. -/
theorem Content.added (h : s.Content dev block D) (hT : s.Tracked) (hT' : s'.Tracked)
    {cmd : Cmd} {ahead : Bool} {maj bh i : ℕ}
    (hf : .makeRequest cmd ahead maj bh ∈ (s.task t).stack) (hi : s.sys.slot i = none)
    (hsys : s'.sys = s.sys.addRequest maj i (s.sys.fillRequest cmd bh))
    (hstack : ∀ t, ∀ f ∈ (s'.task t).stack, f ∈ (s.task t).stack) : s'.Content dev block D := by
  have hhead : ∀ b, s'.sys.cache.head b =
      if b = bh then { s.sys.cache.head bh with dirt := false }
      else s.sys.cache.head b := fun b => by
    rw [hsys]
    exact Sys.addRequest_head b
  have hnr : s'.sys.cache.nrBuffers = s.sys.cache.nrBuffers := by
    rw [hsys]
    rfl
  have hface : ∀ b, (s'.sys.cache.head b).dev = (s.sys.cache.head b).dev ∧
      (s'.sys.cache.head b).blocknr = (s.sys.cache.head b).blocknr ∧
      (s'.sys.cache.head b).uptodate = (s.sys.cache.head b).uptodate ∧
      (s'.sys.cache.head b).data = (s.sys.cache.head b).data := fun b => by
    rw [hhead]
    split
    · next hb =>
      rw [hb]
      exact ⟨rfl, rfl, rfl, rfl⟩
    · exact ⟨rfl, rfl, rfl, rfl⟩
  have hcar : ∀ b, s'.sys.cache.Carries dev block b ↔ s.sys.cache.Carries dev block b := fun b =>
    carries_congr hnr ⟨(hface b).1, (hface b).2.1⟩
  have hdue := fun hb : s.sys.cache.Carries dev block bh => h.due t _ hf bh rfl hb
  have hslot : ∀ j, s'.sys.slot j =
      if j = i then some (s.sys.fillRequest cmd bh) else s.sys.slot j := fun j => by
    rw [hsys, Sys.addRequest_slot, Function.update_apply]
  have hun : ∀ b, s'.sys.Unmoved b ↔ s.sys.Unmoved b ∨ (bh = b ∧ cmd = .write) := fun b => by
    rw [hsys]
    exact Sys.unmoved_addRequest hT.queued hi
  constructor
  · intro b hb hv
    rw [hcar] at hb
    rw [(hface b).2.2.1, hhead] at hv
    rw [(hface b).2.2.2]
    refine h.data b hb ?_
    rcases hv with hv | hv | ⟨j, r, hj, hr, hw⟩
    · exact Or.inl hv
    · split at hv
      · cases hv
      · exact Or.inr (Or.inl hv)
    · rw [hslot] at hj
      split at hj
      · -- the new request: the buffer was dirty
        obtain rfl := Option.some.inj hj
        obtain rfl : bh = b := hr
        obtain rfl : cmd = .write := hw
        exact Or.inr (Or.inl (hdue hb))
      · exact Or.inr (Or.inr ⟨j, r, hj, hr, hw⟩)
  · have hdisk : s'.sys.disk = s.sys.disk := by
      rw [hsys]
      rfl
    rw [hdisk]
    rcases h.disk with hD | ⟨b, hb, hup, hw⟩
    · exact Or.inl hD
    · refine Or.inr ⟨b, (hcar b).mpr hb, (hface b).2.2.1.trans hup, ?_⟩
      rw [hun, hhead]
      rcases hw with hw | hw
      · by_cases hbh : b = bh
        · subst hbh
          refine Or.inr (Or.inr ⟨rfl, ?_⟩)
          -- what is read is not up to date
          cases cmd with
          | write => rfl
          | read => exact absurd (hup.symm.trans (hdue hb)) Bool.true_eq_false_eq_False
        · rw [if_neg hbh]
          exact Or.inl hw
      · exact Or.inr (Or.inl hw)
  · intro j r hj hr hb
    rw [hcar] at hb
    rw [hslot] at hj
    rw [(hface r.bh).2.2.1, hhead]
    split at hj
    · obtain rfl := Option.some.inj hj
      obtain rfl : cmd = .read := hr
      rw [if_pos (show (s.sys.fillRequest .read bh).bh = bh from rfl)]
      exact ⟨hdue hb, rfl⟩
    · obtain ⟨hu, hd⟩ := h.read j r hj hr hb
      refine ⟨hu, ?_⟩
      split
      · rfl
      · exact hd
  · intro u f hf' b hfb hb
    rw [hcar] at hb
    have hbh : b ≠ bh := by
      rintro rfl
      refine hT'.slot_bh_ne_of_locks hf' hfb (i := i) (r := s.sys.fillRequest cmd b) ?_ rfl
      rw [hslot, if_pos rfl]
    refine (h.due u f (hstack u f hf') b hfb hb).congr fun b' hb' => ?_
    obtain rfl := Option.some.inj (hfb.symm.trans hb')
    rw [hhead, if_neg hbh]
    exact ⟨rfl, rfl⟩

/-- **A driver moves a block**: of this block, it is what the block holds. -/
theorem Content.move (h : s.Content dev block D) (hT : s.Tracked) {maj : ℕ} {sys : Sys}
    (hm : s.sys.move maj = some sys) : ({ s with sys := sys } : State n).Content dev block D := by
  obtain ⟨r, hcur, hw, hmoved, rfl⟩ := Sys.move_cases hm
  obtain ⟨i, rest, hq, hi⟩ := Sys.current_eq_some.mp hcur
  refine ⟨h.data, ?_, h.read, h.due⟩
  change Function.update s.sys.disk r.dev (Function.update (s.sys.disk r.dev) (r.sector / 2)
    (s.sys.cache.head r.bh).data) dev block = D ∨ _
  by_cases hb : s.sys.cache.Carries dev block r.bh
  · obtain ⟨rfl, hsec⟩ := (hT.carries hi).mp hb
    rw [Function.update_self, hsec, Nat.mul_div_cancel block (by omega), Function.update_self]
    exact Or.inl (h.data r.bh hb (Or.inr (Or.inr ⟨i, r, hi, rfl, hw⟩)))
  · have hother : Function.update s.sys.disk r.dev (Function.update (s.sys.disk r.dev)
        (r.sector / 2) (s.sys.cache.head r.bh).data) dev block = s.sys.disk dev block := by
      by_cases hd : dev = r.dev
      · rw [hd, Function.update_self, Function.update_of_ne]
        rintro rfl
        obtain ⟨-, -, hsec⟩ := hT.request i r hi
        refine hb ((hT.carries hi).mpr ⟨hd.symm, ?_⟩)
        omega
      · rw [Function.update_of_ne hd]
    rw [hother]
    rcases h.disk with hD | ⟨b, hcar, hup, hdirty⟩
    · exact Or.inl hD
    · refine Or.inr ⟨b, hcar, hup, hdirty.imp_right fun hun => ?_⟩
      refine (Sys.unmoved_move hm hcur).2 hun ?_
      rintro rfl
      exact hb hcar

/-- **A driver ends a request**: what has been read is what the block holds. -/
theorem Content.endRequest (h : s.Content dev block D) (hT : s.Tracked) (hok : s.Ok)
    (hdev : dev ≠ 0) {maj : ℕ} {up : Bool} {junk : Block} {sys : Sys}
    (he : s.sys.endRequest maj up junk = some sys)
    (hw : s.Writes dev block (.endRequest maj up junk)) :
    ({ s with sys := sys } : State n).Content dev block D := by
  obtain ⟨i, rest, r, hq, hi, hmv, hhead, hnr, hslot, hqueue, hmoved, hdisk, -⟩ :=
    Sys.endRequest_cases he
  have hcur : s.sys.current maj = some r := Sys.current_eq_some.mpr ⟨i, rest, hq, hi⟩
  have htag : ∀ b, (sys.cache.head b).dev = (s.sys.cache.head b).dev ∧
      (sys.cache.head b).blocknr = (s.sys.cache.head b).blocknr ∧
      (sys.cache.head b).dirt = (s.sys.cache.head b).dirt := fun b => by
    rw [hhead]
    split
    · next hb =>
      rw [hb]
      exact ⟨rfl, rfl, rfl⟩
    · exact ⟨rfl, rfl, rfl⟩
  have hcar : ∀ b, sys.cache.Carries dev block b ↔ s.sys.cache.Carries dev block b := fun b =>
    carries_congr hnr ⟨(htag b).1, (htag b).2.1⟩
  have hslot' : ∀ j r', sys.slot j = some r' → s.sys.slot j = some r' ∧ r'.bh ≠ r.bh := by
    intro j r' hj
    rw [hslot] at hj
    have hji : j ≠ i := by
      rintro rfl
      rw [Function.update_self] at hj
      cases hj
    rw [Function.update_of_ne hji] at hj
    exact ⟨hj, fun hb => hji (hT.slot_unique hj hi hb).1⟩
  -- a block that is being read is on the disk
  have hread : r.cmd = .read → s.sys.cache.Carries dev block r.bh → s.sys.disk dev block = D := by
    intro hr hb
    rcases h.disk with hD | ⟨b, hb', hup, -⟩
    · exact hD
    · obtain rfl := hok.carries_unique hdev hb hb'
      exact absurd (hup.symm.trans (h.read i r hi hr hb).1) Bool.true_eq_false_eq_False
  constructor
  · intro b hb hv
    rw [hcar] at hb
    rw [(htag b).2.2, hhead] at hv
    rw [hhead]
    by_cases hbr : b = r.bh
    · subst hbr
      rw [if_pos rfl] at hv ⊢
      change s.sys.received r up junk = D
      obtain ⟨hd, hsec⟩ := (hT.carries hi).mp hb
      cases hc : r.cmd with
      | write =>
        rw [Sys.received, hc]
        exact h.data r.bh hb (Or.inr (Or.inr ⟨i, r, hi, rfl, hc⟩))
      | read =>
        rw [Sys.received, hc]
        dsimp only
        rcases hv with hv | hv | ⟨j, r', hj, hbh, -⟩
        · rw [if_pos hv, hd, hsec, Nat.mul_div_cancel block (by omega)]
          exact hread hc hb
        · rw [(h.read i r hi hc hb).2] at hv
          cases hv
        · exact absurd hbh (hslot' j r' hj).2
    · rw [if_neg hbr] at hv ⊢
      refine h.data b hb ?_
      rcases hv with hv | hv | ⟨j, r', hj, hbh, hw'⟩
      · exact Or.inl hv
      · exact Or.inr (Or.inl hv)
      · exact Or.inr (Or.inr ⟨j, r', (hslot' j r' hj).1, hbh, hw'⟩)
  · change sys.disk dev block = D ∨ _
    rw [hdisk]
    rcases h.disk with hD | ⟨b, hb, hup, hd⟩
    · exact Or.inl hD
    by_cases hbr : b = r.bh
    · subst hbr
      cases hc : r.cmd with
      | read => exact Or.inl (hread hc hb)
      | write =>
        cases up with
        | false => exact absurd ((hT.carries hi).mp hb) (hw r hcur hc)
        | true =>
          refine Or.inr ⟨r.bh, (hcar _).mpr hb, ?_, Or.inl ?_⟩
          · rw [hhead, if_pos rfl]
          · rw [(htag r.bh).2.2]
            refine hd.resolve_right ?_
            -- the driver has moved the block before it ends the request
            rintro ⟨maj', j, r', hj, hr', hbh, -, hm⟩
            obtain ⟨rfl, rfl⟩ := hT.slot_unique hr' hi hbh
            obtain rfl := hT.queued.disjoint maj' maj j hj (by
              rw [hq]
              exact List.mem_cons_self)
            exact hm (hmv hc rfl) (by rw [hq]; rfl)
    · refine Or.inr ⟨b, (hcar b).mpr hb, ?_, ?_⟩
      · rw [hhead, if_neg hbr]
        exact hup
      · rw [(htag b).2.2]
        exact hd.imp_right fun hun => (Sys.unmoved_endRequest hT.queued he hcur).2 hun (Ne.symm hbr)
  · intro j r' hj hr' hb
    rw [hcar] at hb
    obtain ⟨hj, hne⟩ := hslot' j r' hj
    obtain ⟨hu, hd⟩ := h.read j r' hj hr' hb
    rw [(htag r'.bh).2.2, hhead, if_neg hne]
    exact ⟨hu, hd⟩
  · intro t f hf b hfb hb
    rw [hcar] at hb
    have hbr : b ≠ r.bh := fun hbr => hT.slot_bh_ne_of_locks hf hfb hi hbr.symm
    refine (h.due t f hf b hfb hb).congr fun b' hb' => ?_
    obtain rfl := Option.some.inj (hfb.symm.trans hb')
    rw [hhead, if_neg hbr]
    exact ⟨rfl, rfl⟩

/-- The frames of the other tasks, when those of one are no new ones. -/
theorem stack_subset {v : Task} (htask : s'.task = Function.update s.task t v)
    (hv : ∀ f ∈ (s'.task t).stack, f ∈ (s.task t).stack) :
    ∀ i, ∀ f ∈ (s'.task i).stack, f ∈ (s.task i).stack := by
  intro i f hf
  by_cases hit : i = t
  · subst hit
    exact hv f hf
  · rwa [htask, Function.update_of_ne hit] at hf

/-- **A task runs on.** -/
theorem Content.run (h : s.Content dev block D) (hok : s.Ok) (hT : s.Tracked) (hT' : s'.Tracked)
    (hr : s.run t = some s') : s'.Content dev block D := by
  obtain ⟨f, st, fs, ret, -, -, htask, -⟩ := run_cases hr
  cases hok.ran hr with
  | quiet hq hdue =>
    refine h.of_look (fun b => carries_congr hq.nrBuffers (BufferHead.look_tag (hq.look b)))
      (fun b _ => hq.look b) hq.slot hq.queue hq.moved hq.disk (h.due_update htask fun f hf => ?_)
    refine hdue f ?_
    rw [htask, Function.update_self]
    exact hf
  | took hst hst' ht =>
    refine h.took hT ht (stack_subset htask fun f hf => ?_)
    rw [hst'] at hf
    rw [hst]
    exact List.mem_cons_of_mem _ hf
  | added hst hst' hbh hi hsys =>
    refine h.added hT hT' (t := t) (hst ▸ List.mem_cons_self) hi hsys
      (stack_subset htask fun f hf => ?_)
    rw [hst'] at hf
    rw [hst]
    exact List.mem_cons_of_mem _ hf

theorem setTask_self (s : State n) (t : Fin n) (v : Task) : (s.setTask t v).task t = v := by
  change Function.update s.task t v t = v
  exact Function.update_self t v s.task

theorem setTask_ne {u : Fin n} (hu : u ≠ t) (v : Task) : (s.setTask t v).task u = s.task u := by
  change Function.update s.task t v u = s.task u
  exact Function.update_of_ne hu v s.task

/-- **What another task does, or a driver, leaves the calls of this one alone.** -/
theorem task_of_other {u : Fin n} (hs : s.step ev = some s') (hne : ev ≠ .run u)
    (hne' : ∀ a, ev ≠ .act u a) : s'.task u = s.task u := by
  cases ev with
  | run t =>
    obtain ⟨_, _, _, _, -, -, htask, -⟩ := run_cases hs
    rw [htask, Function.update_of_ne]
    rintro rfl
    exact hne rfl
  | act t a =>
    have hut : u ≠ t := by
      rintro rfl
      exact hne' a rfl
    have hset : ∀ v, (s.setTask t v).task u = s.task u := setTask_ne hut
    cases act_cases hs with
    | validate => rfl
    | _ => exact hset _
  | move maj =>
    obtain ⟨sys, -, rfl⟩ := Option.map_eq_some_iff.mp hs
    rfl
  | endRequest maj up junk =>
    obtain ⟨sys, -, rfl⟩ := Option.map_eq_some_iff.mp hs
    rfl

/-- **A task acts**, on a buffer of another block if at all. -/
theorem Content.act (h : s.Content dev block D) (hok : s.Ok) {a : Act} (ha : s.act t a = some s')
    (hsp : Event.Spares dev block (.act t a)) : s'.Content dev block D := by
  have hcar : ∀ b, s'.sys.cache.Carries dev block b ↔ s.sys.cache.Carries dev block b := fun b =>
    carries_congr (act_same ha).nrBuffers ((act_same ha).tag b)
  obtain ⟨v, hv⟩ : ∃ v, s'.task = Function.update s.task t v := by
    cases act_cases ha with
    | validate => exact ⟨s.task t, (Function.update_eq_self t s.task).symm⟩
    | _ => exact ⟨_, rfl⟩
  -- no call that begins locks anything
  have hdue : ∀ f ∈ v.stack, f ∈ (s.task t).stack ∨ f.Due s.sys.cache := by
    have hself : s'.task t = v := by rw [hv, Function.update_self]
    intro f hf
    rw [← hself] at hf
    cases act_cases ha with
    | take hst =>
      rw [setTask_self] at hf
      rw [hst]
      exact Or.inl (List.mem_cons_of_mem _ hf)
    | @call c =>
      rw [setTask_self] at hf
      rcases List.mem_cons.mp hf with rfl | hf
      · exact Or.inr (Frame.due_of_locks (Tracked.locks_frame c))
      · rcases List.mem_cons.mp hf with rfl | hf
        · exact Or.inr trivial
        · exact Or.inl hf
    | release =>
      rw [setTask_self] at hf
      rcases List.mem_cons.mp hf with rfl | hf
      · exact Or.inr trivial
      · rcases List.mem_cons.mp hf with rfl | hf
        · exact Or.inr trivial
        · exact Or.inl hf
    | store =>
      change f ∈ ((s.setTask t _).task t).stack at hf
      rw [setTask_self] at hf
      exact Or.inl hf
    | mark =>
      change f ∈ ((s.setTask t _).task t).stack at hf
      rw [setTask_self] at hf
      exact Or.inl hf
    | validate => exact Or.inl hf
  -- a buffer that is changed carries another block
  have hother : ∀ (e : Ref) (f : BufferHead → BufferHead), e ∈ (s.task t).held →
      ¬(e.dev = dev ∧ e.block = block) → ∀ b, s.sys.cache.Carries dev block b →
        ((s.sys.setHead e.bh f).cache.head b).look = (s.sys.cache.head b).look := by
    intro e f he hne b hb
    rw [Sys.head_setHead, if_neg]
    rintro rfl
    have hg := (hok.task t).good e (by
      rw [Task.refs]
      exact List.mem_append_left _ (List.mem_append_left _ he))
    exact hne ⟨hg.dev.symm.trans hb.2.1, hg.block.symm.trans hb.2.2⟩
  have hsame : s'.sys.slot = s.sys.slot ∧ s'.sys.queue = s.sys.queue ∧
      s'.sys.moved = s.sys.moved ∧ s'.sys.disk = s.sys.disk := by
    cases act_cases ha <;> exact ⟨rfl, rfl, rfl, rfl⟩
  refine h.of_look hcar (fun b hb => ?_) hsame.1 hsame.2.1 hsame.2.2.1 hsame.2.2.2
    (h.due_update hv hdue)
  cases act_cases ha with
  | take => rfl
  | call => rfl
  | release => rfl
  | store hidle he => exact hother _ _ he hsp b hb
  | mark hidle he => exact hother _ _ he hsp b hb
  | validate hidle he => exact hother _ _ he hsp b hb

/-- **A block holds what it held**, as long as nobody changes it and no write of it fails. -/
theorem Content.step (h : s.Content dev block D) (hok : s.Ok) (hT : s.Tracked) (hdev : dev ≠ 0)
    (hs : s.step ev = some s') (hsp : ev.Spares dev block) (hw : s.Writes dev block ev) :
    s'.Content dev block D := by
  have hT' := hT.step hok hs
  cases ev with
  | run t => exact h.run hok hT hT' hs
  | act t a => exact h.act hok hs hsp
  | move maj =>
    obtain ⟨sys, hm, rfl⟩ := Option.map_eq_some_iff.mp hs
    exact h.move hT hm
  | endRequest maj up junk =>
    obtain ⟨sys, he, rfl⟩ := Option.map_eq_some_iff.mp hs
    exact h.endRequest hT hok hdev he hw

end State

end Linux011.Buffer

import Linux011.Buffer.Breada
import Linux011.Lib.Run

/-!
# An array of blocks

To its users the cache with the disks behind it is one array of blocks,
`Linux011.Buffer.State.stored`, whatever is evicted and written back in between
(`Linux011.Buffer.State.cache_array`), for users and drivers that keep to some rules
(`Linux011.Buffer.State.Keeps`).
-/

namespace Linux011.Buffer

/-- The buffer an act changes, and what becomes of its data. -/
def Act.edits : Act → Option (Ref × (Block → Block))
  | .store e f => some (e, f)
  | .mark e => some (e, id)
  | .validate e => some (e, id)
  | _ => none

namespace State

variable {n : ℕ} {s s' s₁ : State n} {t : Fin n} {e : Ref} {f f' : Block → Block} {dev block : ℕ}
  {D : Block}

/-- A step, after which no count has passed its bound. -/
def Goes (s : State n) (ev : Event n) (s' : State n) : Prop := s.step ev = some s' ∧ s'.Bounded

/-- **A task changes a buffer it holds**, its data by `f`, in one go. -/
inductive Edit (s : State n) (t : Fin n) (e : Ref) : (Block → Block) → State n → Prop
  | start (he : e ∈ (s.task t).held) : Edit s t e id s
  | act {f f' : Block → Block} {a : Act} {s₁ s' : State n} (h : Edit s t e f s₁)
      (ha : a.edits = some (e, f')) (hs : s₁.Goes (.act t a) s') : Edit s t e (f' ∘ f) s'

/-- **The steps of users and drivers that keep to the rules.** -/
inductive Keeps (s : State n) : State n → Prop
  /-- No data is changed, and no `WRITE` fails. -/
  | step {ev : Event n} {s' : State n} (hs : s.Goes ev s')
      (hsp : ∀ dev block, ev.Spares dev block ∧ s.Writes dev block ev) : Keeps s s'
  /-- A buffer that is up to date is changed, or all of one that nobody is reading. Before
  another task runs, it is up to date and marked. -/
  | edit {t : Fin n} {e : Ref} {f : Block → Block} {s' : State n} (h : s.Edit t e f s')
      (hf : (s.sys.cache.head e.bh).uptodate = true ∨
        (s.sys.cache.head e.bh).lock = false ∧ ∀ x y, f x = f y)
      (hnow : (s'.sys.cache.head e.bh).uptodate = true ∧ (s'.sys.cache.head e.bh).dirt = true) :
      Keeps s s'

/-- **A buffer has been changed**, and nothing else. -/
structure Changed (s : State n) (e : Ref) (f : Block → Block) (s' : State n) : Prop where
  ok : s'.Ok
  tracked : s'.Tracked
  good : e.Good s.sys.cache
  same : s.sys.Same s'.sys
  slot : s'.sys.slot = s.sys.slot
  data : (s'.sys.cache.head e.bh).data = f (s.sys.cache.head e.bh).data
  stack : ∀ i, (s'.task i).stack = (s.task i).stack
  stored : ∀ dev block, s'.stored dev block =
    if e.dev = dev ∧ e.block = block then f (s.stored dev block) else s.stored dev block
  other : ∀ {dev block D}, ¬(e.dev = dev ∧ e.block = block) → s.Content dev block D →
    s'.Content dev block D

/-- What an act on a buffer leaves, and what it changes. -/
theorem act_edits {a : Act} (ha : a.edits = some (e, f)) (hs : s.act t a = some s') :
    s'.sys.slot = s.sys.slot ∧
    (s'.sys.cache.head e.bh).data = f (s.sys.cache.head e.bh).data ∧
    (∀ i, (s'.task i).stack = (s.task i).stack) ∧
    (∀ dev block, s'.stored dev block =
      if e.dev = dev ∧ e.block = block then f (s.stored dev block) else s.stored dev block) ∧
    ∀ dev block, ¬(e.dev = dev ∧ e.block = block) → Event.Spares dev block (.act t a) := by
  have hstack : ∀ l i, ((s.setTask t { s.task t with changed := l }).task i).stack =
      (s.task i).stack := fun l i =>
    (setTask_calls (v := { s.task t with changed := l }) ⟨rfl, rfl, rfl⟩ i).1
  cases act_cases hs with
  | take => cases ha
  | call => cases ha
  | release => cases ha
  | store =>
    cases ha
    refine ⟨rfl, by rw [Sys.head_setHead, if_pos rfl], hstack _, fun dev block => ?_,
      fun _ _ h => h⟩
    by_cases hd : dev = e.dev
    · subst hd
      simp only [Function.update_self, Function.update_apply, true_and, eq_comm (a := block)]
      split <;> simp_all
    · simp [Function.update_of_ne hd, Ne.symm hd]
  | mark =>
    cases ha
    exact ⟨rfl, by rw [Sys.head_setHead, if_pos rfl]; rfl, hstack _,
      fun _ _ => (ite_self _).symm, fun _ _ h => h⟩
  | validate =>
    cases ha
    exact ⟨rfl, by rw [Sys.head_setHead, if_pos rfl]; rfl, fun _ => rfl,
      fun _ _ => (ite_self _).symm, fun _ _ h => h⟩

/-- **One act** of the change. -/
theorem Changed.act (h : s.Changed e f s₁) {a : Act} (ha : a.edits = some (e, f'))
    (hs : s₁.Goes (.act t a) s') : s.Changed e (f' ∘ f) s' := by
  obtain ⟨hslot, hdata, hstack, hst, hsp⟩ := act_edits ha hs.1
  refine ⟨h.ok.step hs.1 hs.2, h.tracked.step h.ok hs.1, h.good, h.same.trans (act_same hs.1),
    hslot.trans h.slot, by rw [hdata, h.data]; rfl, fun i => (hstack i).trans (h.stack i),
    fun dev block => ?_, fun hne hc => (h.other hne hc).act h.ok hs.1 (hsp _ _ hne)⟩
  rw [hst, h.stored]
  split <;> rfl

theorem Edit.changed (h : s.Edit t e f s') (hok : s.Ok) (hT : s.Tracked) : s.Changed e f s' := by
  induction h with
  | start he =>
    exact ⟨hok, hT, (hok.task t).good e (List.mem_append_left _ (List.mem_append_left _ he)),
      .refl _, rfl, rfl, fun _ => rfl, fun _ _ => (ite_self _).symm, fun _ hc => hc⟩
  | act _ ha hs ih => exact ih.act ha hs

/-- **The block of the buffer holds what has been stored**: nobody is reading it. -/
theorem Changed.own (h : s.Changed e f s') (hok : s.Ok) (hT : s.Tracked) (hdev : e.dev ≠ 0)
    (hf : (s.sys.cache.head e.bh).uptodate = true ∨
      (s.sys.cache.head e.bh).lock = false ∧ ∀ x y, f x = f y)
    (hnow : (s'.sys.cache.head e.bh).uptodate = true ∧ (s'.sys.cache.head e.bh).dirt = true)
    (hc : s.Content e.dev e.block D) : s'.Content e.dev e.block (f D) := by
  have hcar : s.sys.cache.Carries e.dev e.block e.bh := ⟨h.good.lt, h.good.dev, h.good.block⟩
  have hcar' := fun b => @carries_congr b e.dev e.block _ _ h.same.nrBuffers (h.same.tag b)
  have hone : ∀ b, s'.sys.cache.Carries e.dev e.block b → b = e.bh := fun b hb =>
    hok.carries_unique hdev ((hcar' b).mp hb) hcar
  refine ⟨fun b hb _ => ?_, Or.inr ⟨e.bh, (hcar' _).mpr hcar, hnow.1, Or.inl hnow.2⟩,
    fun i r hi hr hb => ?_, fun i k hk b hkb hb => ?_⟩
  · obtain rfl := hone b hb
    rw [h.data]
    rcases hf with hup | ⟨-, hf⟩
    · exact congrArg f (hc.data e.bh hcar (Or.inl hup))
    · exact hf _ _
  · rw [h.slot] at hi
    have hbh := hone _ hb
    rcases hf with hup | ⟨hl, -⟩
    · rw [← hbh, (hc.read i r hi hr (hbh ▸ hcar)).1] at hup
      cases hup
    · exact absurd hbh (hT.slot_bh_ne hl hi)
  · obtain rfl := hone b hb
    rw [h.stack] at hk
    rcases hf with hup | ⟨hl, -⟩
    · have hdue := hc.due i k hk e.bh hkb hcar
      cases k with
      | makeRequest cmd ahead maj bh =>
        obtain rfl := Option.some.inj hkb
        cases cmd with
        | read => exact absurd (hup.symm.trans hdue) Bool.true_eq_false_eq_False
        | write => exact hnow.2
      | _ => trivial
    · exact absurd hkb (hT.locks_ne hl hk)

/-- **The cache and the disks are the array** `stored`. -/
structure Array (s : State n) : Prop where
  ok : s.Ok
  tracked : s.Tracked
  content : ∀ dev block, dev ≠ 0 → s.Content dev block (s.stored dev block)

/-- What is stored changes with a store only. -/
theorem stored_of_spares {ev : Event n} (hs : s.step ev = some s')
    (hsp : ∀ dev block, ev.Spares dev block) : s'.stored = s.stored := by
  cases ev with
  | run t =>
    obtain ⟨_, _, _, _, -, -, -, hst⟩ := run_cases hs
    exact hst
  | act t a =>
    cases act_cases hs with
    | @store e f => exact absurd ⟨rfl, rfl⟩ (hsp e.dev e.block)
    | _ => rfl
  | move maj =>
    obtain ⟨sys, -, rfl⟩ := Option.map_eq_some_iff.mp hs
    rfl
  | endRequest maj up junk =>
    obtain ⟨sys, -, rfl⟩ := Option.map_eq_some_iff.mp hs
    rfl

/-- **The rules keep the array.** -/
theorem Array.keeps (h : s.Array) (hk : s.Keeps s') : s'.Array := by
  cases hk with
  | step hs hsp =>
    refine ⟨h.ok.step hs.1 hs.2, h.tracked.step h.ok hs.1, fun dev block hdev => ?_⟩
    rw [stored_of_spares hs.1 fun dev block => (hsp dev block).1]
    exact (h.content dev block hdev).step h.ok h.tracked hdev hs.1 (hsp dev block).1
      (hsp dev block).2
  | edit he hf hnow =>
    have hc := he.changed h.ok h.tracked
    refine ⟨hc.ok, hc.tracked, fun dev block hdev => ?_⟩
    rw [hc.stored]
    split_ifs with hed
    · obtain ⟨rfl, rfl⟩ := hed
      exact hc.own h.ok h.tracked hdev hf hnow (h.content _ _ hdev)
    · exact hc.other hed (h.content dev block hdev)

theorem Start.array (h : s.Start) : s.Array := by
  obtain ⟨m, old, -, hc⟩ := h.cache
  refine ⟨h.ok, h.tracked, fun dev block hdev => ⟨fun b hb => ?_, Or.inl (by rw [h.stored]),
    fun i r hi => ?_, fun i f hf => ?_⟩⟩
  · -- no head carries a block yet
    have hd := hb.2.1
    rw [hc] at hd
    exact absurd hd.symm hdev
  · rw [h.slot] at hi
    cases hi
  · rw [h.task] at hf
    cases hf

/-- **The cache refines an array of blocks**: what is in an up-to-date buffer is what has been
stored in its block, and so is what is on the disk, if it is not still to be written. -/
theorem cache_array {s : State n} (h : Reachable State.Start Keeps s) {dev block : ℕ}
    (hdev : dev ≠ 0) :
    (∀ b, s.sys.cache.Carries dev block b → (s.sys.cache.head b).uptodate = true →
      (s.sys.cache.head b).data = s.stored dev block) ∧
    (s.sys.disk dev block = s.stored dev block ∨ ∃ b, s.sys.cache.Carries dev block b ∧
      (s.sys.cache.head b).data = s.stored dev block ∧
        ((s.sys.cache.head b).dirt = true ∨ s.sys.Unmoved b)) := by
  have hc := (h.inv (fun _ hs => hs.array) fun _ _ ha hk => ha.keeps hk).content dev block hdev
  refine ⟨fun b hb hup => hc.data b hb (Or.inl hup), hc.disk.imp_right ?_⟩
  rintro ⟨b, hb, hup, hd⟩
  exact ⟨b, hb, hc.data b hb (Or.inl hup), hd⟩

/-- A step in which nothing is stored, and no transfer fails. -/
def reading (u : State 1) (ev : Event 1) : Option (State 1) :=
  match ev with
  | .run _ | .act _ (.call _) | .endRequest _ true _ => ReadAhead.stepIn 0 u ev
  | _ => none

theorem keeps_of_reading {u v : State 1} {ev : Event 1} (h : reading u ev = some v) :
    u.Keeps v := by
  unfold reading at h
  split at h <;>
    first
    | cases h
    | exact .step (ReadAhead.step_of_stepIn h).2 fun _ _ => ⟨trivial, trivial⟩

open ReadAhead in
/-- A block of the first hard disk has been read. -/
def afterRead : Log 1 × State 1 :=
  (trace reading (.act solo (.call (.bread 256 1)) :: runs 7 ++ ends :: runs 1) [] twoBuffers).get
    (by decide +kernel)

theorem cache_array_read : (afterRead.2.sys.cache.head 0).data = afterRead.2.stored 256 1 :=
  (cache_array (trace_reachable (Option.some_get _).symm (fun _ _ _ => keeps_of_reading)
    (.start ReadAhead.twoBuffers_start)) (by decide)).1 0 (by unfold Cache.Carries; decide +kernel)
    (by decide +kernel)

end State

end Linux011.Buffer

import Linux011.Buffer.Pointers

/-!
# Stores through a null pointer

In a run of the whole (`Linux011.Buffer.State.step`), the queue operations go through heads only as
long as no buffer is taken for a block of a device whose hash queue no other buffer is on
(`Linux011.Buffer.heads_iff`). The first `getblk` after `buffer_init` is already one that does so
(`Linux011.Buffer.not_heads`).

That the queues are in order is all that is needed for it, and that they are whatever the counts are
(`Linux011.Buffer.State.Queued`): a count that goes round does not matter here.
-/

namespace Linux011.Buffer

variable {n : ℕ} {s s' : Sys} {L : Layout} {f g : Frame} {fs fs' : List Frame}
  {ret ret' : Option Ref}

/-! ### The queues are in order -/

/-- The buffer that a call is going to take. -/
def Frame.takes : Frame → Option ℕ
  | .getblkWait _ _ bh => some bh
  | _ => none

/-- It is one of the heads. -/
def Frame.Safe (n : ℕ) (f : Frame) : Prop := ∀ bh ∈ f.takes, bh < n

/-- **The queues are in order**, and what is going to be taken are heads. -/
structure State.Queued (s : State n) : Prop where
  laid : ∃ L, Laid s.sys.cache L
  safe : ∀ t, ∀ f ∈ (s.task t).stack, f.Safe s.sys.cache.nrBuffers

/-- What a step of a call leaves. -/
structure Frame.Left (s s' : Sys) (fs : List Frame) : Prop where
  nrBuffers : s'.cache.nrBuffers = s.cache.nrBuffers
  laid : ∃ L, Laid s'.cache L
  safe : ∀ g ∈ fs, g.Safe s.cache.nrBuffers

theorem Frame.safe_of_takes (h : f.takes = none) : f.Safe n := by
  rw [Frame.Safe, h]
  exact fun _ hb => absurd hb (by simp)

/-- A call that returns nothing does not take a buffer. -/
theorem Frame.safe_of_asks (h : f.asks = none) : f.Safe n := by
  refine safe_of_takes ?_
  cases f <;> first | rfl | exact absurd h (by simp [asks])

theorem Frame.Left.same (hl : Laid s.cache L) (hs : s.Same s') (hfs : ∀ g ∈ fs, g.takes = none) :
    Frame.Left s s' fs :=
  ⟨hs.nrBuffers, ⟨L, hs.laid hl⟩, fun g hg => safe_of_takes (hfs g hg)⟩

/-- A step that touches one head, but not its tag and its links. -/
theorem Frame.Left.setHead (hl : Laid s.cache L) {f : BufferHead → BufferHead}
    (hf : ∀ h : BufferHead, { f h with count := h.count }.core = h.core) (b : ℕ)
    (hfs : ∀ g ∈ fs, g.takes = none) : Frame.Left s (s.setHead b f) fs :=
  ⟨rfl, ⟨L, hl.setHead hf b⟩, fun g hg => safe_of_takes (hfs g hg)⟩

/-- A step that goes through `ll_rw_block`. -/
theorem Frame.Left.transfer {cmd : Cmd} {ahead : Bool} {bh : ℕ} (hl : Laid s.cache L)
    (hfs : ∀ g ∈ fs, g.takes = none) (h : s.llRwBlock cmd ahead bh fs = .go s' fs' ret') :
    Frame.Left s s' fs' := by
  obtain ⟨-, hs, rfl | ⟨g, hg, rfl⟩⟩ := Sys.llRwBlock_go h
  · exact .same hl hs hfs
  · refine ⟨hs.nrBuffers, ⟨L, hs.laid hl⟩, fun g' hg' => ?_⟩
    rcases List.mem_cons.mp hg' with rfl | hg'
    · exact safe_of_asks hg.asks
    · exact safe_of_takes (hfs g' hg')

/-- **Every step of every call** keeps the queues in order. -/
theorem Frame.step_left (hl : Laid s.cache L) (hf : f.Safe s.cache.nrBuffers)
    (h : f.step s ret = .go s' fs ret') : Frame.Left s s' fs := by
  have hinc : ∀ h : BufferHead, { h.incCount with count := h.count }.core = h.core := fun _ => rfl
  have hdec : ∀ h : BufferHead, { h.decCount with count := h.count }.core = h.core := fun _ => rfl
  cases f with
  | getHashTable dev block =>
    rw [step] at h
    split at h
    · cases h
      exact .same hl (.refl s) (by simp)
    · cases h
      exact .setHead hl hinc _ (by simp [takes])
  | hashWait e =>
    rw [step] at h
    split at h
    · cases h
    · split at h <;> cases h
      · exact .same hl (.refl s) (by simp)
      · exact .setHead hl hdec _ (by simp [takes])
  | getblk dev block =>
    cases h
    exact .same hl (.refl s) (by simp [takes])
  | getblkHashed dev block =>
    cases ret with
    | some e =>
      cases h
      exact .same hl (.refl s) (by simp)
    | none =>
      dsimp only [step] at h
      cases hs : scanFree s.cache with
      | none =>
        rw [hs] at h
        cases h
        exact .same hl (.refl s) (by simp [takes])
      | some bh =>
        rw [hs] at h
        cases h
        exact ⟨rfl, ⟨L, hl⟩, by simpa [Safe, takes] using (hl.scanFree_eq_some hs).1⟩
  | getblkAsleep dev block =>
    cases h
    exact .same hl (.refl s) (by simp [takes])
  | getblkWait dev block bh =>
    have hbh : bh < s.cache.nrBuffers := hf bh rfl
    rw [step] at h
    split at h
    · cases h
    split at h
    · cases h
      exact .same hl (.refl s) (by simp [takes])
    split at h
    · cases h
      exact ⟨rfl, ⟨L, hl⟩, by simpa [Safe, takes] using hbh⟩
    split at h
    · cases h
      exact .same hl (.refl s) (by simp [takes])
    next hfind =>
    obtain ⟨c, L', hretag, hl', hnr, -⟩ := hl.retag hbh dev block
      fun hd => (hl.findBuffer_eq_none hd).mp (Option.not_isSome_iff_eq_none.mp hfind)
    rw [hretag] at h
    cases h
    exact ⟨hnr, ⟨L', hl'⟩, by simp⟩
  | sync only again i =>
    rw [step] at h
    split at h <;> split at h <;> cases h <;> exact .same hl (.refl s) (by simp [takes])
  | syncWait only again i =>
    rw [step] at h
    split at h
    · cases h
    · split at h
      · exact .transfer hl (by simp [takes]) h
      · cases h
        exact .same hl (.refl s) (by simp [takes])
  | syncInodes only =>
    cases h
    exact .same hl (.refl s) (by simp [takes])
  | lockBuffer cmd ahead maj bh =>
    rw [step] at h
    split at h
    · cases h
    · obtain ⟨-, hs, rfl | ⟨g, hg, rfl⟩⟩ := Sys.lockAndTest_go h
      · exact .same hl hs (by simp)
      · exact ⟨hs.nrBuffers, ⟨L, hs.laid hl⟩, by simpa using safe_of_asks hg.asks⟩
  | makeRequest cmd ahead maj bh =>
    rw [step] at h
    split at h
    · split at h <;> cases h
      refine .setHead hl ?_ _ (by simp)
      exact fun _ => rfl
    · cases h
      have hd : s.Same (s.setHead bh fun h => { h with dirt := false }) :=
        .setHead (f := fun h => { h with dirt := false }) (fun _ => rfl) s bh
      exact .same hl ⟨hd.nrBuffers, hd.hashTable, hd.freeList, hd.core⟩ (by simp)
  | brelse e =>
    rw [step] at h
    split at h
    · cases h
    · split at h <;> cases h
      exact .setHead hl hdec _ (by simp)
  | bread dev block =>
    cases h
    exact .same hl (.refl s) (by simp [takes])
  | breadGot dev block =>
    cases ret with
    | none => cases h
    | some e =>
      dsimp only [step] at h
      split at h
      · cases h
        exact .same hl (.refl s) (by simp)
      · exact .transfer hl (by simp [takes]) h
  | breadWait e =>
    rw [step] at h
    split at h
    · cases h
    · split at h <;> cases h <;> exact .same hl (.refl s) (by simp [takes])
  | breada dev first ahead =>
    cases h
    exact .same hl (.refl s) (by simp [takes])
  | breadaGot dev first ahead =>
    cases ret with
    | none => cases h
    | some e =>
      dsimp only [step] at h
      split at h
      · cases h
        exact .same hl (.refl s) (by simp [takes])
      · exact .transfer hl (by simp [takes]) h
  | breadaNext e dev ahead =>
    cases ahead with
    | nil =>
      cases h
      exact .same hl (.refl s) (by simp [takes])
    | cons first ahead =>
      cases h
      exact .same hl (.refl s) (by simp [takes])
  | breadaAhead e dev block ahead =>
    cases ret with
    | none =>
      cases h
      exact .same hl (.refl s) (by simp [takes])
    | some tmp =>
      dsimp only [step] at h
      split at h
      · cases h
        exact .same hl (.refl s) (by simp [takes])
      · exact .transfer hl (by simp [takes]) h
  | breadaDrop e tmp dev ahead =>
    cases h
    exact .setHead hl hdec _ (by simp [takes])
  | caller c => cases h

namespace State

variable {n : ℕ} {s s' : State n} {ev : Event n}

/-- Acts and drivers leave the queues alone, and begin no call that is about to take a buffer. -/
theorem Queued.same (h : s.Queued) (hs : s.sys.Same s'.sys)
    (ht : ∀ t, ∀ f ∈ (s'.task t).stack, f ∈ (s.task t).stack ∨ f.takes = none) : s'.Queued := by
  obtain ⟨L, hL⟩ := h.laid
  refine ⟨⟨L, hs.laid hL⟩, fun t f hf => ?_⟩
  rw [hs.nrBuffers]
  rcases ht t f hf with hold | hnone
  · exact h.safe t f hold
  · exact Frame.safe_of_takes hnone

/-- The calls of a task are changed. -/
theorem calls_setTask {t : Fin n} {v : Task}
    (hv : ∀ f ∈ v.stack, f ∈ (s.task t).stack ∨ f.takes = none) :
    ∀ i, ∀ f ∈ ((s.setTask t v).task i).stack, f ∈ (s.task i).stack ∨ f.takes = none := by
  intro i f hf
  change f ∈ (Function.update s.task t v i).stack at hf
  by_cases hi : i = t
  · subst hi
    rw [Function.update_self] at hf
    exact hv f hf
  · rw [Function.update_of_ne hi] at hf
    exact Or.inl hf

/-- **Every step keeps the queues in order.** -/
theorem Queued.step (h : s.Queued) (hs : s.step ev = some s') : s'.Queued := by
  cases ev with
  | run t =>
    obtain ⟨L, hL⟩ := h.laid
    obtain ⟨f, st, fs, ret, hst, hstep, htask, -⟩ := run_cases hs
    have hsafe := h.safe t
    rw [hst] at hsafe
    obtain ⟨hnr, hlaid, hfs⟩ := Frame.step_left hL (hsafe f List.mem_cons_self) hstep
    refine ⟨hlaid, fun i g hg => ?_⟩
    rw [hnr]
    by_cases hi : i = t
    · subst hi
      rw [htask, Function.update_self] at hg
      rcases List.mem_append.mp hg with hg | hg
      · exact hfs g hg
      · exact hsafe g (List.mem_cons_of_mem _ hg)
    · rw [htask, Function.update_of_ne hi] at hg
      exact h.safe i g hg
  | act t a =>
    refine h.same (act_same hs) ?_
    cases act_cases hs with
    | take hst => exact calls_setTask fun f hf => Or.inl (hst ▸ List.mem_cons_of_mem _ hf)
    | @call c =>
      refine calls_setTask fun f hf => ?_
      rcases List.mem_cons.mp hf with rfl | hf
      · exact Or.inr (by cases c <;> rfl)
      · rcases List.mem_cons.mp hf with rfl | hf
        · exact Or.inr rfl
        · exact Or.inl hf
    | release =>
      refine calls_setTask fun f hf => ?_
      rcases List.mem_cons.mp hf with rfl | hf
      · exact Or.inr rfl
      · rcases List.mem_cons.mp hf with rfl | hf
        · exact Or.inr rfl
        · exact Or.inl hf
    | store => exact calls_setTask fun f hf => Or.inl hf
    | mark => exact calls_setTask fun f hf => Or.inl hf
    | validate => exact fun i f hf => Or.inl hf
  | move maj =>
    obtain ⟨sys, hm, rfl⟩ := Option.map_eq_some_iff.mp hs
    exact h.same (move_same hm) fun _ _ hf => Or.inl hf
  | endRequest maj up junk =>
    obtain ⟨sys, hm, rfl⟩ := Option.map_eq_some_iff.mp hs
    exact h.same (endRequest_same hm) fun _ _ hf => Or.inl hf

theorem Start.queued (h : s.Start) : s.Queued := by
  obtain ⟨m, old, hm, hc⟩ := h.cache
  refine ⟨hc ▸ ⟨_, laid_bufferInit hm old⟩, fun t f hf => ?_⟩
  rw [h.task t] at hf
  exact absurd hf List.not_mem_nil

end State

/-! ### Where the operations go through -/

/-- **The pointers that the queue operations go through** in a step of a call. -/
def Frame.through (s : Sys) : Frame → List (Option ℕ)
  | .getblkWait dev block bh =>
    if (s.cache.head bh).lock = false ∧ (s.cache.head bh).count = 0 ∧
        (s.cache.head bh).dirt = false ∧ findBuffer s.cache dev block = none then
      match Linking.retag bh dev block ⟨s.cache, []⟩ with
      | .ok _ t => t.through
      | .error _ t => t.through
    else []
  | _ => []

/-- In a step of the whole. -/
def State.through (s : State n) : Event n → List (Option ℕ)
  | .run t => (s.task t).stack.head?.elim [] (Frame.through s.sys)
  | _ => []

/-- **A buffer is taken for a block of a device** whose hash queue no other buffer is on. -/
def Frame.Alone (s : Sys) : Frame → Prop
  | .getblkWait dev block bh =>
    ((s.cache.head bh).lock = false ∧ (s.cache.head bh).count = 0 ∧
      (s.cache.head bh).dirt = false ∧ findBuffer s.cache dev block = none) ∧
      dev ≠ 0 ∧ ¬Linking.Shared s.cache bh dev block
  | _ => False

/-- In a step of the whole. -/
def State.Alone (s : State n) : Event n → Prop
  | .run t => ∃ f ∈ (s.task t).stack.head?, f.Alone s.sys
  | _ => False

/-- **A step of a call goes through heads only**, unless it takes a buffer for a queue of its
own. -/
theorem Frame.through_heads (hl : Laid s.cache L) (hf : f.Safe s.cache.nrBuffers) :
    Linking.Heads s.cache.nrBuffers (f.through s) ↔ ¬f.Alone s := by
  have hnil : Linking.Heads s.cache.nrBuffers [] := fun p hp => absurd hp List.not_mem_nil
  cases f with
  | getblkWait dev block bh =>
    have hbh : bh < s.cache.nrBuffers := hf bh rfl
    rw [through, Alone]
    split_ifs with hfree
    · obtain ⟨c, L', hretag, -⟩ := hl.retag hbh dev block
        fun hd => (hl.findBuffer_eq_none hd).mp hfree.2.2.2
      obtain ⟨l, hrun, hheads⟩ := Linking.goes_retag hl hbh hretag []
      rw [hrun]
      dsimp only
      rw [hheads, and_iff_right hnil]
      tauto
    · exact iff_of_true hnil fun h => hfree h.1
  | _ => exact iff_of_true hnil fun h => h

theorem State.Queued.through_heads {s : State n} {ev : Event n} (h : s.Queued) :
    Linking.Heads s.sys.cache.nrBuffers (s.through ev) ↔ ¬s.Alone ev := by
  have hnil : Linking.Heads s.sys.cache.nrBuffers [] := fun p hp => absurd hp List.not_mem_nil
  cases ev with
  | run t =>
    rw [State.through, State.Alone]
    cases hst : (s.task t).stack with
    | nil => exact iff_of_true hnil (by simp)
    | cons f st =>
      obtain ⟨L, hL⟩ := h.laid
      have hsafe := h.safe t f (hst ▸ List.mem_cons_self)
      rw [List.head?_cons, Option.elim_some, Frame.through_heads hL hsafe]
      simp
  | _ => exact iff_of_true hnil fun h => h

/-- **The queue operations go through heads only**, in a run in which no buffer is taken for a block
of a device whose hash queue no other buffer is on; and in no other one. -/
theorem heads_iff {s₀ s : State n} {log : List (State n × Event n)} (h₀ : s₀.Start)
    (h : Logged (fun s ev s' => s.step ev = some s') s₀ log s) :
    (∀ p ∈ log, Linking.Heads p.1.sys.cache.nrBuffers (p.1.through p.2)) ↔
      ∀ p ∈ log, ¬p.1.Alone p.2 := by
  have hqueued : ∀ p ∈ log, p.1.Queued := by
    intro p hp
    obtain ⟨log', -, hl, -⟩ := h.mem hp
    exact hl.inv (I := fun _ s => s.Queued) (P := fun _ => True) (fun _ _ => trivial) h₀.queued
      fun _ _ _ _ hq _ hs => hq.step hs
  exact forall₂_congr fun p hp => (hqueued p hp).through_heads

/-! ### The first buffer -/

/-- What the only task does: it asks for a block, and goes on until `getblk` has a buffer. -/
def firstGetblk : List (Event 1) :=
  .act ⟨0, Nat.one_pos⟩ (.call (.getblk 1 0)) :: List.replicate 4 (.run ⟨0, Nat.one_pos⟩)

/-- It goes through 26 pointers to the only buffer, and through a null pointer at last. -/
theorem firstGetblk_run : ∃ log s,
    Logged (fun s ev s' => s.step ev = some s') oneBufferStart log s ∧
      log.map (fun p => p.1.through p.2) =
        [none :: List.replicate 26 (some 0), [], [], [], []] := by
  have hrun : ((trace State.step firstGetblk [] oneBufferStart).map fun p =>
      p.1.map fun q => q.1.through q.2) =
        some [none :: List.replicate 26 (some 0), [], [], [], []] := by
    rfl
  obtain ⟨⟨log, s⟩, htrace, hthrough⟩ := Option.map_eq_some_iff.mp hrun
  exact ⟨log, s, trace_logged htrace (fun _ _ _ h => h) .start, hthrough⟩

theorem heads_iff_first : ∃ log s,
    Logged (fun s ev s' => s.step ev = some s') oneBufferStart log s ∧
      ((∀ p ∈ log, Linking.Heads p.1.sys.cache.nrBuffers (p.1.through p.2)) ↔
        ∀ p ∈ log, ¬p.1.Alone p.2) := by
  obtain ⟨log, s, hlog, -⟩ := firstGetblk_run
  exact ⟨log, s, hlog, heads_iff oneBufferStart_start hlog⟩

/-- **The first `getblk`** stores through a null pointer. -/
theorem not_heads : ∃ log s, oneBufferStart.Start ∧
    Logged (fun s ev s' => s.step ev = some s') oneBufferStart log s ∧
    ¬∀ p ∈ log, Linking.Heads p.1.sys.cache.nrBuffers (p.1.through p.2) := by
  obtain ⟨log, s, hlog, hthrough⟩ := firstGetblk_run
  refine ⟨log, s, oneBufferStart_start, hlog, fun hheads => ?_⟩
  have hmem : none :: List.replicate 26 (some 0) ∈ log.map fun p => p.1.through p.2 := by
    rw [hthrough]
    exact List.mem_cons_self
  obtain ⟨p, hp, hp'⟩ := List.mem_map.mp hmem
  exact Linking.not_isHead_none (hheads p hp none (hp' ▸ List.mem_cons_self))

end Linux011.Buffer

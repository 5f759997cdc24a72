import Linux011.Buffer.Effects
import Linux011.Buffer.Race

/-!
# Requests in flight

A head is locked for one reason at a time: a call has locked it and is about to make a
request, or a request for it is in one of the slots (`Linux011.Buffer.State.Tracked`).
So the request of a locked head stays a request for the block the head carries, and
there is never a second one.

`Linux011.Buffer.Sys.Unmoved` is a `WRITE` whose block has not reached the disk. The
operations on the queues have a lemma each on what becomes of these.
-/

namespace Linux011.Buffer

variable {n : ℕ}

namespace Sys

/-- The requests for a head. -/
def inFlight (s : Sys) (b : ℕ) : ℕ :=
  refs (Finset.range nrRequest) (fun i => (s.slot i).map Request.bh) b

/-- **The queues hold the slots that are in use**, each of them once. -/
structure Queued (s : Sys) : Prop where
  slot_lt : ∀ i, s.slot i ≠ none → i < nrRequest
  nodup : ∀ maj, (s.queue maj).Nodup
  disjoint : ∀ maj maj' i, i ∈ s.queue maj → i ∈ s.queue maj' → maj = maj'
  used : ∀ maj i, i ∈ s.queue maj → s.slot i ≠ none
  queued : ∀ i, s.slot i ≠ none → ∃ maj, i ∈ s.queue maj
  moved : ∀ maj, s.moved maj = true → ∃ r, s.current maj = some r ∧ r.cmd = .write

/-- **A `WRITE` of the head is in flight** and has not reached the disk. -/
def Unmoved (s : Sys) (b : ℕ) : Prop :=
  ∃ maj i r, i ∈ s.queue maj ∧ s.slot i = some r ∧ r.bh = b ∧ r.cmd = .write ∧
    (s.moved maj = true → (s.queue maj).head? ≠ some i)

variable {s s' : Sys} {i maj b m : ℕ} {r : Request} {up : Bool} {junk : Block}

/-! ### The slots -/

theorem emptySlot_eq_some (h : s.emptySlot m = some i) : i < m ∧ s.slot i = none := by
  induction m with
  | zero => cases h
  | succ m ih =>
    rw [emptySlot] at h
    split at h
    · next hm =>
      obtain rfl := Option.some.inj h
      exact ⟨Nat.lt_succ_self m, hm⟩
    · obtain ⟨hi, hs⟩ := ih h
      exact ⟨Nat.lt_succ_of_lt hi, hs⟩

theorem slotLimit_le (cmd : Cmd) : slotLimit cmd ≤ nrRequest := by
  cases cmd <;> decide

theorem inFlight_pos (hq : s.Queued) (hi : s.slot i = some r) : 0 < s.inFlight r.bh :=
  refs_pos (Finset.mem_range.mpr (hq.slot_lt i (by simp [hi]))) (by simp [hi])

theorem inFlight_eq_zero (hq : s.Queued) (h : s.inFlight b = 0) (hi : s.slot i = some r) :
    r.bh ≠ b := by
  rintro rfl
  exact absurd h (inFlight_pos hq hi).ne'

/-- A head with one request has one slot. -/
theorem slot_unique (hq : s.Queued) (h : s.inFlight b ≤ 1) {i' : ℕ} {r' : Request}
    (hi : s.slot i = some r) (hb : r.bh = b) (hi' : s.slot i' = some r') (hb' : r'.bh = b) :
    i = i' := by
  have hpos := inFlight_pos hq hi
  rw [hb] at hpos
  exact eq_of_refs_eq_one (t := fun i => (s.slot i).map Request.bh) (x := b)
    (show s.inFlight b = 1 by omega)
    (Finset.mem_range.mpr (hq.slot_lt i (by simp [hi]))) (by simp [hi, hb])
    (Finset.mem_range.mpr (hq.slot_lt i' (by simp [hi']))) (by simp [hi', hb'])

/-! ### Adding a request -/

/-- A request is linked in, and the others stay. -/
theorem linkRequest_perm (s : Sys) (req : ℕ) (l : List ℕ) :
    (s.linkRequest req l).Perm (req :: l) := by
  induction l with
  | nil => exact List.Perm.refl _
  | cons tmp l ih =>
    cases l with
    | nil => exact .swap req tmp []
    | cons next rest =>
      rw [linkRequest]
      split
      · exact .swap req tmp _
      · exact (ih.cons tmp).trans (.swap req tmp _)

/-- The request the driver is working on stays at the head. -/
theorem linkRequest_head (s : Sys) (req : ℕ) {l : List ℕ} (hl : l ≠ []) :
    (s.linkRequest req l).head? = l.head? := by
  cases l with
  | nil => exact absurd rfl hl
  | cons tmp l =>
    cases l with
    | nil => rfl
    | cons next rest =>
      rw [linkRequest]
      split <;> rfl

@[simp] theorem addRequest_slot : (s.addRequest maj i r).slot = Function.update s.slot i (some r) :=
  rfl

theorem addRequest_head (b : ℕ) : (s.addRequest maj i r).cache.head b =
    if b = r.bh then { s.cache.head r.bh with dirt := false } else s.cache.head b :=
  head_setHead s r.bh (fun h => { h with dirt := false }) b

theorem mem_addRequest_queue {maj' j : ℕ} : j ∈ (s.addRequest maj i r).queue maj' ↔
    j ∈ s.queue maj' ∨ (maj' = maj ∧ j = i) := by
  change j ∈ Function.update s.queue maj _ maj' ↔ _
  by_cases hm : maj' = maj
  · subst hm
    rw [Function.update_self, (linkRequest_perm _ _ _).mem_iff, List.mem_cons]
    tauto
  · rw [Function.update_of_ne hm]
    simp [hm]

/-- The queue a driver works on keeps its head. -/
theorem addRequest_queue_head (maj' : ℕ) (h : s.queue maj' ≠ []) :
    ((s.addRequest maj i r).queue maj').head? = (s.queue maj').head? := by
  change (Function.update s.queue maj _ maj').head? = _
  by_cases hm : maj' = maj
  · subst hm
    rw [Function.update_self]
    exact linkRequest_head _ _ h
  · rw [Function.update_of_ne hm]

theorem Queued.queue_ne_nil (h : s.Queued) (hm : s.moved maj = true) : s.queue maj ≠ [] := by
  obtain ⟨r, hr, -⟩ := h.moved maj hm
  intro hnil
  simp [current, hnil] at hr

theorem Queued.addRequest (h : s.Queued) (hi : s.slot i = none) (hlt : i < nrRequest) :
    (s.addRequest maj i r).Queued := by
  have hfresh : ∀ maj, i ∉ s.queue maj := fun maj hm => h.used maj i hm hi
  have hslot : ∀ j, j ≠ i → (s.addRequest maj i r).slot j = s.slot j := fun j hj =>
    Function.update_of_ne hj _ _
  have hself : (s.addRequest maj i r).slot i = some r := Function.update_self _ _ _
  refine ⟨fun j hj => ?_, fun maj' => ?_, fun m₁ m₂ j h₁ h₂ => ?_, fun maj' j hj => ?_,
    fun j hj => ?_, fun maj' hm => ?_⟩
  · by_cases hji : j = i
    · exact hji ▸ hlt
    · exact h.slot_lt j (hslot j hji ▸ hj)
  · change (Function.update s.queue maj _ maj').Nodup
    by_cases hm : maj' = maj
    · subst hm
      rw [Function.update_self, (linkRequest_perm _ _ _).nodup_iff]
      exact List.nodup_cons.mpr ⟨hfresh _, h.nodup _⟩
    · rw [Function.update_of_ne hm]
      exact h.nodup maj'
  · rw [mem_addRequest_queue] at h₁ h₂
    rcases h₁ with h₁ | ⟨rfl, rfl⟩ <;> rcases h₂ with h₂ | ⟨rfl, h₂⟩
    · exact h.disjoint _ _ j h₁ h₂
    · exact absurd (h₂ ▸ h₁) (hfresh _)
    · exact absurd h₂ (hfresh _)
    · rfl
  · rcases mem_addRequest_queue.mp hj with hj | ⟨rfl, rfl⟩
    · rw [hslot j fun hji => hfresh maj' (hji ▸ hj)]
      exact h.used maj' j hj
    · simp [hself]
  · by_cases hji : j = i
    · exact ⟨maj, mem_addRequest_queue.mpr (Or.inr ⟨rfl, hji⟩)⟩
    · obtain ⟨maj', hm⟩ := h.queued j (hslot j hji ▸ hj)
      exact ⟨maj', mem_addRequest_queue.mpr (Or.inl hm)⟩
  · obtain ⟨r', hr', hw⟩ := h.moved maj' hm
    refine ⟨r', ?_, hw⟩
    rw [current, addRequest_queue_head maj' (h.queue_ne_nil hm)]
    rw [current] at hr'
    cases hhead : (s.queue maj').head? with
    | none => simp [hhead] at hr'
    | some j =>
      have hji : j ≠ i := fun hji => hfresh maj' (hji ▸ List.mem_of_head? hhead)
      rw [hhead] at hr'
      exact (hslot j hji).trans hr'

/-- The writes that have not reached the disk, when a request is added. -/
theorem unmoved_addRequest (h : s.Queued) (hi : s.slot i = none) :
    (s.addRequest maj i r).Unmoved b ↔ s.Unmoved b ∨ (r.bh = b ∧ r.cmd = .write) := by
  have hfresh : ∀ maj, i ∉ s.queue maj := fun maj hm => h.used maj i hm hi
  have hslot : ∀ j, j ≠ i → (s.addRequest maj i r).slot j = s.slot j := fun j hj =>
    Function.update_of_ne hj _ _
  constructor
  · rintro ⟨maj', j, r', hj, hr', hb, hw, hm⟩
    rcases mem_addRequest_queue.mp hj with hj | ⟨rfl, rfl⟩
    · rw [hslot j fun hji => hfresh maj' (hji ▸ hj)] at hr'
      refine Or.inl ⟨maj', j, r', hj, hr', hb, hw, fun hmoved => ?_⟩
      have hhead : ((s.addRequest maj i r).queue maj').head? = _ :=
        addRequest_queue_head maj' (h.queue_ne_nil hmoved)
      exact hhead ▸ hm hmoved
    · rw [addRequest_slot, Function.update_self] at hr'
      obtain rfl := Option.some.inj hr'
      exact Or.inr ⟨hb, hw⟩
  · rintro (⟨maj', j, r', hj, hr', hb, hw, hm⟩ | ⟨hb, hw⟩)
    · refine ⟨maj', j, r', mem_addRequest_queue.mpr (Or.inl hj), ?_, hb, hw, fun hmoved => ?_⟩
      · rw [hslot j fun hji => hfresh maj' (hji ▸ hj)]
        exact hr'
      · rw [addRequest_queue_head maj' (h.queue_ne_nil hmoved)]
        exact hm hmoved
    · refine ⟨maj, i, r, mem_addRequest_queue.mpr (Or.inr ⟨rfl, rfl⟩), Function.update_self _ _ _,
        hb, hw, fun hmoved => ?_⟩
      rw [addRequest_queue_head maj (h.queue_ne_nil hmoved)]
      exact fun hhead => hfresh maj (List.mem_of_head? hhead)

/-! ### What the drivers do -/

theorem current_eq_some : s.current maj = some r ↔
    ∃ i rest, s.queue maj = i :: rest ∧ s.slot i = some r := by
  rw [current]
  cases s.queue maj with
  | nil => simp
  | cons i rest => simp

/-- **What moving a block comes to.** -/
theorem move_cases (h : s.move maj = some s') : ∃ r, s.current maj = some r ∧ r.cmd = .write ∧
    s.moved maj = false ∧ s' = { s with
      moved := Function.update s.moved maj true
      disk := Function.update s.disk r.dev
        (Function.update (s.disk r.dev) (r.sector / 2) (s.cache.head r.bh).data) } := by
  unfold move at h
  split at h
  · next r hr =>
    split at h
    · next hc => exact ⟨r, hr, hc.1, hc.2, (Option.some.inj h).symm⟩
    · cases h
  · cases h

theorem Queued.move (h : s.Queued) (hm : s.move maj = some s') : s'.Queued := by
  obtain ⟨r, hr, hw, -, rfl⟩ := move_cases hm
  refine ⟨h.slot_lt, h.nodup, h.disjoint, h.used, h.queued, fun maj' hm' => ?_⟩
  by_cases hmaj : maj' = maj
  · exact ⟨r, hmaj ▸ hr, hw⟩
  · change Function.update s.moved maj true maj' = true at hm'
    rw [Function.update_of_ne hmaj] at hm'
    exact h.moved maj' hm'

/-- Only the request that is moved has reached the disk. -/
theorem unmoved_move (hm : s.move maj = some s') (hr : s.current maj = some r) :
    (s'.Unmoved b → s.Unmoved b) ∧ (s.Unmoved b → r.bh ≠ b → s'.Unmoved b) := by
  obtain ⟨r', hr', hw, hmoved, rfl⟩ := move_cases hm
  obtain rfl := Option.some.inj (hr'.symm.trans hr)
  constructor
  · rintro ⟨maj', i, r, hi, hs, hb, hw, hmv⟩
    refine ⟨maj', i, r, hi, hs, hb, hw, fun hm' => hmv ?_⟩
    change Function.update s.moved maj true maj' = true
    by_cases hmaj : maj' = maj
    · rw [hmaj, Function.update_self]
    · rw [Function.update_of_ne hmaj]
      exact hm'
  · rintro ⟨maj', i, r, hi, hs, hb, hw, hmv⟩ hne
    refine ⟨maj', i, r, hi, hs, hb, hw, fun hm' hhead => ?_⟩
    by_cases hmaj : maj' = maj
    · subst hmaj
      obtain ⟨j, rest, hq, hj⟩ := current_eq_some.mp hr'
      change (s.queue maj').head? = some i at hhead
      rw [hq] at hhead
      obtain rfl := Option.some.inj hhead
      obtain rfl := Option.some.inj (hj.symm.trans hs)
      exact hne hb
    · change Function.update s.moved maj true maj' = true at hm'
      rw [Function.update_of_ne hmaj] at hm'
      exact hmv hm' hhead

/-- **What the end of a request comes to.** -/
theorem endRequest_cases (h : s.endRequest maj up junk = some s') : ∃ i rest r,
    s.queue maj = i :: rest ∧ s.slot i = some r ∧
      (r.cmd = .write → up = true → s.moved maj = true) ∧
      (∀ b, s'.cache.head b = if b = r.bh then
        { s.cache.head r.bh with
          data := s.received r up junk
          uptodate := up
          lock := false } else s.cache.head b) ∧
      s'.cache.nrBuffers = s.cache.nrBuffers ∧ s'.slot = Function.update s.slot i none ∧
      s'.queue = Function.update s.queue maj rest ∧
      s'.moved = Function.update s.moved maj false ∧ s'.disk = s.disk ∧
      s'.requestFn = s.requestFn := by
  unfold endRequest at h
  split at h
  · next i rest r hq hr =>
    dsimp only at h
    split at h
    · cases h
    · next hc =>
      obtain rfl := Option.some.inj h
      obtain ⟨i', rest', hq', hs⟩ := current_eq_some.mp hr
      obtain ⟨rfl, rfl⟩ := List.cons.inj (hq.symm.trans hq')
      refine ⟨i, rest, r, hq, hs, fun hw hu => ?_, fun b => ?_, rfl, rfl, rfl, rfl, rfl, rfl⟩
      · exact Bool.eq_true_of_not_eq_false fun hm => hc ⟨hw, hu, hm⟩
      · dsimp only
        rw [head_setHead, head_setHead, head_setHead]
        split
        · rw [if_pos rfl]
        · rfl
  · cases h

theorem Queued.endRequest (h : s.Queued) (he : s.endRequest maj up junk = some s') :
    s'.Queued := by
  obtain ⟨i, rest, r, hq, hs, -, -, -, hslot, hqueue, hmoved, -, -⟩ := endRequest_cases he
  have hnd := h.nodup maj
  rw [hq] at hnd
  have hqueue' : ∀ maj', s'.queue maj' = if maj' = maj then rest else s.queue maj' := fun maj' => by
    rw [hqueue, Function.update_apply]
  have hslot' : ∀ j, s'.slot j = if j = i then none else s.slot j := fun j => by
    rw [hslot, Function.update_apply]
  have hmem : ∀ maj' j, j ∈ s'.queue maj' → j ∈ s.queue maj' ∧ j ≠ i := by
    intro maj' j hj
    rw [hqueue'] at hj
    split at hj
    · next hm =>
      rw [hm, hq]
      exact ⟨List.mem_cons_of_mem _ hj, ne_of_mem_of_not_mem hj (List.nodup_cons.mp hnd).1⟩
    · next hm =>
      refine ⟨hj, fun hji => hm (h.disjoint maj' maj i (hji ▸ hj) ?_)⟩
      rw [hq]
      exact List.mem_cons_self
  refine ⟨fun j hj => ?_, fun maj' => ?_, fun m₁ m₂ j h₁ h₂ => ?_, fun maj' j hj => ?_,
    fun j hj => ?_, fun maj' hm => ?_⟩
  · rw [hslot'] at hj
    split at hj
    · exact absurd rfl hj
    · exact h.slot_lt j hj
  · rw [hqueue']
    split
    · exact (List.nodup_cons.mp hnd).2
    · exact h.nodup maj'
  · exact h.disjoint m₁ m₂ j (hmem m₁ j h₁).1 (hmem m₂ j h₂).1
  · obtain ⟨hj, hji⟩ := hmem maj' j hj
    rw [hslot', if_neg hji]
    exact h.used maj' j hj
  · rw [hslot'] at hj
    split at hj
    · exact absurd rfl hj
    · next hji =>
      obtain ⟨maj', hm⟩ := h.queued j hj
      refine ⟨maj', ?_⟩
      rw [hqueue']
      split
      · next hmaj =>
        rw [hmaj, hq] at hm
        exact (List.mem_cons.mp hm).resolve_left hji
      · exact hm
  · rw [hmoved] at hm
    by_cases hmaj : maj' = maj
    · rw [hmaj, Function.update_self] at hm
      cases hm
    · rw [Function.update_of_ne hmaj] at hm
      obtain ⟨r', hr', hw⟩ := h.moved maj' hm
      obtain ⟨j, rest', hq', hj⟩ := current_eq_some.mp hr'
      refine ⟨r', current_eq_some.mpr ⟨j, rest', ?_, ?_⟩, hw⟩
      · rw [hqueue', if_neg hmaj, hq']
      · rw [hslot', if_neg, hj]
        rintro rfl
        refine hmaj (h.disjoint maj' maj j ?_ ?_)
        · rw [hq']
          exact List.mem_cons_self
        · rw [hq]
          exact List.mem_cons_self

/-- The other writes are where they were. -/
theorem unmoved_endRequest (hqd : s.Queued) (he : s.endRequest maj up junk = some s')
    (hr : s.current maj = some r) :
    (s'.Unmoved b → s.Unmoved b) ∧ (s.Unmoved b → r.bh ≠ b → s'.Unmoved b) := by
  obtain ⟨i, rest, r', hq, hs, -, -, -, hslot, hqueue, hmoved, -, -⟩ := endRequest_cases he
  obtain rfl : r' = r := by
    obtain ⟨i', rest', hq', hs'⟩ := current_eq_some.mp hr
    obtain ⟨rfl, rfl⟩ := List.cons.inj (hq.symm.trans hq')
    exact Option.some.inj (hs.symm.trans hs')
  have hnd := hqd.nodup maj
  rw [hq] at hnd
  constructor
  · rintro ⟨maj', j, r, hj, hrj, hb, hw, hm⟩
    rw [hslot] at hrj
    have hji : j ≠ i := by
      rintro rfl
      rw [Function.update_self] at hrj
      cases hrj
    rw [Function.update_of_ne hji] at hrj
    rw [hqueue] at hj hm
    rw [hmoved] at hm
    by_cases hmaj : maj' = maj
    · subst hmaj
      rw [Function.update_self] at hj
      refine ⟨maj', j, r, ?_, hrj, hb, hw, fun _ hhead => ?_⟩
      · rw [hq]
        exact List.mem_cons_of_mem _ hj
      · rw [hq] at hhead
        exact hji (Option.some.inj hhead).symm
    · rw [Function.update_of_ne hmaj] at hj hm
      rw [Function.update_of_ne hmaj] at hm
      exact ⟨maj', j, r, hj, hrj, hb, hw, hm⟩
  · rintro ⟨maj', j, r, hj, hrj, hb, hw, hm⟩ hne
    have hji : j ≠ i := by
      rintro rfl
      obtain rfl := Option.some.inj (hs.symm.trans hrj)
      exact hne hb
    refine ⟨maj', j, r, ?_, ?_, hb, hw, fun hm' => ?_⟩
    · rw [hqueue]
      by_cases hmaj : maj' = maj
      · subst hmaj
        rw [Function.update_self]
        rw [hq] at hj
        exact (List.mem_cons.mp hj).resolve_left hji
      · rwa [Function.update_of_ne hmaj]
    · rw [hslot, Function.update_of_ne hji]
      exact hrj
    · rw [hmoved] at hm'
      by_cases hmaj : maj' = maj
      · rw [hmaj, Function.update_self] at hm'
        cases hm'
      · rw [Function.update_of_ne hmaj] at hm'
        rw [hqueue, Function.update_of_ne hmaj]
        exact hm hm'

end Sys

/-! ### Who has locked a head -/

/-- The calls that have locked a head for a request. -/
def lockers (b : ℕ) (fs : List Frame) : ℕ := fs.countP fun f => f.locks = some b

@[simp] theorem lockers_nil (b : ℕ) : lockers b [] = 0 := rfl

@[simp] theorem lockers_append (b : ℕ) (fs gs : List Frame) :
    lockers b (fs ++ gs) = lockers b fs + lockers b gs := List.countP_append

@[simp] theorem lockers_cons (b : ℕ) (f : Frame) (fs : List Frame) :
    lockers b (f :: fs) = lockers b fs + if f.locks = some b then 1 else 0 := by
  rw [lockers, List.countP_cons]
  simp [lockers]

theorem lockers_eq_zero {b : ℕ} {fs : List Frame} (h : ∀ f ∈ fs, f.locks = none) :
    lockers b fs = 0 :=
  List.countP_eq_zero.mpr fun f hf => by simp [h f hf]

theorem lockers_pos {b : ℕ} {f : Frame} {fs : List Frame} (hf : f ∈ fs) (hb : f.locks = some b) :
    0 < lockers b fs :=
  List.countP_pos_iff.mpr ⟨f, hf, by simp [hb]⟩

namespace State

/-- The calls of all tasks that have locked a head. -/
def lockers (s : State n) (b : ℕ) : ℕ := ∑ t, Buffer.lockers b (s.task t).stack

/-- **A head is locked by one call or one request.** -/
structure Tracked (s : State n) : Prop where
  queued : s.sys.Queued
  owners : ∀ b, s.lockers b + s.sys.inFlight b = (s.sys.cache.head b).lock.toNat
  /-- The request is for the block the head carries. -/
  request : ∀ i r, s.sys.slot i = some r → r.bh < s.sys.cache.nrBuffers ∧
    r.dev = (s.sys.cache.head r.bh).dev ∧ r.sector = (s.sys.cache.head r.bh).blocknr * 2

variable {s s' : State n} {t : Fin n} {v : Task} {b : ℕ} {sys : Sys}

theorem lockers_update (ht : s'.task = Function.update s.task t v) (b : ℕ) :
    s'.lockers b + Buffer.lockers b (s.task t).stack = s.lockers b + Buffer.lockers b v.stack := by
  rw [lockers, ht]
  exact sum_update Finset.univ s.task (fun v => Buffer.lockers b v.stack) (Finset.mem_univ t) v

theorem lockers_pos {f : Frame} (hf : f ∈ (s.task t).stack) (hb : f.locks = some b) :
    0 < s.lockers b :=
  lt_of_lt_of_le (Buffer.lockers_pos hf hb)
    (Finset.single_le_sum (f := fun i => Buffer.lockers b (s.task i).stack)
      (fun _ _ => Nat.zero_le _) (Finset.mem_univ t))

namespace Tracked

theorem owners_le (h : s.Tracked) (b : ℕ) : s.lockers b + s.sys.inFlight b ≤ 1 := by
  rw [h.owners]
  exact Bool.toNat_le _

/-- A head that is not locked has no request, -/
theorem slot_bh_ne (h : s.Tracked) (hb : (s.sys.cache.head b).lock = false) {i : ℕ} {r : Request}
    (hi : s.sys.slot i = some r) : r.bh ≠ b := by
  have := h.owners b
  rw [hb] at this
  exact Sys.inFlight_eq_zero h.queued (by simp at this; omega) hi

theorem not_unmoved (h : s.Tracked) (hb : (s.sys.cache.head b).lock = false) :
    ¬s.sys.Unmoved b := by
  rintro ⟨_, i, r, -, hi, hr, -⟩
  exact h.slot_bh_ne hb hi hr

/-- a head that a call has locked has none either, -/
theorem slot_bh_ne_of_locks (h : s.Tracked) {f : Frame} (hf : f ∈ (s.task t).stack)
    (hb : f.locks = some b) {i : ℕ} {r : Request} (hi : s.sys.slot i = some r) : r.bh ≠ b := by
  have hpos := lockers_pos hf hb
  have hle := h.owners_le b
  exact Sys.inFlight_eq_zero h.queued (by omega) hi

/-- and a head has one request at most. -/
theorem slot_unique (h : s.Tracked) {i i' : ℕ} {r r' : Request} (hi : s.sys.slot i = some r)
    (hi' : s.sys.slot i' = some r') (hb : r.bh = r'.bh) : i = i' ∧ r = r' := by
  have hle := h.owners_le r'.bh
  obtain rfl := Sys.slot_unique h.queued (b := r'.bh) (by omega) hi hb hi' rfl
  exact ⟨rfl, Option.some.inj (hi.symm.trans hi')⟩

/-- A head with a request is locked. -/
theorem lock_of_slot (h : s.Tracked) {i : ℕ} {r : Request} (hi : s.sys.slot i = some r) :
    (s.sys.cache.head r.bh).lock = true := by
  by_contra hl
  exact h.slot_bh_ne (Bool.eq_false_of_not_eq_true hl) hi rfl

/-- The requests, where the locks, the tags and the slots are as before. -/
theorem of_same (h : s.Tracked) (hq : s'.sys.Queued) (hslot : s'.sys.slot = s.sys.slot)
    (hnr : s'.sys.cache.nrBuffers = s.sys.cache.nrBuffers)
    (hown : ∀ b, s'.lockers b + (s.sys.cache.head b).lock.toNat =
      s.lockers b + (s'.sys.cache.head b).lock.toNat)
    (htag : ∀ b, (s.sys.cache.head b).lock = true →
      (s'.sys.cache.head b).dev = (s.sys.cache.head b).dev ∧
        (s'.sys.cache.head b).blocknr = (s.sys.cache.head b).blocknr) : s'.Tracked where
  queued := hq
  owners b := by
    have h₁ := hown b
    have h₂ := h.owners b
    rw [Sys.inFlight] at h₂ ⊢
    rw [hslot]
    omega
  request i r hi := by
    rw [hslot] at hi
    obtain ⟨hlt, hdev, hsec⟩ := h.request i r hi
    obtain ⟨hd, hb⟩ := htag r.bh (h.lock_of_slot hi)
    rw [hnr, hd, hb]
    exact ⟨hlt, hdev, hsec⟩

/-- The state of the queues is a matter of the slots, the queues and the drivers. -/
theorem queued_congr (h : s.sys.Queued) (hslot : s'.sys.slot = s.sys.slot)
    (hqueue : s'.sys.queue = s.sys.queue) (hmoved : s'.sys.moved = s.sys.moved) :
    s'.sys.Queued := by
  have hcur : s'.sys.current = s.sys.current := by
    funext maj
    rw [Sys.current, Sys.current, hslot, hqueue]
  refine ⟨?_, ?_, ?_, ?_, ?_, ?_⟩
  · rw [hslot]; exact h.slot_lt
  · rw [hqueue]; exact h.nodup
  · rw [hqueue]; exact h.disjoint
  · rw [hslot, hqueue]; exact h.used
  · rw [hslot, hqueue]; exact h.queued
  · rw [hmoved, hcur]; exact h.moved

/-- **A request is added.** -/
theorem add (h : s.Tracked) {cmd : Cmd} {ahead : Bool} {maj bh i : ℕ} {st : List Frame}
    {ret : Option Ref} (hst : (s.task t).stack = .makeRequest cmd ahead maj bh :: st)
    (hbh : bh < s.sys.cache.nrBuffers) (hi : s.sys.emptySlot (Sys.slotLimit cmd) = some i)
    (hsys : s'.sys = s.sys.addRequest maj i (s.sys.fillRequest cmd bh))
    (htask : s'.task = Function.update s.task t { s.task t with stack := st, ret := ret }) :
    s'.Tracked := by
  obtain ⟨hlt, hfree⟩ := Sys.emptySlot_eq_some hi
  have hlt' := lt_of_lt_of_le hlt (Sys.slotLimit_le cmd)
  have hlock : ∀ b, (s'.sys.cache.head b).lock = (s.sys.cache.head b).lock ∧
      (s'.sys.cache.head b).dev = (s.sys.cache.head b).dev ∧
      (s'.sys.cache.head b).blocknr = (s.sys.cache.head b).blocknr := fun b => by
    rw [hsys, Sys.addRequest_head]
    split
    · next hb =>
      rw [hb]
      exact ⟨rfl, rfl, rfl⟩
    · exact ⟨rfl, rfl, rfl⟩
  refine ⟨hsys ▸ h.queued.addRequest hfree hlt', fun b => ?_, fun j r hj => ?_⟩
  · have hold := h.owners b
    have hfr := lockers_update (v := { s.task t with stack := st, ret := ret }) htask b
    rw [hst, lockers_cons] at hfr
    dsimp only at hfr
    have hslots : s'.sys.inFlight b = s.sys.inFlight b + if bh = b then 1 else 0 := by
      have := refs_update (t := fun j => (s.sys.slot j).map Request.bh)
        (Finset.mem_range.mpr hlt') (some bh) b
      rw [hfree] at this
      simp only [Option.map_none, reduceCtorEq, if_false, Nat.add_zero, Option.some.injEq] at this
      rw [Sys.inFlight, Sys.inFlight, ← this, hsys]
      refine refs_congr (fun j _ => ?_) b
      rw [Sys.addRequest_slot]
      by_cases hji : j = i
      · rw [hji, Function.update_self, Function.update_self]
        rfl
      · rw [Function.update_of_ne hji, Function.update_of_ne hji]
    simp only [Frame.locks, Option.some.injEq] at hfr
    rw [(hlock b).1]
    omega
  · rw [(hlock r.bh).2.1, (hlock r.bh).2.2, hsys]
    rw [hsys, Sys.addRequest_slot] at hj
    by_cases hji : j = i
    · rw [hji, Function.update_self] at hj
      obtain rfl := Option.some.inj hj
      exact ⟨hbh, rfl, rfl⟩
    · rw [Function.update_of_ne hji] at hj
      exact h.request j r hj

/-- **A task runs on.** -/
theorem run (h : s.Tracked) (hok : s.Ok) (hr : s.run t = some s') : s'.Tracked := by
  obtain ⟨f, st, fs, ret, hst, hstep, htask, -⟩ := run_cases hr
  have htarget : ∀ b ∈ f.target, b < s.sys.cache.nrBuffers :=
    (hok.task t).target f (hst ▸ List.mem_cons_self)
  have hframe := hok.frame hst hstep
  have hfr := lockers_update htask
  simp only [hst, lockers_append, lockers_cons] at hfr
  generalize hsys : s'.sys = sys at hstep hframe
  cases Frame.effect hstep with
  | still hs hf hfs =>
    refine h.of_same (queued_congr h.queued (by rw [hsys, hs.slot]) (by rw [hsys, hs.queue])
      (by rw [hsys, hs.moved])) (by rw [hsys, hs.slot]) (by rw [hsys, hs.nrBuffers]) (fun b => ?_)
      fun b _ => by rw [hsys]; exact hs.tag b
    have := hfr b
    rw [lockers_eq_zero hfs, hf] at this
    rw [hsys, hs.lock]
    simp only [reduceCtorEq, if_false] at this
    omega
  | @take dev block bh c hcount hlock hdirt hfind hretag =>
    obtain ⟨L, hL⟩ := hok.laid
    obtain ⟨c', L', hc', -, hnr, hbare⟩ := hL.retag (htarget bh rfl) dev block
      fun hd => (hL.findBuffer_eq_none hd).mp hfind
    obtain rfl := Option.some.inj (hretag.symm.trans hc')
    have hother : ∀ b, b ≠ bh → (c.head b).bare = (s.sys.cache.head b).bare := fun b hb => by
      rw [hbare, if_neg hb]
    have hlock' : ∀ b, (c.head b).lock = (s.sys.cache.head b).lock := fun b => by
      by_cases hb : b = bh
      · have := hbare bh
        rw [if_pos rfl] at this
        rw [hb]
        exact (congrArg BufferHead.lock this :)
      · exact (congrArg BufferHead.lock (hother b hb) :)
    refine h.of_same (queued_congr h.queued (by rw [hsys]) (by rw [hsys]) (by rw [hsys]))
      (by rw [hsys]) (by rw [hsys]; exact hnr) (fun b => ?_) fun b hb => ?_
    · have := hfr b
      simp only [Frame.locks, lockers_nil, reduceCtorEq, if_false] at this
      rw [hsys, hlock']
      omega
    · have hne : b ≠ bh := by
        rintro rfl
        rw [hlock] at hb
        cases hb
      rw [hsys]
      exact ⟨(congrArg BufferHead.dev (hother b hne) :),
        (congrArg BufferHead.blocknr (hother b hne) :)⟩
  | @lock _ cmd ahead maj bh fs hf hfs hlock hwrite hread =>
    refine h.of_same (queued_congr h.queued (by rw [hsys]; rfl) (by rw [hsys]; rfl)
      (by rw [hsys]; rfl)) (by rw [hsys]; rfl) (by rw [hsys]; rfl) (fun b => ?_) fun b hb => ?_
    · have := hfr b
      rw [lockers_cons, lockers_eq_zero hfs, hf] at this
      simp only [Frame.locks, Option.some.injEq, reduceCtorEq, if_false] at this
      rw [hsys, Sys.head_setHead]
      by_cases hb : b = bh
      · rw [if_pos hb]
        rw [if_pos hb.symm] at this
        rw [hb] at this ⊢
        rw [hlock]
        simp only [Bool.toNat_false, Bool.toNat_true]
        omega
      · rw [if_neg hb]
        rw [if_neg (Ne.symm hb)] at this
        omega
    · rw [hsys, Sys.head_setHead]
      split
      · next hb' => rw [hb']; exact ⟨rfl, rfl⟩
      · exact ⟨rfl, rfl⟩
  | @unlock cmd maj bh =>
    have howner := h.owners_le bh
    have hpos := lockers_pos (s := s) (t := t) (b := bh) (hst ▸ List.mem_cons_self) rfl
    have hlock : (s.sys.cache.head bh).lock = true := by
      by_contra hl
      have := h.owners bh
      rw [Bool.eq_false_of_not_eq_true hl, Bool.toNat_false] at this
      omega
    refine h.of_same (queued_congr h.queued (by rw [hsys]; rfl) (by rw [hsys]; rfl)
      (by rw [hsys]; rfl)) (by rw [hsys]; rfl) (by rw [hsys]; rfl) (fun b => ?_) fun b hb => ?_
    · have := hfr b
      simp only [Frame.locks, Option.some.injEq, lockers_nil] at this
      rw [hsys, Sys.head_setHead]
      by_cases hb : b = bh
      · rw [if_pos hb]
        rw [if_pos hb.symm] at this
        rw [hb] at this ⊢
        rw [hlock]
        simp only [Bool.toNat_false, Bool.toNat_true]
        omega
      · rw [if_neg hb]
        rw [if_neg (Ne.symm hb)] at this
        omega
    · rw [hsys, Sys.head_setHead]
      split
      · next hb' => rw [hb']; exact ⟨rfl, rfl⟩
      · exact ⟨rfl, rfl⟩
  | @add cmd ahead maj bh i hi => exact h.add hst (htarget bh rfl) hi hsys htask

/-- What is not asked of a call when it begins. -/
theorem locks_frame (c : Call) : c.frame.locks = none := by
  cases c <;> rfl

/-- **A task acts.** -/
theorem act (h : s.Tracked) {a : Act} (ha : s.act t a = some s') : s'.Tracked := by
  have hsame := act_same ha
  have hstack : ∀ b, Buffer.lockers b (s'.task t).stack = Buffer.lockers b (s.task t).stack ∧
      (s'.sys.cache.head b).lock = (s.sys.cache.head b).lock := by
    intro b
    have hset : ∀ v, (s.setTask t v).task t = v := fun v => by
      change Function.update s.task t v t = v
      exact Function.update_self _ _ _
    have hlock : ∀ (bh : ℕ) (f : BufferHead → BufferHead), (∀ h, (f h).lock = h.lock) →
        ((s.sys.setHead bh f).cache.head b).lock = (s.sys.cache.head b).lock := fun bh f hf => by
      rw [Sys.head_setHead]
      split
      · next hb => rw [hf, hb]
      · rfl
    cases act_cases ha with
    | take hst =>
      rw [hset, hst, lockers_cons]
      exact ⟨rfl, rfl⟩
    | @call c =>
      rw [hset, lockers_cons, lockers_cons, locks_frame]
      exact ⟨rfl, rfl⟩
    | release =>
      rw [hset, lockers_cons, lockers_cons]
      exact ⟨rfl, rfl⟩
    | store =>
      refine ⟨?_, hlock _ _ fun _ => rfl⟩
      change Buffer.lockers b ((s.setTask t _).task t).stack = _
      rw [hset]
    | mark =>
      refine ⟨?_, hlock _ _ fun _ => rfl⟩
      change Buffer.lockers b ((s.setTask t _).task t).stack = _
      rw [hset]
    | validate => exact ⟨rfl, hlock _ _ fun _ => rfl⟩
  obtain ⟨v, hv⟩ : ∃ v, s'.task = Function.update s.task t v := by
    cases act_cases ha with
    | validate => exact ⟨s.task t, (Function.update_eq_self t s.task).symm⟩
    | _ => exact ⟨_, rfl⟩
  have hreq : s'.sys.slot = s.sys.slot ∧ s'.sys.queue = s.sys.queue ∧
      s'.sys.moved = s.sys.moved := by
    cases act_cases ha <;> exact ⟨rfl, rfl, rfl⟩
  refine h.of_same (queued_congr h.queued hreq.1 hreq.2.1 hreq.2.2) hreq.1 hsame.nrBuffers
    (fun b => ?_) fun b _ => hsame.tag b
  have hsum := lockers_update hv b
  have hself : s'.task t = v := by rw [hv, Function.update_self]
  have := hstack b
  rw [hself] at this
  rw [this.2]
  omega

/-- **A driver moves a block.** -/
theorem move (h : s.Tracked) {maj : ℕ} (hm : s.sys.move maj = some sys) :
    ({ s with sys := sys } : State n).Tracked := by
  have hq := h.queued.move hm
  obtain ⟨r, -, -, -, rfl⟩ := Sys.move_cases hm
  exact ⟨hq, h.owners, h.request⟩

/-- **A driver ends a request.** -/
theorem endRequest (h : s.Tracked) {maj : ℕ} {up : Bool} {junk : Block}
    (he : s.sys.endRequest maj up junk = some sys) : ({ s with sys := sys } : State n).Tracked := by
  have hq := h.queued.endRequest he
  obtain ⟨i, rest, r, -, hs, -, hhead, hnr, hslot, -, -, -, -⟩ := Sys.endRequest_cases he
  have hi := h.queued.slot_lt i (by simp [hs])
  have hlock := h.lock_of_slot hs
  refine ⟨hq, fun b => ?_, fun j r' hj => ?_⟩
  · have hold := h.owners b
    have hin : sys.inFlight b + (if r.bh = b then 1 else 0) = s.sys.inFlight b := by
      have := refs_update (t := fun j => (s.sys.slot j).map Request.bh)
        (Finset.mem_range.mpr hi) none b
      simp only [hs, Option.map_some, Option.some.injEq, reduceCtorEq, if_false] at this
      rw [Sys.inFlight, Sys.inFlight,
        ← Nat.add_zero (refs _ (fun j => (s.sys.slot j).map _) b), ← this]
      refine congrArg (· + _) (refs_congr (fun j _ => ?_) b)
      rw [hslot]
      by_cases hji : j = i
      · rw [hji, Function.update_self, Function.update_self]
        rfl
      · rw [Function.update_of_ne hji, Function.update_of_ne hji]
    change s.lockers b + sys.inFlight b = (sys.cache.head b).lock.toNat
    rw [hhead]
    by_cases hb : b = r.bh
    · rw [if_pos hb]
      rw [if_pos hb.symm] at hin
      rw [hb, hlock, Bool.toNat_true] at hold
      rw [hb] at hin ⊢
      simp only [Bool.toNat_false]
      omega
    · rw [if_neg hb]
      rw [if_neg (Ne.symm hb)] at hin
      omega
  · change sys.slot j = some r' at hj
    rw [hslot] at hj
    have hji : j ≠ i := by
      rintro rfl
      rw [Function.update_self] at hj
      cases hj
    rw [Function.update_of_ne hji] at hj
    have hne : r'.bh ≠ r.bh := fun hbh => hji (h.slot_unique hj hs hbh).1
    change r'.bh < sys.cache.nrBuffers ∧ r'.dev = (sys.cache.head r'.bh).dev ∧
      r'.sector = (sys.cache.head r'.bh).blocknr * 2
    rw [hhead, if_neg hne, hnr]
    exact h.request j r' hj

/-- **Every step keeps track of the requests.** -/
theorem step (h : s.Tracked) (hok : s.Ok) {ev : Event n} (hs : s.step ev = some s') :
    s'.Tracked := by
  cases ev with
  | run t => exact h.run hok hs
  | act t a => exact h.act hs
  | move maj =>
    obtain ⟨sys, hm, rfl⟩ := Option.map_eq_some_iff.mp hs
    exact h.move hm
  | endRequest maj up junk =>
    obtain ⟨sys, hm, rfl⟩ := Option.map_eq_some_iff.mp hs
    exact h.endRequest hm

end Tracked

/-- There are no requests at the start. -/
theorem Start.tracked (h : s.Start) : s.Tracked := by
  obtain ⟨m, old, hm, hc⟩ := h.cache
  have hlockers : ∀ b, s.lockers b = 0 := fun b =>
    Finset.sum_eq_zero fun t _ => by rw [h.task t]; rfl
  have hin : ∀ b, s.sys.inFlight b = 0 := fun b =>
    refs_eq_zero_iff.mpr fun i _ => by simp [h.slot i]
  refine ⟨⟨?_, ?_, ?_, ?_, ?_, ?_⟩, fun b => ?_, ?_⟩
  · simp [h.slot]
  · simp [h.queue]
  · simp [h.queue]
  · simp [h.queue]
  · simp [h.slot]
  · simp [h.moved]
  · rw [hlockers, hin, hc]
    rfl
  · simp [h.slot]

end State

end Linux011.Buffer

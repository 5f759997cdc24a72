import Linux011.Buffer.Calls
import Linux011.Buffer.Tasks
import Linux011.Lib.Refs
import Mathlib.Algebra.Order.BigOperators.Group.Finset

/-!
# The buffer cache under interleaving

`Linux011.Buffer.State.Ok` is the invariant: the queues are in order, the count of a
head is the number of references to it, and every reference of every task is to a head
that carries the block the task takes it to carry. A step of a task changes references
of its own only, and a head that is referred to keeps its block, so the references of
the others stay good (`Linux011.Buffer.State.Ok.takes`).

`b_count` is an `unsigned char`. The invariant holds as long as no head has more than
255 references (`Linux011.Buffer.cache_sound`); 256 holders of one buffer look
like none (`Linux011.Buffer.not_sound_of_unbounded`).
-/

namespace Linux011.Buffer

variable {n : ℕ}

/-! ### The references of a task -/

namespace Task

/-- **The references a task has**, in its calls and outside. -/
def refs (t : Task) : List Ref := t.held ++ t.ret.toList ++ t.stack.flatMap Frame.refs

/-- **The calls of a task are in order.** -/
structure Ok (c : Cache) (t : Task) : Prop where
  good : ∀ e ∈ t.refs, e.Good c
  fits : Fits t.stack none
  ret : ∀ e ∈ t.ret, awaited t.stack none = some (e.dev, e.block)
  target : ∀ f ∈ t.stack, ∀ b ∈ f.target, b < c.nrBuffers

/-- A task outside the cache has taken what its calls have returned. -/
theorem Ok.ret_eq_none {c : Cache} {t : Task} (h : t.Ok c) (hi : t.idle = true) : t.ret = none := by
  cases hr : t.ret with
  | none => rfl
  | some e =>
    have ha := h.ret e hr
    unfold idle at hi
    split at hi
    · next hst => simp [hst, awaited] at ha
    · next hst => simp [hst, awaited, Frame.awaits] at ha
    · cases hi

end Task

namespace State

/-- **The references to a head** that are out. -/
def refsTo (s : State n) (b : ℕ) : ℕ := ∑ t, Buffer.refsTo b (s.task t).refs

/-- **The cache is in order.** -/
structure Ok (s : State n) : Prop where
  laid : ∃ L, Laid s.sys.cache L
  count : ∀ b, b < s.sys.cache.nrBuffers → (s.sys.cache.head b).count = s.refsTo b
  count_lt : s.sys.CountsLt
  task : ∀ t, (s.task t).Ok s.sys.cache

/-- No head has more references than `b_count` can count. -/
def Bounded (s : State n) : Prop := ∀ b, s.refsTo b ≤ 255

variable {s s' : State n} {t : Fin n} {v : Task} {e : Ref} {used now : List Ref} {sys : Sys}

theorem refsTo_setTask (s : State n) (t : Fin n) (v : Task) (b : ℕ) :
    (s.setTask t v).refsTo b + Buffer.refsTo b (s.task t).refs =
      s.refsTo b + Buffer.refsTo b v.refs :=
  sum_update Finset.univ s.task (fun v => Buffer.refsTo b v.refs) (Finset.mem_univ t) v

/-- A head that a task refers to is counted. -/
theorem refsTo_pos (he : e ∈ (s.task t).refs) : 0 < s.refsTo e.bh :=
  lt_of_lt_of_le (Buffer.refsTo_pos he)
    (Finset.single_le_sum (f := fun i => Buffer.refsTo e.bh (s.task i).refs)
      (fun _ _ => Nat.zero_le _) (Finset.mem_univ t))

/-- **The references of every task stay good**: they are counted. -/
theorem Ok.good (h : s.Ok) (hT : Takes s.sys used sys now) (he : e ∈ (s.task t).refs) :
    e.Good sys.cache := by
  have hg := (h.task t).good e he
  have hc : (s.sys.cache.head e.bh).count ≠ 0 := by
    rw [h.count _ hg.lt]
    exact Nat.pos_iff_ne_zero.mp (refsTo_pos he)
  obtain ⟨hd, hb⟩ := hT.keeps e.bh hc
  exact ⟨hT.nrBuffers ▸ hg.lt, hd.trans hg.dev, hb.trans hg.block⟩

/-- **A step of one task.** -/
theorem Ok.takes (h : s.Ok) (hT : Takes s.sys used sys now)
    (hsum : ∀ b, Buffer.refsTo b v.refs + Buffer.refsTo b used =
      Buffer.refsTo b (s.task t).refs + Buffer.refsTo b now)
    (hrefs : ∀ e ∈ v.refs, e ∈ (s.task t).refs ∨ e ∈ now) (hfits : Fits v.stack none)
    (hret : ∀ e ∈ v.ret, awaited v.stack none = some (e.dev, e.block))
    (htarget : ∀ f ∈ v.stack, ∀ b ∈ f.target, b < s.sys.cache.nrBuffers)
    (hs' : s'.sys = sys) (ht' : s'.task = Function.update s.task t v) (hbound : s'.Bounded) :
    s'.Ok := by
  subst hs'
  have hrefs' : ∀ b, s'.refsTo b = (s.setTask t v).refsTo b := fun b => by
    unfold refsTo
    rw [ht']
    rfl
  refine ⟨hT.laid, fun b hb => ?_, fun b hb => hT.count_lt b (hT.nrBuffers ▸ hb), fun i => ?_⟩
  · rw [hT.nrBuffers] at hb
    have hc := hT.count b hb
    have hlt := hT.count_lt b hb
    have hold := h.count b hb
    have hset := refsTo_setTask s t v b
    have hsum := hsum b
    have hbound := hbound b
    rw [hrefs'] at hbound ⊢
    omega
  · rw [ht']
    by_cases hit : i = t
    · rw [hit, Function.update_self]
      refine ⟨fun e he => ?_, hfits, hret, fun f hf b hb => ?_⟩
      · rcases hrefs e he with he | he
        · exact h.good hT he
        · exact hT.refs e he
      · rw [hT.nrBuffers]
        exact htarget f hf b hb
    · rw [Function.update_of_ne hit]
      have hi := h.task i
      refine ⟨fun e he => h.good hT he, hi.fits, hi.ret, fun f hf b hb => ?_⟩
      rw [hT.nrBuffers]
      exact hi.target f hf b hb

/-- A step that leaves the queues, the counts and the references alone. -/
theorem Ok.same (h : s.Ok) (hs : s.sys.Same s'.sys)
    (ht : ∀ i, (s'.task i).stack = (s.task i).stack ∧
      (s'.task i).ret = (s.task i).ret ∧ (s'.task i).held = (s.task i).held) : s'.Ok := by
  have hrefs : ∀ i, (s'.task i).refs = (s.task i).refs := fun i => by
    unfold Task.refs
    rw [(ht i).1, (ht i).2.1, (ht i).2.2]
  obtain ⟨L, hL⟩ := h.laid
  refine ⟨⟨L, hs.laid hL⟩, fun b hb => ?_, fun b hb => ?_, fun i => ?_⟩
  · rw [hs.count, h.count b (hs.nrBuffers ▸ hb)]
    exact Finset.sum_congr rfl fun i _ => by rw [hrefs]
  · rw [hs.count]
    exact h.count_lt b (hs.nrBuffers ▸ hb)
  · have hi := h.task i
    refine ⟨fun e he => (hi.good e (hrefs i ▸ he)).same hs, ?_, ?_, ?_⟩
    · rw [(ht i).1]
      exact hi.fits
    · rw [(ht i).1, (ht i).2.1]
      exact hi.ret
    · rw [(ht i).1, hs.nrBuffers]
      exact hi.target

/-- **What running on comes to**: the topmost call makes a step. -/
theorem run_cases (hr : s.run t = some s') : ∃ f st fs ret,
    (s.task t).stack = f :: st ∧ f.step s.sys (s.task t).ret = .go s'.sys fs ret ∧
      s'.task = Function.update s.task t { s.task t with stack := fs ++ st, ret := ret } ∧
      s'.stored = s.stored := by
  unfold State.run at hr
  split at hr
  · cases hr
  · next f st hst =>
    split at hr
    · next sys fs ret hstep =>
      obtain rfl := Option.some.inj hr
      exact ⟨f, st, fs, ret, hst, hstep, rfl, rfl⟩
    · cases hr
    · cases hr

/-- The topmost call is given what it awaits, and its references are good. -/
theorem Ok.frame (h : s.Ok) {f : Frame} {st fs : List Frame} {ret : Option Ref}
    (hst : (s.task t).stack = f :: st) (hstep : f.step s.sys (s.task t).ret = .go sys fs ret) :
    f.Ok s.sys (s.task t).ret sys fs ret := by
  obtain ⟨L, hL⟩ := h.laid
  have ht := h.task t
  have hret := ht.ret
  have htarget := ht.target
  rw [hst] at hret htarget
  refine Frame.step_ok hL h.count_lt (fun e he => ht.good e ?_) (htarget f List.mem_cons_self) hret
    hstep
  rw [Task.refs, hst, List.flatMap_cons]
  simp only [List.mem_append] at he ⊢
  tauto

/-- **A task runs on.** -/
theorem Ok.run (h : s.Ok) (hr : s.run t = some s') (hbound : s'.Bounded) : s'.Ok := by
  obtain ⟨f, st, fs, ret, hst, hstep, htask, -⟩ := run_cases hr
  have hok := h.frame hst hstep
  have hfits := (h.task t).fits
  have htarget := (h.task t).target
  rw [hst] at hfits htarget
  refine h.takes (t := t) (v := { s.task t with stack := fs ++ st, ret := ret }) hok.takes
    (fun b => ?_) (fun e he => ?_) ?_ (fun e he => ?_) (fun g hg b hb => ?_) rfl htask hbound
  · simp only [Task.refs, hst, List.flatMap_cons, List.flatMap_append, refsTo_append]
    omega
  · simp only [Task.refs, List.flatMap_append, List.mem_append] at he ⊢
    rw [hst, List.flatMap_cons, List.mem_append]
    tauto
  · exact fits_append.mpr ⟨hok.fits.mono fun q hq => hfits.1 q hq, hfits.2⟩
  · obtain ⟨rfl, hasks⟩ := hok.result e he
    exact hfits.1 _ hasks
  · rcases List.mem_append.mp hg with hg | hg
    · exact hok.target g hg b hb
    · exact htarget g (List.mem_cons_of_mem _ hg) b hb

/-- The frame a call begins with has no references. -/
theorem call_plain (c : Call) : c.frame.refs = [] ∧ c.frame.target = none ∧
    c.frame.asks = c.asked := by
  cases c <;> exact ⟨rfl, rfl, rfl⟩

/-- **What an act comes to.** -/
inductive Acted (s : State n) (t : Fin n) : Act → State n → Prop
  | take {c : Option Call} {st : List Frame} (hst : (s.task t).stack = .caller c :: st) :
      Acted s t .take (s.setTask t { s.task t with
        stack := st, ret := none, held := (s.task t).ret.toList ++ (s.task t).held })
  | call {c : Call} (hidle : (s.task t).idle = true) :
      Acted s t (.call c) (s.setTask t { s.task t with
        stack := c.frame :: .caller (some c) :: (s.task t).stack, ret := none })
  | release {e : Ref} (hidle : (s.task t).idle = true) (he : e ∈ (s.task t).held) :
      Acted s t (.release e) (s.setTask t { s.task t with
        stack := .brelse e :: .caller none :: (s.task t).stack
        ret := none
        held := (s.task t).held.erase e
        changed := (s.task t).changed.filter (· ≠ e.bh) })
  | store {e : Ref} {f : Block → Block} (hidle : (s.task t).idle = true)
      (he : e ∈ (s.task t).held) :
      Acted s t (.store e f) { s.setTask t { s.task t with
          changed := e.bh :: (s.task t).changed } with
        sys := s.sys.setHead e.bh fun h => { h with data := f h.data }
        stored := Function.update s.stored e.dev
          (Function.update (s.stored e.dev) e.block (f (s.stored e.dev e.block))) }
  | mark {e : Ref} (hidle : (s.task t).idle = true) (he : e ∈ (s.task t).held) :
      Acted s t (.mark e) { s.setTask t { s.task t with
          changed := (s.task t).changed.filter (· ≠ e.bh) } with
        sys := s.sys.setHead e.bh fun h => { h with dirt := true } }
  | validate {e : Ref} (hidle : (s.task t).idle = true) (he : e ∈ (s.task t).held) :
      Acted s t (.validate e)
        { s with sys := s.sys.setHead e.bh fun h => { h with uptodate := true } }

theorem act_cases {a : Act} (h : s.act t a = some s') : Acted s t a s' := by
  unfold State.act at h
  cases a with
  | take =>
    dsimp only at h
    split at h
    · next hst =>
      cases h
      exact .take hst
    · cases h
  | call c =>
    dsimp only at h
    split at h
    · next hidle =>
      cases h
      exact .call hidle
    · cases h
  | release e =>
    dsimp only at h
    split at h
    · next hidle =>
      cases h
      exact .release hidle.1 hidle.2
    · cases h
  | store e f =>
    dsimp only at h
    split at h
    · next hidle =>
      cases h
      exact .store hidle.1 hidle.2
    · cases h
  | mark e =>
    dsimp only at h
    split at h
    · next hidle =>
      cases h
      exact .mark hidle.1 hidle.2
    · cases h
  | validate e =>
    dsimp only at h
    split at h
    · next hidle =>
      cases h
      exact .validate hidle.1 hidle.2
    · cases h

/-- A change of what a task has changed does not matter to its calls. -/
theorem setTask_calls (hv : v.stack = (s.task t).stack ∧ v.ret = (s.task t).ret ∧
    v.held = (s.task t).held) (i : Fin n) :
    ((s.setTask t v).task i).stack = (s.task i).stack ∧
      ((s.setTask t v).task i).ret = (s.task i).ret ∧
      ((s.setTask t v).task i).held = (s.task i).held := by
  change (Function.update s.task t v i).stack = _ ∧ (Function.update s.task t v i).ret = _ ∧
    (Function.update s.task t v i).held = _
  by_cases hit : i = t
  · rw [hit, Function.update_self]
    exact hv
  · rw [Function.update_of_ne hit]
    exact ⟨rfl, rfl, rfl⟩

/-- **A task acts.** -/
theorem Ok.act (h : s.Ok) {a : Act} (ha : s.act t a = some s') (hbound : s'.Bounded) : s'.Ok := by
  obtain ⟨L, hL⟩ := h.laid
  have ht := h.task t
  -- references may be moved about and given up
  have hpass : ∀ v : Task, (∀ b, Buffer.refsTo b v.refs = Buffer.refsTo b (s.task t).refs) →
      (∀ e ∈ v.refs, e ∈ (s.task t).refs) → Fits v.stack none →
      (∀ e ∈ v.ret, awaited v.stack none = some (e.dev, e.block)) →
      (∀ f ∈ v.stack, ∀ b ∈ f.target, b < s.sys.cache.nrBuffers) →
      s' = s.setTask t v → s'.Ok := by
    rintro v hsum hrefs hfits hret htarget rfl
    refine h.takes (.of_same hL h.count_lt (.refl _) (by simp) (List.Perm.refl [])) (fun b => ?_)
      (fun e he => Or.inl (hrefs e he)) hfits hret htarget rfl rfl hbound
    rw [hsum]
  cases act_cases ha with
  | take hst =>
    have hfits := ht.fits
    rw [hst] at hfits
    refine hpass _ (fun b => ?_) (fun e he => ?_) hfits.2 (by simp) (fun f hf => ?_) rfl
    · simp only [Task.refs, hst, List.flatMap_cons, refsTo_append, Option.toList_none,
        refsTo_nil, Frame.refs]
      omega
    · simp only [Task.refs, hst, List.flatMap_cons, List.mem_append, Option.toList_none,
        List.not_mem_nil, Frame.refs] at he ⊢
      tauto
    · exact ht.target f (hst ▸ List.mem_cons_of_mem _ hf)
  | @call c hidle =>
    obtain ⟨hrefs, htarget, hasks⟩ := call_plain c
    have hret := ht.ret_eq_none hidle
    have hnow : ∀ v : Task, v = { s.task t with
        stack := c.frame :: .caller (some c) :: (s.task t).stack, ret := none } →
        v.refs = (s.task t).refs := by
      rintro v rfl
      simp only [Task.refs, List.flatMap_cons, hrefs, hret]
      rfl
    refine hpass { s.task t with
      stack := c.frame :: .caller (some c) :: (s.task t).stack, ret := none }
      (fun b => by rw [hnow _ rfl]) (fun e he => hnow _ rfl ▸ he)
      ⟨fun q hq => ?_, ⟨by simp [Frame.asks], ht.fits⟩⟩ (by simp) (fun f hf => ?_) rfl
    · rw [hasks] at hq
      exact hq
    · rcases List.mem_cons.mp hf with rfl | hf
      · simp [htarget]
      · rcases List.mem_cons.mp hf with rfl | hf
        · simp [Frame.target]
        · exact ht.target f hf
  | @release e hidle he =>
    have hret := ht.ret_eq_none hidle
    refine hpass { s.task t with
      stack := .brelse e :: .caller none :: (s.task t).stack
      ret := none
      held := (s.task t).held.erase e
      changed := (s.task t).changed.filter (· ≠ e.bh) } (fun b => ?_) (fun e' he' => ?_)
      ⟨by simp [Frame.asks], ⟨by simp [Frame.asks], ht.fits⟩⟩ (by simp) (fun f hf => ?_) rfl
    · have herase := refsTo_erase he b
      simp only [Task.refs, hret, List.flatMap_cons, refsTo_append, Option.toList_none,
        refsTo_nil, Frame.refs, refsTo_cons]
      omega
    · simp only [Task.refs, hret, List.flatMap_cons, List.mem_append, Option.toList_none,
        List.not_mem_nil, Frame.refs, List.mem_singleton] at he' ⊢
      rcases he' with (he' | he') | he' | he' | he'
      · exact Or.inl (Or.inl (List.mem_of_mem_erase he'))
      · exact he'.elim
      · exact Or.inl (Or.inl (he' ▸ he))
      · exact he'.elim
      · exact Or.inr he'
    · rcases List.mem_cons.mp hf with rfl | hf
      · simp [Frame.target]
      · rcases List.mem_cons.mp hf with rfl | hf
        · simp [Frame.target]
        · exact ht.target f hf
  | @store e f =>
    exact h.same (.setHead (f := fun h => { h with data := f h.data }) (fun _ => rfl) _ _)
      (setTask_calls ⟨rfl, rfl, rfl⟩)
  | mark =>
    exact h.same (.setHead (f := fun h => { h with dirt := true }) (fun _ => rfl) _ _)
      (setTask_calls ⟨rfl, rfl, rfl⟩)
  | validate =>
    exact h.same (.setHead (f := fun h => { h with uptodate := true }) (fun _ => rfl) _ _)
      fun i => ⟨rfl, rfl, rfl⟩

/-- A driver leaves the queues and the counts alone. -/
theorem move_same {maj : ℕ} (h : s.sys.move maj = some sys) : s.sys.Same sys := by
  unfold Sys.move at h
  split at h
  · split at h
    · obtain rfl := Option.some.inj h
      exact ⟨rfl, rfl, rfl, fun _ => rfl⟩
    · cases h
  · cases h

theorem endRequest_same {maj : ℕ} {up : Bool} {junk : Block}
    (h : s.sys.endRequest maj up junk = some sys) : s.sys.Same sys := by
  unfold Sys.endRequest at h
  split at h
  · next i rest r _ _ =>
    dsimp only at h
    split at h
    · cases h
    · obtain rfl := Option.some.inj h
      have hd : ∀ d : Block, s.sys.Same ((s.sys.setHead r.bh fun h => { h with data := d }).setHead
          r.bh fun h => { h with uptodate := up, lock := false }) := fun d =>
        (Sys.Same.setHead (f := fun h => { h with data := d }) (fun _ => rfl) _ _).trans
          (Sys.Same.setHead (f := fun h => { h with uptodate := up, lock := false })
            (fun _ => rfl) _ _)
      exact ⟨(hd _).nrBuffers, (hd _).hashTable, (hd _).freeList, (hd _).core⟩
  · cases h

/-- An act of a task leaves them alone too. -/
theorem act_same {a : Act} (h : s.act t a = some s') : s.sys.Same s'.sys := by
  cases act_cases h with
  | take => exact .refl _
  | call => exact .refl _
  | release => exact .refl _
  | @store e f =>
    exact .setHead (f := fun h => { h with data := f h.data }) (fun _ => rfl) _ _
  | mark => exact .setHead (f := fun h => { h with dirt := true }) (fun _ => rfl) _ _
  | validate => exact .setHead (f := fun h => { h with uptodate := true }) (fun _ => rfl) _ _

/-- **Every step keeps the cache in order.** -/
theorem Ok.step {ev : Event n} (h : s.Ok) (hs : s.step ev = some s') (hbound : s'.Bounded) :
    s'.Ok := by
  cases ev with
  | run t => exact h.run hs hbound
  | act t a => exact h.act hs hbound
  | move maj =>
    obtain ⟨sys, hm, rfl⟩ := Option.map_eq_some_iff.mp hs
    exact h.same (move_same hm) fun _ => ⟨rfl, rfl, rfl⟩
  | endRequest maj up junk =>
    obtain ⟨sys, hm, rfl⟩ := Option.map_eq_some_iff.mp hs
    exact h.same (endRequest_same hm) fun _ => ⟨rfl, rfl, rfl⟩

/-- **A head is re-tagged only while it is unused, unlocked and clean.** -/
theorem Ok.retag {ev : Event n} (h : s.Ok) (hs : s.step ev = some s') (b : ℕ)
    (hb : ((s'.sys.cache.head b).dev, (s'.sys.cache.head b).blocknr) ≠
      ((s.sys.cache.head b).dev, (s.sys.cache.head b).blocknr)) :
    (s.sys.cache.head b).count = 0 ∧ (s.sys.cache.head b).lock = false ∧
      (s.sys.cache.head b).dirt = false := by
  have hsame : ¬s.sys.Same s'.sys := fun hsame => hb (by rw [(hsame.tag b).1, (hsame.tag b).2])
  cases ev with
  | run t =>
    obtain ⟨f, st, fs, ret, hst, hstep, -⟩ := run_cases hs
    exact (h.frame hst hstep).takes.retag b hb
  | act t a => exact absurd (act_same hs) hsame
  | move maj =>
    obtain ⟨sys, hm, rfl⟩ := Option.map_eq_some_iff.mp hs
    exact absurd (move_same hm) hsame
  | endRequest maj up junk =>
    obtain ⟨sys, hm, rfl⟩ := Option.map_eq_some_iff.mp hs
    exact absurd (endRequest_same hm) hsame

/-- The cache is in order at the start. -/
theorem Start.ok (h : s.Start) : s.Ok := by
  obtain ⟨m, old, hm, hc⟩ := h.cache
  have hrefs : ∀ b, s.refsTo b = 0 := fun b =>
    Finset.sum_eq_zero fun t _ => by rw [h.task t]; rfl
  refine ⟨hc ▸ ⟨_, laid_bufferInit hm old⟩, fun b _ => ?_, fun b _ => ?_, fun t => ?_⟩
  · rw [hrefs, hc]
    rfl
  · rw [hc]
    change 0 < 256
    omega
  · rw [h.task t]
    exact ⟨by simp [Task.refs], trivial, by simp, by simp⟩

end State

/-! ### The cache is sound -/

/-- **What the users of the cache rely on.** -/
structure State.Sound (s : State n) : Prop where
  /-- The queues are in order, and no two heads carry the same block. -/
  queues : ∃ L, Laid s.sys.cache L
  /-- A head is re-tagged only while it is unused, unlocked and clean. -/
  retag : ∀ ev s', s.step ev = some s' → ∀ b,
    ((s'.sys.cache.head b).dev, (s'.sys.cache.head b).blocknr) ≠
      ((s.sys.cache.head b).dev, (s.sys.cache.head b).blocknr) →
    (s.sys.cache.head b).count = 0 ∧ (s.sys.cache.head b).lock = false ∧
      (s.sys.cache.head b).dirt = false
  /-- The head a call returns carries the block that was asked for, and counts the caller. -/
  returned : ∀ t c dev block st e, (s.task t).stack = .caller (some c) :: st →
    c.asked = some (dev, block) → (s.task t).ret = some e →
    e.bh < s.sys.cache.nrBuffers ∧ (s.sys.cache.head e.bh).dev = dev ∧
      (s.sys.cache.head e.bh).blocknr = block ∧
      (s.sys.cache.head e.bh).count = s.refsTo e.bh ∧ 0 < s.refsTo e.bh

theorem State.Ok.sound {s : State n} (h : s.Ok) : s.Sound where
  queues := h.laid
  retag _ _ hs b hb := h.retag hs b hb
  returned t c dev block st e hst hc hret := by
    have ht := h.task t
    have he : e ∈ (s.task t).refs := by
      rw [Task.refs, hret]
      simp
    have hgood := ht.good e he
    have hasked := ht.ret e hret
    rw [hst] at hasked
    obtain ⟨rfl, rfl⟩ := Prod.mk.inj (Option.some.inj (hc.symm.trans hasked))
    exact ⟨hgood.lt, hgood.dev, hgood.block, h.count _ hgood.lt, State.refsTo_pos he⟩

/-- A machine with one buffer. -/
def oneBuffer : Sys where
  cache := bufferInit 1 fun _ => ⟨fun _ => 0, 0, 0, false, false, 0, false, none, none, none, none⟩
  slot _ := none
  queue _ := []
  requestFn _ := true
  moved _ := false
  disk _ _ _ := 0

/-- A task that has not called yet. -/
def oneBufferStart : State 1 := ⟨oneBuffer, fun _ => ⟨[], none, [], []⟩, oneBuffer.disk⟩

theorem oneBufferStart_start : oneBufferStart.Start :=
  ⟨⟨1, _, Nat.one_pos, rfl⟩, fun _ => rfl, fun _ => rfl, fun _ => rfl, fun _ => rfl, rfl⟩

section Wrap

/-- Some run of one task leads to these buffers, with these calls under way. -/
def Leads (sys : Sys) (st : List Frame) (ret : Option Ref) : Prop :=
  ∃ s : State 1, Reachable State.Start (fun s s' => ∃ ev, s.step ev = some s') s ∧
    s.sys = sys ∧ (s.task 0).stack = st ∧ (s.task 0).ret = ret

variable {sys sys' : Sys} {st fs : List Frame} {f : Frame} {ret ret' : Option Ref}
  {L : Layout} {e : Ref}

theorem Leads.run (h : Leads sys (f :: st) ret) (sys' : Sys) (fs : List Frame)
    (ret' : Option Ref) (hstep : f.step sys ret = .go sys' fs ret') :
    Leads sys' (fs ++ st) ret' := by
  obtain ⟨s, hr, rfl, hst, rfl⟩ := h
  refine ⟨{ s.setTask 0 { s.task 0 with stack := fs ++ st, ret := ret' } with sys := sys' },
    hr.next ⟨.run 0, ?_⟩, rfl, rfl, rfl⟩
  rw [State.step, State.run, hst]
  dsimp only
  rw [hstep]

theorem Leads.call (h : Leads sys [] ret) (c : Call) :
    Leads sys [c.frame, .caller (some c)] none := by
  obtain ⟨s, hr, rfl, hst, rfl⟩ := h
  refine ⟨s.setTask 0 { s.task 0 with
      stack := c.frame :: .caller (some c) :: (s.task 0).stack
      ret := none },
    hr.next ⟨.act 0 (.call c), ?_⟩, rfl, ?_, rfl⟩
  · rw [State.step, State.act]
    exact if_pos (by rw [Task.idle, hst])
  · change c.frame :: .caller (some c) :: (s.task 0).stack = _
    rw [hst]

theorem Leads.take {q : Option Call} (h : Leads sys (.caller q :: st) ret) :
    Leads sys st none := by
  obtain ⟨s, hr, rfl, hst, rfl⟩ := h
  refine ⟨s.setTask 0 { s.task 0 with
    stack := st, ret := none, held := (s.task 0).ret.toList ++ (s.task 0).held },
    hr.next ⟨.act 0 .take, ?_⟩, rfl, rfl, rfl⟩
  rw [State.step, State.act]
  dsimp only
  rw [hst]

end Wrap

end Linux011.Buffer

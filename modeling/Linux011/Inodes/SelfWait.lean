import Linux011.Inodes.Table

/-!
# A task that waits for itself

`read_inode` holds the lock of its inode while `bread` looks for a buffer. If the buffer
that `getblk` settles on is dirty, the task goes from `sync_dev` to `sync_inodes`, which
waits for every inode of the table, and so for the one the task has locked itself
(`Linux011.Inodes.not_inode_locks`).

That is the only way it can happen: as long as `getblk` settles on clean buffers, no task
waits for itself; and once it has gone to `sync_dev` with an inode locked, it never gives
the lock back. Both are `Linux011.Inodes.inode_locks`.
-/

namespace Linux011.Inodes

open Buffer (Sys Ref)

variable {s s' : State} {w w' : World} {ret r : Option Ref} {f g : Frame} {fs st : List Frame}
  {i j : ℕ} {ok : State → Prop}

/-- **The buffer that `getblk` settles on is clean**, where the task holds an inode. -/
def State.Clean (s : State) : Prop :=
  ∀ dev block bh fs, s.stack = .cache (.getblkWait dev block bh) :: fs → held fs ≠ [] →
    (s.world.sys.cache.head bh).lock = false → (s.world.sys.cache.head bh).count = 0 →
      (s.world.sys.cache.head bh).dirt = false

/-! ### What a step does to the locks -/

@[simp] theorem held_nil : held [] = [] := rfl

@[simp] theorem held_append (fs st : List Frame) : held (fs ++ st) = held fs ++ held st :=
  List.filterMap_append

theorem held_cons (f : Frame) (fs : List Frame) :
    held (f :: fs) = f.holds.toList ++ held fs := by
  unfold held
  cases h : f.holds with
  | none => rw [List.filterMap_cons_none h, Option.toList_none, List.nil_append]
  | some i => rw [List.filterMap_cons_some h, Option.toList_some, List.singleton_append]

@[simp] theorem held_cache (fs : List Buffer.Frame) : held (fs.map .cache) = [] := by
  unfold held
  rw [List.filterMap_map, List.filterMap_eq_nil_iff]
  exact fun _ _ => rfl

theorem mem_held_cons : i ∈ held (f :: fs) ↔ f.holds = some i ∨ i ∈ held fs := by
  rw [held_cons, List.mem_append, Option.mem_toList]

theorem locks_setInode {g : MInode → MInode} (hg : ∀ n, (g n).lock = n.lock) :
    (w.setInode i g).locks = w.locks := by
  funext j
  unfold World.locks World.setInode
  by_cases hj : j = i
  · rw [hj]
    dsimp only
    rw [Function.update_self, hg]
  · dsimp only
    rw [Function.update_of_ne hj]

theorem locks_lockInode : (w.lockInode i).locks = Function.update w.locks i true := by
  funext j
  unfold World.locks World.lockInode World.setInode
  by_cases hj : j = i
  · rw [hj]
    dsimp only
    rw [Function.update_self, Function.update_self]
  · dsimp only
    rw [Function.update_of_ne hj, Function.update_of_ne hj]

theorem locks_unlockInode : (w.unlockInode i).locks = Function.update w.locks i false := by
  funext j
  unfold World.locks World.unlockInode World.setInode
  by_cases hj : j = i
  · rw [hj]
    dsimp only
    rw [Function.update_self, Function.update_self]
  · dsimp only
    rw [Function.update_of_ne hj, Function.update_of_ne hj]

/-- **What a step can do to the locks.** -/
inductive Effect (w w' : World) (f : Frame) (fs : List Frame) : Prop
  /-- The call holds what it has held. -/
  | keep (h : held fs = f.holds.toList) (hl : w'.locks = w.locks)
  | lock (i : ℕ) (h : held fs = [i]) (hf : f.holds = none) (h0 : w.locks i = false)
    (hl : w'.locks = Function.update w.locks i true)
  | unlock (i : ℕ) (h : held fs = []) (hf : f.holds = some i)
    (hl : w'.locks = Function.update w.locks i false)

theorem breadInode_go (h : breadInode w i f = .go w' fs r) :
    w' = w ∧ ∃ dev block, fs = [.cache (.bread dev block), f] := by
  unfold breadInode at h
  split at h
  · cases h
  · split at h
    · cases h
    · obtain ⟨rfl, rfl, -⟩ := h
      exact ⟨rfl, _, _, rfl⟩

/-- A function of `fs/buffer.c` knows nothing of inodes, but that it may call `sync_inodes`. -/
theorem cache_go {c : Buffer.Frame} (h : (Frame.cache c).step w ret = .go w' fs r) :
    w'.inode = w.inode ∧
      ((∃ only, c = .syncInodes only ∧ fs = [.syncInodes 0, .cache (.sync only true 0)]) ∨
        ∃ cs sys r, c.step w.sys ret = .go sys cs r ∧ fs = cs.map .cache) := by
  cases c with
  | syncInodes only =>
    obtain ⟨rfl, rfl, -⟩ := h
    exact ⟨rfl, Or.inl ⟨only, rfl, rfl⟩⟩
  | _ =>
    simp only [Frame.step] at h
    split at h
    · cases h
    · cases h
    · next hc =>
      obtain ⟨rfl, rfl, -⟩ := h
      exact ⟨rfl, Or.inr ⟨_, _, _, hc, rfl⟩⟩

theorem step_effect (h : f.step w ret = .go w' fs r) : Effect w w' f fs := by
  cases f with
  | readInode i =>
    rw [Frame.step] at h
    split at h
    · cases h
    · next h0 =>
      obtain ⟨rfl, rfl, -⟩ := h
      exact .lock i rfl rfl (Bool.eq_false_iff.mpr h0) locks_lockInode
  | readLocked i =>
    obtain ⟨rfl, -, -, rfl⟩ := breadInode_go h
    exact .keep rfl rfl
  | readGot i =>
    cases ret with
    | none => cases h
    | some e =>
      obtain ⟨rfl, rfl, -⟩ := h
      exact .keep rfl (locks_setInode fun _ => rfl)
  | readDone i =>
    obtain ⟨rfl, rfl, -⟩ := h
    exact .unlock i rfl rfl locks_unlockInode
  | writeInode i =>
    rw [Frame.step] at h
    split at h
    · cases h
    · next h0 =>
      obtain ⟨rfl, rfl, -⟩ := h
      exact .lock i rfl rfl (Bool.eq_false_iff.mpr h0) locks_lockInode
  | writeLocked i =>
    rw [Frame.step] at h
    split at h
    · obtain ⟨rfl, rfl, -⟩ := h
      exact .unlock i rfl rfl locks_unlockInode
    · obtain ⟨rfl, -, -, rfl⟩ := breadInode_go h
      exact .keep rfl rfl
  | writeGot i =>
    cases ret with
    | none => cases h
    | some e =>
      obtain ⟨rfl, rfl, -⟩ := h
      exact .keep rfl (locks_setInode fun _ => rfl)
  | writeDone i =>
    obtain ⟨rfl, rfl, -⟩ := h
    exact .unlock i rfl rfl locks_unlockInode
  | syncInodes i =>
    rw [Frame.step] at h
    split at h
    · obtain ⟨rfl, rfl, -⟩ := h
      exact .keep rfl rfl
    · split at h
      · cases h
      · split at h <;> obtain ⟨rfl, rfl, -⟩ := h <;> exact .keep rfl rfl
  | cache c =>
    obtain ⟨hi, ⟨only, -, rfl⟩ | ⟨cs, -, -, -, rfl⟩⟩ := cache_go h
    · exact .keep rfl (by unfold World.locks; rw [hi])
    · exact .keep (held_cache cs) (by unfold World.locks; rw [hi])

/-- A step of the task. -/
theorem run_cases (h : s.run = some s') : ∃ f st fs, s.stack = f :: st ∧
    f.step s.world s.ret = .go s'.world fs s'.ret ∧ s'.stack = fs ++ st := by
  unfold State.run at h
  split at h
  · cases h
  · next f st hst =>
    split at h
    · next w fs r hstep =>
      obtain rfl := Option.some.inj h
      exact ⟨f, st, fs, hst, hstep, rfl⟩
    · cases h
    · cases h

/-! ### Locks are held once -/

/-- The call is about the inode. -/
def Frame.About (f : Frame) (i : ℕ) : Prop := f.waitsOn = some i ∨ f.holds = some i

theorem about_cache {c : Buffer.Frame} : ¬(Frame.cache c).About i := by
  rintro (h | h) <;> cases h

theorem about_syncInodes (h : (Frame.syncInodes j).About i) : i < nrInode := by
  rcases h with h | h
  · rw [Frame.waitsOn] at h
    split at h
    · next hlt => exact Option.some.inj h ▸ hlt
    · cases h
  · cases h

/-- A call calls for its own inode, or for one of the table. -/
theorem step_about (h : f.step w ret = .go w' fs r) (hg : g ∈ fs) (ha : g.About i) :
    f.About i ∨ i < nrInode := by
  have hone : ∀ {f' : Frame}, g ∈ [f'] → f'.About i := fun hg => List.mem_singleton.mp hg ▸ ha
  have htwo : ∀ {c : Buffer.Frame} {f' : Frame}, g ∈ [.cache c, f'] → f'.About i := by
    intro c f' hg
    rcases List.mem_cons.mp hg with rfl | hg
    · exact absurd ha about_cache
    · exact hone hg
  cases f with
  | readInode j =>
    rw [Frame.step] at h
    split at h
    · cases h
    · obtain ⟨-, rfl, -⟩ := h
      exact Or.inl (Or.inl ((hone hg).resolve_left (by simp [Frame.waitsOn])))
  | readLocked j =>
    obtain ⟨-, dev, block, rfl⟩ := breadInode_go h
    have ha' : (Frame.readGot j).About i := htwo hg
    exact Or.inl ha'
  | readGot j =>
    cases ret with
    | none => cases h
    | some e =>
      obtain ⟨-, rfl, -⟩ := h
      have ha' : (Frame.readDone j).About i := htwo hg
      exact Or.inl ha'
  | readDone j =>
    obtain ⟨-, rfl, -⟩ := h
    cases hg
  | writeInode j =>
    rw [Frame.step] at h
    split at h
    · cases h
    · obtain ⟨-, rfl, -⟩ := h
      exact Or.inl (Or.inl ((hone hg).resolve_left (by simp [Frame.waitsOn])))
  | writeLocked j =>
    rw [Frame.step] at h
    split at h
    · obtain ⟨-, rfl, -⟩ := h
      cases hg
    · obtain ⟨-, dev, block, rfl⟩ := breadInode_go h
      have ha' : (Frame.writeGot j).About i := htwo hg
      exact Or.inl ha'
  | writeGot j =>
    cases ret with
    | none => cases h
    | some e =>
      obtain ⟨-, rfl, -⟩ := h
      have ha' : (Frame.writeDone j).About i := htwo hg
      exact Or.inl ha'
  | writeDone j =>
    obtain ⟨-, rfl, -⟩ := h
    cases hg
  | syncInodes j =>
    rw [Frame.step] at h
    split at h
    · obtain ⟨-, rfl, -⟩ := h
      cases hg
    · next hlt =>
      split at h
      · cases h
      · split at h <;> obtain ⟨-, rfl, -⟩ := h
        · rcases List.mem_cons.mp hg with rfl | hg
          · obtain rfl := Option.some.inj (ha.resolve_right (by simp [Frame.holds]))
            exact Or.inr (not_le.mp hlt)
          · exact Or.inr (about_syncInodes (hone hg))
        · exact Or.inr (about_syncInodes (hone hg))
  | cache c =>
    obtain ⟨-, ⟨only, -, rfl⟩ | ⟨cs, -, -, -, rfl⟩⟩ := cache_go h
    · rcases List.mem_cons.mp hg with rfl | hg
      · exact Or.inr (about_syncInodes ha)
      · exact absurd (hone hg) about_cache
    · obtain ⟨c', -, rfl⟩ := List.mem_map.mp hg
      exact absurd ha about_cache

/-- **What holds of the locks**: every inode that is held is locked, and held once, and all
calls are about inodes of the table. -/
structure Good (s : State) : Prop where
  nodup : (held s.stack).Nodup
  locked : ∀ i ∈ held s.stack, s.world.locks i = true
  lt : ∀ f ∈ s.stack, ∀ i, f.About i → i < nrInode

theorem Good.start (h : Start s) : Good s := by
  have key : ∀ {f : Frame} {i : ℕ}, i < nrInode → f.waitsOn = some i → f.holds = none →
      s.stack = [f] → Good s := by
    intro f i hi hw hh hst
    have h0 : held [f] = [] := by rw [held_cons, hh]; rfl
    refine ⟨?_, ?_, ?_⟩ <;> rw [hst]
    · rw [h0]
      exact List.nodup_nil
    · rw [h0]
      exact fun j hj => absurd hj List.not_mem_nil
    · rintro f' hf j hj
      obtain rfl := List.mem_singleton.mp hf
      rcases hj with hj | hj
      · rw [hw] at hj
        exact Option.some.inj hj ▸ hi
      · rw [hh] at hj
        cases hj
  obtain ⟨i, hi, hst | hst⟩ := h
  · exact key hi rfl rfl hst
  · exact key hi rfl rfl hst

theorem Good.step (hg : Good s) (h : Step ok s s') : Good s' := by
  cases h with
  | others w hl => exact ⟨hg.nodup, hl, hg.lt⟩
  | run _ h =>
    obtain ⟨f, st, fs, hst, hstep, hst'⟩ := run_cases h
    obtain ⟨hn, hk, hlt⟩ := hg
    rw [hst] at hn hk hlt
    have hlt' : ∀ g ∈ s'.stack, ∀ i, g.About i → i < nrInode := by
      intro g hg i ha
      rw [hst', List.mem_append] at hg
      rcases hg with hg | hg
      · exact (step_about hstep hg ha).elim (hlt f List.mem_cons_self i) id
      · exact hlt g (List.mem_cons_of_mem f hg) i ha
    refine ⟨?_, ?_, hlt'⟩ <;> rw [hst', held_append] <;> rw [held_cons] at hn hk
    · rcases step_effect hstep with ⟨hh, -⟩ | ⟨i, hh, hf, h0, -⟩ | ⟨i, hh, hf, -⟩
      · rwa [hh]
      · rw [hh]
        refine List.nodup_cons.mpr ⟨fun hi => ?_, (List.nodup_append.mp hn).2.1⟩
        rw [hk i (List.mem_append_right _ hi)] at h0
        cases h0
      · rw [hh]
        exact (List.nodup_append.mp hn).2.1
    · rcases step_effect hstep with ⟨hh, hl⟩ | ⟨i, hh, hf, h0, hl⟩ | ⟨i, hh, hf, hl⟩ <;>
        rw [hh, hl] <;> intro j hj
      · exact hk j hj
      · by_cases hji : j = i
        · rw [hji, Function.update_self]
        · rw [Function.update_of_ne hji]
          have hj := (List.mem_cons.mp hj).resolve_left hji
          exact hk j (List.mem_append_right _ hj)
      · have hji : j ≠ i := by
          rintro rfl
          rw [hf] at hn
          exact (List.nodup_cons.mp hn).1 hj
        rw [Function.update_of_ne hji]
        exact hk j (List.mem_append_right _ hj)

/-! ### Clean buffers -/

/-- The call is not one of the loops of `sync_dev` and `sys_sync`. -/
def Direct : Buffer.Frame → Prop
  | .sync _ _ _ => False
  | .syncWait _ _ _ => False
  | .syncInodes _ => False
  | _ => True

section Direct

variable {c : Buffer.Frame} {cs cs' : List Buffer.Frame} {sys sys' : Sys} {cmd : Buffer.Cmd}
  {ahead : Bool} {maj bh : ℕ}

theorem lockAndTest_go (h : sys.lockAndTest cmd ahead maj bh cs = .go sys' cs' r) :
    cs' = cs ∨ cs' = .makeRequest cmd ahead maj bh :: cs := by
  unfold Sys.lockAndTest at h
  split at h <;> obtain ⟨-, rfl, -⟩ := h
  · exact Or.inl rfl
  · exact Or.inr rfl

/-- `ll_rw_block` may call `make_request`. -/
theorem llRwBlock_go (h : sys.llRwBlock cmd ahead bh cs = .go sys' cs' r) :
    cs' = cs ∨ ∃ c, Direct c ∧ cs' = c :: cs := by
  unfold Sys.llRwBlock at h
  dsimp only at h
  split at h
  · obtain ⟨-, rfl, -⟩ := h
    exact Or.inl rfl
  · split at h
    · split at h <;> obtain ⟨-, rfl, -⟩ := h
      · exact Or.inl rfl
      · exact Or.inr ⟨.lockBuffer cmd ahead _ bh, trivial, rfl⟩
    · exact (lockAndTest_go h).imp_right fun h => ⟨.makeRequest cmd ahead _ bh, trivial, h⟩

theorem direct_llRwBlock (h : sys.llRwBlock cmd ahead bh [c] = .go sys' cs' r) (hc : Direct c) :
    ∀ c ∈ cs', Direct c := by
  rcases llRwBlock_go h with rfl | ⟨c', hc', rfl⟩
  · simpa using hc
  · simpa using ⟨hc', hc⟩

/-- **Only a dirty buffer takes `getblk` to `sync_dev`.** -/
theorem direct_step (hc : Direct c) (hv : ∀ dev block bh, c = .getblkWait dev block bh →
      (sys.cache.head bh).lock = false → (sys.cache.head bh).count = 0 →
        (sys.cache.head bh).dirt = false)
    (h : c.step sys ret = .go sys' cs r) : ∀ c ∈ cs, Direct c := by
  cases c with
  | sync only again i => exact hc.elim
  | syncWait only again i => exact hc.elim
  | syncInodes only => exact hc.elim
  | caller c => cases h
  | getHashTable dev block =>
    simp only [Buffer.Frame.step] at h
    split at h <;> obtain ⟨-, rfl, -⟩ := h <;> simp [Direct]
  | hashWait e =>
    simp only [Buffer.Frame.step] at h
    split at h
    · cases h
    · split at h <;> obtain ⟨-, rfl, -⟩ := h <;> simp [Direct]
  | getblk dev block =>
    obtain ⟨-, rfl, -⟩ := h
    simp [Direct]
  | getblkHashed dev block =>
    simp only [Buffer.Frame.step] at h
    split at h
    · obtain ⟨-, rfl, -⟩ := h
      simp
    · split at h <;> obtain ⟨-, rfl, -⟩ := h <;> simp [Direct]
  | getblkAsleep dev block =>
    obtain ⟨-, rfl, -⟩ := h
    simp [Direct]
  | getblkWait dev block bh =>
    simp only [Buffer.Frame.step] at h
    split at h
    · cases h
    next hl =>
    split at h
    · obtain ⟨-, rfl, -⟩ := h
      simp [Direct]
    next h0 =>
    -- the buffer is free, so that it is clean
    rw [hv dev block bh rfl (Bool.eq_false_iff.mpr hl) (not_not.mp h0), if_neg Bool.false_ne_true]
      at h
    split at h
    · obtain ⟨-, rfl, -⟩ := h
      simp [Direct]
    · split at h
      · cases h
      · obtain ⟨-, rfl, -⟩ := h
        simp
  | lockBuffer cmd ahead maj bh =>
    simp only [Buffer.Frame.step] at h
    split at h
    · cases h
    · rcases lockAndTest_go h with rfl | rfl <;> simp [Direct]
  | makeRequest cmd ahead maj bh =>
    simp only [Buffer.Frame.step] at h
    split at h
    · split at h
      · obtain ⟨-, rfl, -⟩ := h
        simp
      · cases h
    · obtain ⟨-, rfl, -⟩ := h
      simp
  | brelse e =>
    simp only [Buffer.Frame.step] at h
    split at h
    · cases h
    · split at h
      · cases h
      · obtain ⟨-, rfl, -⟩ := h
        simp
  | bread dev block =>
    obtain ⟨-, rfl, -⟩ := h
    simp [Direct]
  | breadGot dev block =>
    simp only [Buffer.Frame.step] at h
    split at h
    · cases h
    · split at h
      · obtain ⟨-, rfl, -⟩ := h
        simp
      · exact direct_llRwBlock h trivial
  | breadWait e =>
    simp only [Buffer.Frame.step] at h
    split at h
    · cases h
    · split at h <;> obtain ⟨-, rfl, -⟩ := h <;> simp [Direct]
  | breada dev first ahead =>
    obtain ⟨-, rfl, -⟩ := h
    simp [Direct]
  | breadaGot dev first ahead =>
    simp only [Buffer.Frame.step] at h
    split at h
    · cases h
    · split at h
      · obtain ⟨-, rfl, -⟩ := h
        simp [Direct]
      · exact direct_llRwBlock h trivial
  | breadaNext e dev ahead =>
    cases ahead <;> obtain ⟨-, rfl, -⟩ := h <;> simp [Direct]
  | breadaAhead e dev block ahead =>
    simp only [Buffer.Frame.step] at h
    split at h
    · obtain ⟨-, rfl, -⟩ := h
      simp [Direct]
    · split at h
      · obtain ⟨-, rfl, -⟩ := h
        simp [Direct]
      · exact direct_llRwBlock h trivial
  | breadaDrop e tmp dev ahead =>
    obtain ⟨-, rfl, -⟩ := h
    simp [Direct]

end Direct

/-- `read_inode` or `write_inode`, waiting for the lock or holding it. -/
def Frame.IsRoot (f : Frame) : Prop :=
  (∃ i, f = .readInode i ∨ f = .writeInode i) ∨ ∃ i, f.holds = some i

/-- **Inside `read_inode` or `write_inode`**: the task waits for the lock, or it holds the lock
and no loop of `fs/buffer.c` is under way. -/
inductive Inside : List Frame → Prop
  | waits {f : Frame} (hf : f.IsRoot) : Inside [f]
  | holds (cs : List Buffer.Frame) {f : Frame} {i : ℕ} (hc : ∀ c ∈ cs, Direct c)
    (hf : f.holds = some i) : Inside (cs.map .cache ++ [f])

/-- `read_inode` and `write_inode` themselves. -/
theorem inside_step (hf : f.IsRoot) (h : f.step w ret = .go w' fs r) : fs = [] ∨ Inside fs := by
  cases f with
  | readInode i =>
    rw [Frame.step] at h
    split at h
    · cases h
    · obtain ⟨-, rfl, -⟩ := h
      exact Or.inr (.waits (Or.inr ⟨i, rfl⟩))
  | readLocked i =>
    obtain ⟨-, dev, block, rfl⟩ := breadInode_go h
    exact Or.inr (.holds [.bread dev block] (by simp [Direct]) rfl)
  | readGot i =>
    cases ret with
    | none => cases h
    | some e =>
      obtain ⟨-, rfl, -⟩ := h
      exact Or.inr (.holds [.brelse e] (by simp [Direct]) rfl)
  | readDone i =>
    obtain ⟨-, rfl, -⟩ := h
    exact Or.inl rfl
  | writeInode i =>
    rw [Frame.step] at h
    split at h
    · cases h
    · obtain ⟨-, rfl, -⟩ := h
      exact Or.inr (.waits (Or.inr ⟨i, rfl⟩))
  | writeLocked i =>
    rw [Frame.step] at h
    split at h
    · obtain ⟨-, rfl, -⟩ := h
      exact Or.inl rfl
    · obtain ⟨-, dev, block, rfl⟩ := breadInode_go h
      exact Or.inr (.holds [.bread dev block] (by simp [Direct]) rfl)
  | writeGot i =>
    cases ret with
    | none => cases h
    | some e =>
      obtain ⟨-, rfl, -⟩ := h
      exact Or.inr (.holds [.brelse e] (by simp [Direct]) rfl)
  | writeDone i =>
    obtain ⟨-, rfl, -⟩ := h
    exact Or.inl rfl
  | syncInodes i => rcases hf with ⟨j, hf | hf⟩ | ⟨j, hf⟩ <;> cases hf
  | cache c => rcases hf with ⟨j, hf | hf⟩ | ⟨j, hf⟩ <;> cases hf

/-- **Where the task is**: it has come back, or it is inside. -/
def Plain (s : State) : Prop := s.stack = [] ∨ Inside s.stack

theorem Plain.start (h : Start s) : Plain s := by
  obtain ⟨i, -, h | h⟩ := h
  · exact Or.inr (h ▸ .waits (Or.inl ⟨i, Or.inl rfl⟩))
  · exact Or.inr (h ▸ .waits (Or.inl ⟨i, Or.inr rfl⟩))

theorem Plain.step (hp : Plain s) (h : Step State.Clean s s') : Plain s' := by
  cases h with
  | others w hl => exact hp
  | run hclean h =>
    obtain ⟨f, st, fs, hst, hstep, hst'⟩ := run_cases h
    unfold Plain
    rw [hst']
    rcases hp with hp | hp
    · rw [hp] at hst
      cases hst
    generalize hs : s.stack = stack at hp hst
    cases hp with
    | waits hf =>
      obtain ⟨rfl, rfl⟩ := List.cons.inj hst
      rw [List.append_nil]
      exact inside_step hf hstep
    | @holds cs f' i hc hf =>
      cases cs with
      | nil =>
        obtain ⟨rfl, rfl⟩ := List.cons.inj hst
        rw [List.append_nil]
        exact inside_step (Or.inr ⟨i, hf⟩) hstep
      | cons c cs =>
        rw [List.map_cons, List.cons_append] at hst hs
        obtain ⟨rfl, rfl⟩ := List.cons.inj hst
        obtain ⟨hc₀, hcs⟩ := List.forall_mem_cons.mp hc
        obtain ⟨-, ⟨only, rfl, -⟩ | ⟨cs', sys, r, hstep', rfl⟩⟩ := cache_go hstep
        · exact hc₀.elim
        · have hd := direct_step hc₀ (fun dev block bh hw => ?_) hstep'
          · right
            rw [← List.append_assoc, ← List.map_append]
            refine .holds (cs' ++ cs) (fun c hc => ?_) hf
            exact (List.mem_append.mp hc).elim (hd c) (hcs c)
          · refine hclean dev block bh _ (hw ▸ hs) ?_
            rw [held_append, held_cache, held_cons, hf]
            exact List.cons_ne_nil _ _

theorem Plain.not_selfWaits (h : Plain s) : ¬s.SelfWaits := by
  rintro ⟨f, fs, i, hst, hw, hi⟩
  rcases h with h | h
  · rw [h] at hst
    cases hst
  · rw [hst] at h
    generalize hs : f :: fs = stack at h
    cases h with
    | waits hf =>
      obtain ⟨rfl, rfl⟩ := List.cons.inj hs
      cases hi
    | holds cs hc hf =>
      cases cs with
      | nil =>
        obtain ⟨rfl, rfl⟩ := List.cons.inj hs
        cases hi
      | cons c cs =>
        obtain ⟨rfl, rfl⟩ := List.cons.inj hs
        cases hw

/-! ### No way back from `sync_dev` -/

/-- The first loop of `sync_dev`, before `sync_inodes`. -/
def Early : Buffer.Frame → Prop
  | .sync _ again _ => again = false
  | .syncWait _ again _ => again = false
  | .syncInodes _ => True
  | _ => False

/-- **The task is caught**: it is in `sync_dev` or `sync_inodes`, below them it holds the lock
of inode `i`, and the loop of `sync_inodes` has not gone past it. -/
structure Caught (base : List Frame) (i : ℕ) (s : State) : Prop where
  locked : s.world.locks i = true
  stack : ∃ fs, i ∉ held fs ∧
    ((∃ c, Early c ∧ s.stack = fs ++ .cache c :: base) ∨
      ∃ k only, k ≤ i ∧ s.stack = fs ++ .syncInodes k :: .cache (.sync only true 0) :: base)

variable {base : List Frame}

/-- The loop of `sync_dev` goes on to `sync_inodes`. -/
theorem early_step {c : Buffer.Frame} (hc : Early c)
    (h : (Frame.cache c).step w ret = .go w' fs r) :
    (∃ fs' c', held fs' = [] ∧ Early c' ∧ fs = fs' ++ [.cache c']) ∨
      ∃ only, fs = [.syncInodes 0, .cache (.sync only true 0)] := by
  cases c with
  | sync only again k =>
    obtain ⟨-, ⟨only', hne, -⟩ | ⟨cs, sys, r, hstep, rfl⟩⟩ := cache_go h
    · cases hne
    obtain rfl : again = false := hc
    left
    simp only [Buffer.Frame.step, Bool.false_eq_true, if_false] at hstep
    split at hstep
    · obtain ⟨-, rfl, -⟩ := hstep
      exact ⟨[], .syncInodes only, rfl, trivial, rfl⟩
    · split at hstep <;> obtain ⟨-, rfl, -⟩ := hstep
      · exact ⟨[], .syncWait only false k, rfl, rfl, rfl⟩
      · exact ⟨[], .sync only false (k + 1), rfl, rfl, rfl⟩
  | syncWait only again k =>
    obtain ⟨-, ⟨only', hne, -⟩ | ⟨cs, sys, r, hstep, rfl⟩⟩ := cache_go h
    · cases hne
    obtain rfl : again = false := hc
    left
    simp only [Buffer.Frame.step] at hstep
    split at hstep
    · cases hstep
    · split at hstep
      · rcases llRwBlock_go hstep with rfl | ⟨c, -, rfl⟩
        · exact ⟨[], .sync only false (k + 1), rfl, rfl, rfl⟩
        · exact ⟨[.cache c], .sync only false (k + 1), rfl, rfl, rfl⟩
      · obtain ⟨-, rfl, -⟩ := hstep
        exact ⟨[], .sync only false (k + 1), rfl, rfl, rfl⟩
  | syncInodes only =>
    obtain ⟨-, rfl, -⟩ := h
    exact Or.inr ⟨only, rfl⟩
  | _ => exact hc.elim

/-- What is above the lock changes no lock of its own accord. -/
theorem Caught.locks (hl : w.locks i = true) (hf : f.holds ≠ some i)
    (h : f.step w ret = .go w' fs r) : w'.locks i = true ∧ i ∉ held fs := by
  rcases step_effect h with ⟨hh, hl'⟩ | ⟨j, hh, -, h0, hl'⟩ | ⟨j, hh, hj, hl'⟩ <;> rw [hh, hl']
  · exact ⟨hl, fun hi => hf (Option.mem_toList.mp hi)⟩
  · have hji : i ≠ j := by
      rintro rfl
      rw [hl] at h0
      cases h0
    rw [Function.update_of_ne hji]
    exact ⟨hl, fun hi => hji (List.mem_singleton.mp hi)⟩
  · have hji : i ≠ j := by
      rintro rfl
      exact hf hj
    rw [Function.update_of_ne hji]
    exact ⟨hl, List.not_mem_nil⟩

theorem Caught.step (hi : i < nrInode) (hb : i ∈ held base) (hc : Caught base i s)
    (h : Step ok s s') : Caught base i s' := by
  obtain ⟨hl, fs, hfs, hst⟩ := hc
  cases h with
  | others w hw =>
    refine ⟨hw i ?_, fs, hfs, hst⟩
    rcases hst with ⟨c, -, hst⟩ | ⟨k, only, -, hst⟩ <;> rw [hst] <;>
      simp only [held_append, held_cons, List.mem_append, hb, or_true]
  | run _ h =>
    obtain ⟨f, st, gs, hst', hstep, hst''⟩ := run_cases h
    cases fs with
    | cons f' fs =>
      -- the topmost call is above the lock
      have hf : f.holds ≠ some i ∧ ∃ rest, st = fs ++ rest ∧
          ((∃ c, Early c ∧ rest = .cache c :: base) ∨
            ∃ k only, k ≤ i ∧ rest = .syncInodes k :: .cache (.sync only true 0) :: base) := by
        rw [mem_held_cons, not_or] at hfs
        rcases hst with ⟨c, hc, hst⟩ | ⟨k, only, hk, hst⟩ <;>
          obtain ⟨rfl, rfl⟩ := List.cons.inj (hst'.symm.trans hst)
        · exact ⟨hfs.1, _, rfl, Or.inl ⟨c, hc, rfl⟩⟩
        · exact ⟨hfs.1, _, rfl, Or.inr ⟨k, only, hk, rfl⟩⟩
      obtain ⟨hf, rest, rfl, hrest⟩ := hf
      obtain ⟨hl', hgs⟩ := Caught.locks hl hf hstep
      rw [mem_held_cons, not_or] at hfs
      refine ⟨hl', gs ++ fs, ?_, ?_⟩
      · rw [held_append, List.mem_append, not_or]
        exact ⟨hgs, hfs.2⟩
      · rw [hst'', ← List.append_assoc]
        rcases hrest with ⟨c, hc, rfl⟩ | ⟨k, only, hk, rfl⟩
        · exact Or.inl ⟨c, hc, rfl⟩
        · exact Or.inr ⟨k, only, hk, rfl⟩
    | nil =>
      rcases hst with ⟨c, hc, hst⟩ | ⟨k, only, hk, hst⟩ <;>
        obtain ⟨rfl, rfl⟩ := List.cons.inj (hst'.symm.trans hst)
      · obtain ⟨hl', -⟩ := Caught.locks hl (by simp [Frame.holds]) hstep
        rcases early_step hc hstep with ⟨fs, c', h0, hc', rfl⟩ | ⟨only, rfl⟩
        · refine ⟨hl', fs, by simp [h0], Or.inl ⟨c', hc', ?_⟩⟩
          rw [hst'', List.append_assoc]
          rfl
        · exact ⟨hl', [], by simp, Or.inr ⟨0, only, Nat.zero_le i, hst''⟩⟩
      · obtain ⟨hl', -⟩ := Caught.locks hl (by simp [Frame.holds]) hstep
        rw [Frame.step, if_neg (by omega)] at hstep
        split at hstep
        · cases hstep
        · next hk0 =>
          -- the lock is not free, so that this is another inode
          have hlt : k + 1 ≤ i := by
            refine Nat.lt_of_le_of_ne hk ?_
            rintro rfl
            exact hk0 hl
          split at hstep <;> obtain ⟨-, rfl, -⟩ := Move.go.inj hstep
          · exact ⟨hl', [.writeInode k], by simp [held_cons, Frame.holds],
              Or.inr ⟨k + 1, only, hlt, hst''⟩⟩
          · exact ⟨hl', [], by simp, Or.inr ⟨k + 1, only, hlt, hst''⟩⟩

theorem Caught.held (hb : i ∈ Inodes.held base) (hc : Caught base i s) :
    i ∈ Inodes.held s.stack := by
  obtain ⟨-, fs, -, ⟨c, -, hst⟩ | ⟨k, only, -, hst⟩⟩ := hc <;> rw [hst] <;>
    simp only [held_append, held_cons, List.mem_append, hb, or_true]

/-- **Locks of inodes.** As long as `getblk` settles on clean buffers, a task does not come to
wait for an inode that it has locked itself; and where a task that holds an inode goes on with
a dirty buffer, it holds the inode for ever. -/
theorem inode_locks (s : State) :
    (Reachable Start (Step State.Clean) s → ¬s.SelfWaits) ∧
    ∀ s₁ s₂, Reachable Start (Step fun _ => True) s → ¬s.Clean → s.run = some s₁ →
      Relation.ReflTransGen (Step fun _ => True) s₁ s₂ →
        held s.stack ⊆ held s₂.stack := by
  refine ⟨fun h => ?_, fun s₁ s₂ h hclean hrun hsteps i hi => ?_⟩
  · exact (h.inv (fun s => Plain.start) fun s s' => Plain.step).not_selfWaits
  · have hg : Good s := h.inv (fun s => Good.start) fun s s' hg hs => hg.step hs
    unfold State.Clean at hclean
    push Not at hclean
    obtain ⟨dev, block, bh, fs, hst, hne, hl, h0, hd⟩ := hclean
    obtain ⟨f, st, gs, hst', hstep, hst₁⟩ := run_cases hrun
    obtain ⟨rfl, rfl⟩ := List.cons.inj (hst'.symm.trans hst)
    have hbase : i ∈ held (.cache (.getblkWait dev block bh) :: st) := hst ▸ hi
    have hlt : i < nrInode := by
      obtain ⟨f, hf, hfi⟩ := List.mem_filterMap.mp hi
      exact hg.lt f hf i (Or.inr hfi)
    have hc : Caught (.cache (.getblkWait dev block bh) :: st) i s₁ := by
      obtain ⟨hin, -⟩ := cache_go hstep
      refine ⟨?_, [], by simp, Or.inl ⟨.sync (some (s.world.sys.cache.head bh).dev) false 0, rfl,
        ?_⟩⟩
      · unfold World.locks
        rw [hin]
        exact hg.locked i hi
      · simp only [Frame.step, Buffer.Frame.step] at hstep
        rw [hl, h0] at hstep
        simp [hd] at hstep
        rw [hst₁, ← hstep.2.1]
        rfl
    have hrest : Caught (.cache (.getblkWait dev block bh) :: st) i s₂ := by
      induction hsteps with
      | refl => exact hc
      | tail _ hs ih => exact ih.step hlt hbase hs
    exact hrest.held hbase

/-! ### A cache without a clean buffer -/

/-- A cache of one buffer, which is dirty and nobody's, and an inode to be written. -/
def oneDirty : World where
  sys :=
    { cache :=
        { nrBuffers := 1
          head := fun _ => ⟨fun _ => 0, 5, 0x300, true, true, 0, false, none, none, some 0, some 0⟩
          hashTable := fun h => if h = Buffer.hashfn 0x300 5 then some 0 else none
          freeList := 0 }
      slot := fun _ => none
      queue := fun _ => []
      requestFn := fun maj => maj == 3
      moved := fun _ => false
      disk := fun _ _ _ => 0 }
  inode _ := ⟨fun _ => 0, 0x300, 1, false, true, false⟩
  super _ := ⟨3, 3, 0x300, false⟩

/-- The task runs on, so many steps. -/
def State.runs : ℕ → State → Option State
  | 0, s => some s
  | n + 1, s => s.run.bind (State.runs n)

theorem steps_of_runs {n : ℕ} (h : s.runs n = some s') :
    Relation.ReflTransGen (Step fun _ => True) s s' := by
  induction n generalizing s with
  | zero =>
    obtain rfl := Option.some.inj h
    exact .refl
  | succ n ih =>
    obtain ⟨s₁, hrun, h⟩ := Option.bind_eq_some_iff.mp h
    exact .head (.run trivial hrun) (ih h)

/-- After 7 steps of `write_inode` the task has gone to `sync_dev`. -/
theorem oneDirty_runs : ∃ s s₁ s₂, State.runs 6 ⟨oneDirty, [.writeInode 0], none⟩ = some s ∧
    s.run = some s₁ ∧ s₁.runs 5 = some s₂ ∧
    s.stack = [.cache (.getblkWait 0x300 8 0), .cache (.breadGot 0x300 8), .writeGot 0] ∧
    s.world = oneDirty.lockInode 0 ∧
    s₂.stack = .syncInodes 0 :: .cache (.sync (some 0x300) true 0) :: s.stack :=
  ⟨_, _, _, rfl, rfl, rfl, rfl, rfl, rfl⟩

/-- **`write_inode` waits for the inode it has locked.** -/
theorem not_inode_locks :
    ¬∀ s, Reachable Start (Step fun _ => True) s → ¬s.SelfWaits := by
  intro h
  obtain ⟨s, s₁, s₂, hs, hrun, hs₂, hst, -, hst₂⟩ := oneDirty_runs
  have hr : Reachable Start (Step fun _ => True) s₂ :=
    ⟨_, ⟨0, by decide, Or.inr rfl⟩,
      ((steps_of_runs hs).tail (.run trivial hrun)).trans (steps_of_runs hs₂)⟩
  refine h s₂ hr ⟨_, _, 0, hst₂, rfl, ?_⟩
  rw [hst]
  decide

/-- **It does not come back.** -/
theorem inode_locks_oneDirty : ∃ s, s.world = oneDirty ∧ s.stack = [.writeInode 0] ∧
    ∃ s₁, Relation.ReflTransGen (Step fun _ => True) s s₁ ∧
      ∀ s₂, Relation.ReflTransGen (Step fun _ => True) s₁ s₂ → 0 ∈ held s₂.stack := by
  obtain ⟨s, s₁, -, hs, hrun, -, hst, hw, -⟩ := oneDirty_runs
  have hstart : Start ⟨oneDirty, [.writeInode 0], none⟩ := ⟨0, by decide, Or.inr rfl⟩
  refine ⟨_, rfl, rfl, s₁, (steps_of_runs hs).tail (.run trivial hrun), fun s₂ hs₂ => ?_⟩
  have hclean : ¬s.Clean := fun hclean => by
    have hd := hclean _ _ _ _ hst (by decide) (by rw [hw]; rfl) (by rw [hw]; rfl)
    rw [hw] at hd
    cases hd
  refine (inode_locks s).2 s₁ s₂ ⟨_, hstart, steps_of_runs hs⟩ hclean hrun hs₂ ?_
  rw [hst]
  decide

end Linux011.Inodes

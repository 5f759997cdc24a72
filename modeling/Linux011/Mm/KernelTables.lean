import Linux011.Mm.Directory

/-!
# The page tables of the kernel stay as `head.s` made them

The first sixteen entries of the directory are the kernel's: they name the tables in
the frames `1` to `4`, whose entries are all present and writable. Nothing takes the
write flag from such an entry: the routines that store to the entries of a *task* find
their table through a directory entry from `16` on, and that names a page above
`LOW_MEM`. The two facts are one invariant, `Linux011.Mm.KernelTables`, because each
routine needs the second to keep the first.

The one routine that reads the kernel's tables as if they were a task's is the fork of
task 0, whose slot is the kernel's; it stops after 640 kB, and below `LOW_MEM` it does
not write to the parent's entry (`Linux011.Mm.kernel_copyEntry_zero`).
-/

namespace Linux011.Mm

/-- **The tables of the kernel and those of the tasks**: the former lie below `LOW_MEM`
and map everything writable, the latter lie above. -/
structure KernelTables (m : Mem) : Prop where
  kernel : ∀ k, k < 16 → present (m.word 0 k) = true →
    (frameOf (m.word 0 k) ≠ 0 ∧ frameOf (m.word 0 k) < 256) ∧
      ∀ j, present (m.word (frameOf (m.word 0 k)) j) = true →
        writable (m.word (frameOf (m.word 0 k)) j) = true
  user : ∀ k, 16 ≤ k → present (m.word 0 k) = true → 256 ≤ frameOf (m.word 0 k)

variable {A : Arena} {own : Finset ℕ} {m : Mem} {s s' : Sys} {f j k cur nr address : ℕ} {w : Word}

/-! ### Stores -/

namespace KernelTables

theorem of_word {m' : Mem} (h : KernelTables m) (hw : m'.word = m.word) : KernelTables m' := by
  constructor
  · rw [hw]
    exact h.kernel
  · rw [hw]
    exact h.user

/-- A page above `LOW_MEM` is filled. -/
theorem setFrame (h : KernelTables m) (hf : 256 ≤ f) (ws : ℕ → Word) :
    KernelTables (m.setFrame f ws) := by
  have h0 : (m.setFrame f ws).word 0 = m.word 0 := by
    rw [Mem.word_setFrame, if_neg (by omega)]
  constructor
  · intro k hk hp
    rw [h0] at hp ⊢
    obtain ⟨⟨hne, hlt⟩, hrw⟩ := h.kernel k hk hp
    refine ⟨⟨hne, hlt⟩, ?_⟩
    rwa [Mem.word_setFrame, if_neg (by omega)]
  · intro k hk hp
    rw [h0] at hp ⊢
    exact h.user k hk hp

/-- A store to a page above `LOW_MEM`. -/
theorem setWord (h : KernelTables m) (hf : 256 ≤ f) : KernelTables (m.setWord f j w) :=
  h.setFrame hf _

/-- A zero may be stored anywhere. -/
theorem setZero (h : KernelTables m) (f j : ℕ) : KernelTables (m.setWord f j 0#32) := by
  -- what is still present has not been stored to
  have hpres : ∀ g i, present ((m.setWord f j 0#32).word g i) = true →
      (m.setWord f j 0#32).word g i = m.word g i := by
    intro g i hp
    rw [Mem.word_setWord] at hp ⊢
    split
    · next hg =>
      rw [if_pos hg, Function.update_apply] at hp
      rw [Function.update_apply]
      split
      · next hi => simp [if_pos hi] at hp
      · rw [hg]
    · rfl
  constructor
  · intro k hk hp
    have hk0 := hpres 0 k hp
    rw [hk0] at hp ⊢
    refine ⟨(h.kernel k hk hp).1, fun i hi => ?_⟩
    have hki := hpres _ i hi
    rw [hki] at hi ⊢
    exact (h.kernel k hk hp).2 i hi
  · intro k hk hp
    have hk0 := hpres 0 k hp
    rw [hk0] at hp ⊢
    exact h.user k hk hp

/-- A directory entry of a task is pointed at a page above `LOW_MEM`. -/
theorem setDir (h : KernelTables m) (hk : 16 ≤ k) (hf : 256 ≤ f) (hlt : f < 2 ^ 20) :
    KernelTables (m.setWord 0 k (pageEntry f)) := by
  have hdir : ∀ i, (m.setWord 0 k (pageEntry f)).word 0 i =
      if i = k then pageEntry f else m.word 0 i := fun i => by
    rw [Mem.word_setWord, if_pos rfl, Function.update_apply]
  constructor
  · intro i hi hp
    rw [hdir, if_neg (by omega)] at hp ⊢
    obtain ⟨⟨hne, hlt⟩, hrw⟩ := h.kernel i hi hp
    refine ⟨⟨hne, hlt⟩, ?_⟩
    rwa [Mem.word_setWord_of_ne hne]
  · intro i hi hp
    rw [hdir] at hp ⊢
    split
    · rwa [frameOf_pageEntry hlt]
    · next hne =>
      rw [if_neg hne] at hp
      exact h.user i hi hp

end KernelTables

/-! ### The routines that store zeros, and the ones that hand pages out -/

theorem kernel_freePage (page : ℕ) : Preserves KernelTables (freePage page) := by
  rw [freePage]
  refine .ite (.pure _) (.read fun m hm => ?_)
  rw [wp_ite]
  refine ⟨fun _ => hm, fun _ => ?_⟩
  rw [wp_bind, wp_set, wp_ite]
  exact ⟨fun _ => hm.of_word rfl, fun _ => hm.of_word rfl⟩

/-- A page that is handed out lies above `LOW_MEM`. -/
theorem kernel_getFreePage {E : Halt → Mem → Prop} (h : KernelTables m) :
    wp getFreePage (fun r m' => KernelTables m' ∧ m'.task = m.task ∧
      (∀ f, f < 256 → m'.word f = m.word f) ∧ ∀ p, r = some p → 256 ≤ p ∧ p < 2 ^ 20) E m := by
  rw [getFreePage, wp_bind, wp_get]
  cases hs : scasb m.memMap pagingPages with
  | none => exact ⟨h, rfl, fun _ _ => rfl, fun p hp => by simp at hp⟩
  | some n =>
    have hn := (scasb_eq_some hs).1
    rw [pagingPages] at hn
    have hmap : KernelTables (m.setMap n 1) := h.of_word rfl
    refine ⟨hmap.setFrame (by rw [lowFrame]; omega) _, rfl, fun f hf => ?_, ?_⟩
    · rw [lowFrame, Mem.word_setFrame, if_neg (by omega), Mem.setMap_word]
    · rintro p hp
      obtain rfl := Option.some.inj hp
      rw [lowFrame]
      omega

theorem kernel_freeEntry (table nr : ℕ) : Preserves KernelTables (freeEntry table nr) :=
  .read fun m hm => (Preserves.bind (.ite (kernel_freePage _) (.pure _)) fun _ =>
    .modify fun _ h => h.setZero _ _) m hm

theorem kernel_freeTable (dir : ℕ) : Preserves KernelTables (freeTable dir) := by
  refine .read fun m hm => ?_
  exact Preserves.ite (.bind (.forFrom (kernel_freeEntry _) _ _) fun _ =>
    .read fun m hm => (Preserves.bind (kernel_freePage _) fun _ =>
      .modify fun _ h => h.setZero _ _) m hm) (.pure _) m hm

theorem kernel_freePageTables (start size : ℕ) :
    Preserves KernelTables (freePageTables start size) :=
  .ite (.throw _) (.ite (.throw _) (.forFrom kernel_freeTable _ _))

theorem kernel_setTask (n : ℕ) (t : Mem → Task) :
    Preserves KernelTables (modify fun m => m.setTask n (t m) : M Unit) :=
  fun _ h => h.of_word rfl

theorem kernel_doExit (cur : ℕ) : Preserves KernelTables (doExit cur) :=
  .read fun m hm => (Preserves.bind (kernel_freePageTables _ _) fun _ =>
    .bind (kernel_freePageTables _ _) fun _ => kernel_setTask cur _) m hm

theorem kernel_oom {α : Type} {Q : α → Mem → Prop} (cur : ℕ) (h : KernelTables m) :
    wp (oom cur : M α) Q (fun _ => KernelTables) m :=
  wp_bind.mpr (wp_post (kernel_doExit cur m h) fun _ _ hm => hm)

theorem kernel_execMem (cur text endData exe : ℕ) :
    Preserves KernelTables (execMem cur text endData exe) :=
  .read fun m hm => (Preserves.bind (kernel_freePageTables _ _) fun _ =>
    .bind (kernel_freePageTables _ _) fun _ => kernel_setTask cur _) m hm

theorem kernel_release (nr : ℕ) : Preserves KernelTables (release nr) :=
  .read fun _ hm => wp_bind.mpr (kernel_freePage _ _ (hm.of_word rfl))

/-! ### The routines that store to the entry of an address -/

theorem kernel_putPage (page : ℕ) (ha : 16 ≤ dirIndex address) :
    Preserves KernelTables (putPage page address) := by
  refine .read fun m hm => ?_
  rw [wp_ite]
  refine ⟨fun hp => hm.setWord (hm.user _ ha hp), fun _ => ?_⟩
  rw [wp_bind]
  refine wp_post (kernel_getFreePage hm) fun r m₁ hm₁ => ?_
  cases r with
  | none => exact hm₁.1
  | some tmp =>
    obtain ⟨hge, hlt⟩ := hm₁.2.2.2 tmp rfl
    exact (hm₁.1.setDir ha hge hlt).setWord hge

theorem kernel_getEmptyPage (cur : ℕ) (ha : 16 ≤ dirIndex address) :
    Preserves KernelTables (getEmptyPage cur address) := by
  intro m hm
  rw [getEmptyPage, wp_bind]
  refine wp_post (kernel_getFreePage hm) fun r m₁ hm₁ => ?_
  cases r with
  | none => exact kernel_oom cur hm₁.1
  | some tmp =>
    refine Preserves.bind (kernel_putPage tmp ha) (fun r => ?_) m₁ hm₁.1
    cases r with
    | none => exact .bind (kernel_freePage tmp) fun _ _ hm => kernel_oom cur hm
    | some _ => exact .pure _

/-- A write fault, in a table of a task. -/
theorem kernel_unWpPage (cur j : ℕ) (hf : 256 ≤ f) : Preserves KernelTables (unWpPage cur f j) := by
  intro m hm
  rw [unWpPage, wp_bind, wp_get, wp_ite]
  refine ⟨fun _ => hm.setWord hf, fun _ => ?_⟩
  rw [wp_bind]
  refine wp_post (kernel_getFreePage hm) fun r m₁ hm₁ => ?_
  cases r with
  | none => exact kernel_oom cur hm₁.1
  | some newPage =>
    obtain ⟨hge, -⟩ := hm₁.2.2.2 newPage rfl
    exact Preserves.bind (.ite (.modify fun _ h => h.of_word rfl) (.pure _)) (fun _ =>
      .bind (.modify fun _ h => h.setWord hf) fun _ => .modify fun _ h => h.setFrame hge _) m₁ hm₁.1

/-- `write_verify` finds nothing to do in the tables of the kernel. -/
theorem KernelTables.writeVerify_kernel (h : KernelTables m) (ha : dirIndex address < 16) :
    writeVerify cur address m = .ok () m := by
  change (if _ then _ else _ : M Unit) m = _
  split
  · next hp =>
    rw [if_neg]
    · rfl
    · rintro ⟨hp', hw⟩
      exact hw ((h.kernel _ ha hp).2 _ hp')
  · rfl

theorem kernel_writeVerify (cur address : ℕ) :
    Preserves KernelTables (writeVerify cur address) := by
  intro m hm
  rcases Nat.lt_or_ge (dirIndex address) 16 with ha | ha
  · exact wp_of_ok (hm.writeVerify_kernel ha) hm
  · rw [writeVerify, wp_bind, wp_get, wp_ite]
    refine ⟨fun hp => wp_ite.mpr ⟨fun _ => ?_, fun _ => hm⟩, fun _ => hm⟩
    exact kernel_unWpPage cur _ (hm.user _ ha hp) m hm

/-! ### A fork -/

/-- The pages below `LOW_MEM` that a fork of task 0 reads. -/
structure LowTables (m : Mem) : Prop where
  tables : KernelTables m
  pgDir : m.word 0 0 = pageEntry 1
  pg0 : ∀ j, j < 160 → m.word 1 j = pageEntry j

theorem LowTables.setWord (h : LowTables m) (hf : 256 ≤ f) : LowTables (m.setWord f j w) where
  tables := h.tables.setWord hf
  pgDir := by rw [Mem.word_setWord_of_ne (by omega), h.pgDir]
  pg0 i hi := by rw [Mem.word_setWord_of_ne (by omega), h.pg0 i hi]

theorem LowTables.setDir (h : LowTables m) (hk : 16 ≤ k) (hf : 256 ≤ f) (hlt : f < 2 ^ 20) :
    LowTables (m.setWord 0 k (pageEntry f)) where
  tables := h.tables.setDir hk hf hlt
  pgDir := by rw [Mem.word_setWord, if_pos rfl, Function.update_of_ne (by omega), h.pgDir]
  pg0 i hi := by rw [Mem.word_setWord_of_ne (by omega), h.pg0 i hi]

theorem LowTables.setMap (h : LowTables m) (n c : ℕ) : LowTables (m.setMap n c) :=
  ⟨h.tables.of_word rfl, h.pgDir, h.pg0⟩

/-- What `get_free_page` leaves of them. -/
theorem LowTables.of_getFreePage {m' : Mem} (h : LowTables m) (h' : KernelTables m')
    (hw : ∀ f, f < 256 → m'.word f = m.word f) : LowTables m' where
  tables := h'
  pgDir := by rw [hw 0 (by omega), h.pgDir]
  pg0 j hj := by rw [hw 1 (by omega), h.pg0 j hj]

/-- From one table of a task to another. -/
theorem kernel_copyEntry {fromTable toTable : ℕ} (hf : 256 ≤ fromTable) (ht : 256 ≤ toTable)
    (j : ℕ) : Preserves LowTables (copyEntry fromTable toTable j) := by
  refine .read fun m hm => ?_
  rw [wp_ite]
  refine ⟨fun _ => ?_, fun _ => hm⟩
  rw [wp_bind, wp_modify, wp_ite]
  exact ⟨fun _ => ((hm.setWord ht).setWord hf).setMap _ _, fun _ => hm.setWord ht⟩

/-- From the table of task 0, which maps the first 640 kB one to one: the parent's entry is
not stored to. -/
theorem kernel_copyEntry_zero {toTable : ℕ} (ht : 256 ≤ toTable) (hj : j < 160) :
    Preserves LowTables (copyEntry 1 toTable j) := by
  refine .read fun m hm => ?_
  rw [wp_ite]
  refine ⟨fun _ => ?_, fun _ => hm⟩
  have hlow : ¬0x100000 < (clearRw (m.word 1 j)).toNat := by
    rw [lowMem_lt_iff (by rw [hm.pg0 j hj]; simp), frameOf_clearRw, hm.pg0 j hj,
      frameOf_pageEntry (by omega)]
    omega
  rw [wp_bind, wp_modify, wp_ite]
  exact ⟨fun h => absurd h hlow, fun _ => hm.setWord ht⟩

theorem kernel_copyTable {start fromDir toDir i : ℕ} (ht : 16 ≤ toDir + i)
    (hf : 16 ≤ fromDir + i ∨ start = 0 ∧ fromDir + i = 0) :
    Preserves LowTables (copyTable start fromDir toDir i) := by
  refine .read fun m hm => ?_
  rw [wp_ite]
  refine ⟨fun _ => hm, fun _ => wp_ite.mpr ⟨fun hp => ?_, fun _ => hm⟩⟩
  rw [wp_bind]
  refine wp_post (kernel_getFreePage hm.tables) fun r m₁ hm₁ => ?_
  cases r with
  | none => exact hm.of_getFreePage hm₁.1 hm₁.2.2.1
  | some toTable =>
    obtain ⟨hge, hlt⟩ := hm₁.2.2.2 toTable rfl
    have hl := (hm.of_getFreePage hm₁.1 hm₁.2.2.1).setDir ht hge hlt
    rw [wp_bind, wp_modify, wp_bind]
    refine wp_post (wp_forFrom (fun _ => LowTables) hl fun j m₂ _ hj hm₂ => ?_) fun _ _ h => h
    rcases hf with hf | ⟨rfl, hf⟩
    · exact kernel_copyEntry (hm.tables.user _ hf hp) hge j m₂ hm₂
    · rw [hf, hm.pgDir, frameOf_pageEntry (by omega)]
      exact kernel_copyEntry_zero hge (by rw [if_pos rfl] at hj; omega) m₂ hm₂

theorem kernel_copyPageTables {start to_ size : ℕ} (ht : 16 ≤ dirIndex to_)
    (hf : 16 ≤ dirIndex start ∨ start = 0 ∧ dirCount size ≤ 1) :
    Preserves LowTables (copyPageTables start to_ size) := by
  refine .ite (.throw _) fun m hm => ?_
  rw [wp_bind]
  refine wp_post (wp_forUntil (fun _ => LowTables) (fun _ => LowTables) hm
    fun i m₁ _ hi hm₁ => wp_post (kernel_copyTable (by omega) ?_ m₁ hm₁) ?_) ?_
  · rcases hf with hf | ⟨rfl, hf⟩
    · exact Or.inl (by omega)
    · exact Or.inr ⟨rfl, by rw [dirIndex]; omega⟩
  · rintro (- | r) m₂ hm₂ <;> exact hm₂
  · rintro (- | r) m₂ hm₂ <;> exact hm₂

/-- The part of `fork` that copies the parent's memory. -/
theorem kernel_copyMem (hm : LowTables m) (hp : Parent cur m) (hne : cur ≠ nr) (hone : 1 ≤ nr)
    (hlt : nr < 64) : wp (copyMem cur nr) (fun _ => KernelTables) (fun _ => KernelTables) m := by
  rw [copyMem, wp_bind, wp_get, wp_ite]
  refine ⟨fun _ => hm.tables, fun _ => wp_ite.mpr ⟨fun _ => hm.tables, fun _ => ?_⟩⟩
  rw [wp_bind, wp_modify, wp_bind]
  have hto : 16 ≤ dirIndex (nr * 0x4000000) := by
    rw [dirIndex]
    omega
  have hfrom : 16 ≤ dirIndex (m.task cur).dataBase ∨
      (m.task cur).dataBase = 0 ∧ dirCount (m.task cur).dataLimit ≤ 1 := by
    rw [hp.data]
    rcases Nat.eq_zero_or_pos cur with rfl | hpos
    · exact Or.inr ⟨by omega, hp.zero rfl⟩
    · have := hp.lt
      refine Or.inl ?_
      rw [dirIndex]
      omega
  have hset : LowTables (m.setTask nr { m.task nr with
      startCode := nr * 0x4000000, codeBase := nr * 0x4000000, dataBase := nr * 0x4000000 }) :=
    ⟨hm.tables.of_word rfl, hm.pgDir, hm.pg0⟩
  refine wp_mono (kernel_copyPageTables hto hfrom _ hset) (fun r m₁ hm₁ => ?_) fun _ _ h => h.tables
  rw [wp_ite]
  refine ⟨fun _ => ?_, fun _ => hm₁.tables⟩
  exact (Preserves.bind (kernel_freePageTables _ _) fun _ => .pure _) m₁ hm₁.tables

theorem kernel_copyProcess (h : KernelTables m) (hok : MemOk A own m) (hp : Parent cur m)
    (hne : cur ≠ nr) (hone : 1 ≤ nr) (hlt : nr < 64) :
    wp (copyProcess cur nr) (fun _ => KernelTables) (fun _ => KernelTables) m := by
  rw [copyProcess, wp_bind]
  refine wp_post (kernel_getFreePage h) fun r m₁ hm₁ => ?_
  cases r with
  | none => exact hm₁.1
  | some p =>
    have hl : LowTables m₁ := LowTables.of_getFreePage ⟨h, hok.pgDir, hok.pg0⟩ hm₁.1 hm₁.2.2.1
    rw [wp_bind, wp_modify, wp_bind]
    refine wp_mono (kernel_copyMem ⟨hl.tables.of_word rfl, hl.pgDir, hl.pg0⟩ ?_ hne hone hlt)
      (fun r m₂ hm₂ => ?_) fun _ _ h => h
    · have ht : (m₁.setTask nr { m₁.task cur with inUse := true, zombie := false, page := p }).task
          cur = m.task cur := by
        rw [Mem.setTask_task, if_neg hne, hm₁.2.1]
      exact ⟨hp.lt, ht ▸ hp.code, ht ▸ hp.data, ht ▸ hp.limits, ht ▸ hp.limit_le, ht ▸ hp.zero⟩
    · rw [wp_ite]
      refine ⟨fun _ => ?_, fun _ => hm₂⟩
      exact (Preserves.bind (kernel_setTask nr _) fun _ => .bind (kernel_freePage p) fun _ =>
        .pure _) m₂ hm₂

/-! ### Not-present faults -/

/-- The two tables `try_to_share` stores to are tables of tasks. -/
theorem kernel_tryToShare {p : ℕ} (h : KernelTables m)
    (hp : 16 ≤ dirIndex (m.task p).startCode) (hcur : 16 ≤ dirIndex (m.task cur).startCode) :
    wp (tryToShare cur address p) (fun r m' => KernelTables m' ∧ (r = false → m' = m))
      (fun _ => KernelTables) m := by
  rw [tryToShare, wp_bind, wp_get, wp_ite]
  refine ⟨fun _ => ⟨h, fun _ => rfl⟩, fun hfrom => wp_ite.mpr ⟨fun _ => ⟨h, fun _ => rfl⟩, fun _ =>
    wp_ite.mpr ⟨fun _ => ⟨h, fun _ => rfl⟩, fun _ => ?_⟩⟩⟩
  rw [not_not] at hfrom
  have hF := h.user _ (by omega) hfrom
  obtain ⟨F, hF'⟩ : ∃ F,
      frameOf (m.word 0 (dirIndex address + dirIndex (m.task p).startCode)) = F := ⟨_, rfl⟩
  obtain ⟨k, hk⟩ : ∃ k, dirIndex address + dirIndex (m.task cur).startCode = k := ⟨_, rfl⟩
  have hk16 : 16 ≤ k := by omega
  obtain ⟨j, hj⟩ : ∃ j, tableIndex address = j := ⟨_, rfl⟩
  obtain ⟨f, hf⟩ : ∃ f, frameOf (m.word F j) = f := ⟨_, rfl⟩
  rw [hF'] at hF ⊢
  rw [hk, hj, hf]
  have share : ∀ m₁ : Mem, KernelTables m₁ → present (m₁.word 0 k) = true → wp (do
      let m ← get
      let to_ := frameOf (m.word 0 k)
      if present (m.word to_ j) then throw (.panic "try_to_share: to_page already exists")
      else do
        modify fun m => m.setWord F j (clearRw (m.word F j))
        modify fun m => m.setWord to_ j (m.word F j)
        modify fun m => m.setMap (mapNr f) ((m.memMap (mapNr f) + 1) % 256)
        pure true : M Bool) (fun r m' => KernelTables m' ∧ (r = false → m' = m))
          (fun _ => KernelTables) m₁ := by
    intro m₁ h₁ hp
    rw [wp_bind, wp_get, wp_ite]
    refine ⟨fun _ => h₁, fun _ => ?_⟩
    rw [wp_bind, wp_modify, wp_bind, wp_modify, wp_bind, wp_modify, wp_pure]
    exact ⟨((h₁.setWord hF).setWord (h₁.user k hk16 hp)).of_word rfl, fun hr => by simp at hr⟩
  rw [wp_bind, wp_ite]
  refine ⟨fun hp => share m h hp, fun _ => ?_⟩
  rw [wp_bind]
  refine wp_post (kernel_getFreePage h) fun r m₁ hm₁ => ?_
  cases r with
  | none => exact kernel_oom cur hm₁.1
  | some to_ =>
    obtain ⟨hle, hlt⟩ := hm₁.2.2.2 to_ rfl
    rw [wp_modify]
    exact share _ (hm₁.1.setDir hk16 hle hlt) (by rw [Mem.word_setWord_self, present_pageEntry])

/-- Every task but task 0 begins beyond the kernel's part of the address space. -/
def StartBeyond (m : Mem) : Prop :=
  ∀ p, 1 ≤ p → p < 64 → (m.task p).inUse = true → 16 ≤ dirIndex (m.task p).startCode

theorem InSlots.startBeyond (h : InSlots m) : StartBeyond m := by
  intro p hone hlt huse
  rw [(h p hone hlt huse).start, dirIndex]
  omega

theorem kernel_sharePageFrom (h : KernelTables m) (hs : StartBeyond m)
    (hcur : 16 ≤ dirIndex (m.task cur).startCode) {p : ℕ} (hp : p < 64) :
    wp (sharePageFrom cur address p) (fun r m' => KernelTables m' ∧ (r = false → m' = m))
      (fun _ => KernelTables) m := by
  induction p with
  | zero => exact ⟨h, fun _ => rfl⟩
  | succ p ih =>
    have ih := ih (by omega)
    rw [sharePageFrom, wp_bind, wp_get, wp_ite]
    refine ⟨fun _ => ih, fun huse => wp_ite.mpr ⟨fun _ => ih, fun _ => wp_ite.mpr
      ⟨fun _ => ih, fun _ => ?_⟩⟩⟩
    rw [not_not] at huse
    rw [wp_bind]
    refine wp_post (kernel_tryToShare h (hs _ (by omega) hp huse) hcur) fun r m₁ hm₁ => ?_
    cases r with
    | true => exact ⟨hm₁.1, fun hr => by simp at hr⟩
    | false =>
      obtain rfl := hm₁.2 rfl
      exact ih

theorem kernel_sharePage (iCount : ℕ) (h : KernelTables m) (hs : StartBeyond m)
    (hcur : 16 ≤ dirIndex (m.task cur).startCode) :
    wp (sharePage cur address iCount) (fun r m' => KernelTables m' ∧ (r = false → m' = m))
      (fun _ => KernelTables) m := by
  rw [sharePage, wp_bind, wp_get, wp_ite]
  exact ⟨fun _ => ⟨h, fun _ => rfl⟩, fun _ => wp_ite.mpr ⟨fun _ => ⟨h, fun _ => rfl⟩, fun _ =>
    kernel_sharePageFrom h hs hcur (by rw [nrTasks]; omega)⟩⟩

theorem kernel_doNoPage (iCount : ℕ) (h : KernelTables m) (hs : StartBeyond m)
    (hcur : 16 ≤ dirIndex (m.task cur).startCode) (ha : 16 ≤ dirIndex address) :
    wp (doNoPage cur address iCount) (fun _ => KernelTables) (fun _ => KernelTables) m := by
  rw [doNoPage, wp_bind, wp_get, wp_ite]
  refine ⟨fun _ => ?_, fun _ => ?_⟩
  · rw [← dirIndex_page] at ha
    exact (Preserves.bind (kernel_getEmptyPage _ ha) fun _ => .pure _) m h
  · rw [wp_bind]
    refine wp_post (kernel_sharePage iCount h hs hcur) fun r m₁ hm₁ => ?_
    rw [wp_ite]
    refine ⟨fun _ => hm₁.1, fun _ => ?_⟩
    rw [wp_bind]
    refine wp_post (kernel_getFreePage hm₁.1) fun r m₂ hm₂ => ?_
    cases r with
    | none => exact kernel_oom cur hm₂.1
    | some page => exact hm₂.1

theorem kernel_loadPage {page : ℕ} (content : ℕ → Word) (hpage : 256 ≤ page)
    (ha : 16 ≤ dirIndex address) : Preserves KernelTables (loadPage cur address page content) := by
  refine .read fun m hm => ?_
  rw [← dirIndex_page] at ha
  rw [wp_bind, wp_set, wp_bind]
  refine wp_post (kernel_putPage page ha _ (hm.setFrame hpage _)) fun r m₁ hm₁ => ?_
  cases r with
  | some _ => exact hm₁
  | none => exact (Preserves.bind (kernel_freePage page) fun _ _ hm => kernel_oom cur hm) m₁ hm₁

/-- A store of the user goes to a page above `LOW_MEM`, through a table that does. -/
theorem kernel_userStore {v : Word} (h : KernelTables m) (hok : MemOk A own m)
    (hn : named (m.userEntry (dirIndex address) (tableIndex address)) = some f)
    (hw : writable (m.userEntry (dirIndex address) (tableIndex address)) = true) :
    wp (userStore address v) (fun _ => KernelTables) (fun _ => KernelTables) m := by
  obtain ⟨⟨T, hT⟩, hj⟩ := hok.maps.entry_user hn
  have hge := (hok.maps.rw_only hn hw).1
  have hent : m.userEntry (dirIndex address) (tableIndex address) = m.word T (tableIndex address) :=
    Mem.userEntry_of_dir hT hj
  rw [hent] at hn
  have hf := (named_eq_some.mp hn).2
  rw [userStore, wp_bind, wp_get, (Mem.userDir_eq_some.mp hT).2.2, wp_set, hf]
  exact (h.setWord (hok.table_le hT)).setWord hge

/-! ### Runs -/

/-- Every step keeps the kernel's tables. -/
theorem KernelTables.perform (h : KernelTables s.mem) (hi : Inv A s) : ∀ a, Enabled s a →
    wp (perform a) (fun _ s' => KernelTables s'.mem) (fun _ s' => KernelTables s'.mem) s := by
  intro a he
  have hdir : ∀ {address}, dirIndex address ∈ userDirs → 16 ≤ dirIndex address :=
    fun h => (mem_userDirs.mp h).1
  cases a with
  | fork cur nr =>
    obtain ⟨hr, hone, hlt, hunused⟩ := he
    rw [Mm.perform, wp_bind, wp_inMem]
    refine wp_post (kernel_copyProcess h hi.ok (hi.parent hr) (hr.ne hunused) hone hlt)
      fun r m' hm => ?_
    rw [wp_ite]
    exact ⟨fun _ => hm, fun _ => hm⟩
  | exec cur text endData exe =>
    rw [Mm.perform, wp_inMem]
    exact kernel_execMem cur text endData exe _ h
  | exit cur =>
    rw [Mm.perform, wp_inMem]
    exact kernel_doExit cur _ h
  | release nr =>
    rw [Mm.perform, wp_bind, wp_modify, wp_inMem]
    exact kernel_release nr _ h
  | noPage cur address iCount =>
    obtain ⟨hone, hr, ha, -⟩ := he
    have hs := hi.inSlots.startBeyond
    rw [Mm.perform, wp_bind, wp_inMem]
    refine wp_post (kernel_doNoPage iCount h hs (hs cur hone hr.1 hr.2.1)
      (hdir ((hi.resides hone hr).mem_userDirs ha))) fun r m' hm => ?_
    cases r with
    | none => exact hm
    | some page => exact hm
  | loaded cur content =>
    rw [Mm.perform, wp_bind, wp_get]
    cases hl : s.loading cur with
    | none => exact h
    | some l =>
      obtain ⟨address, page⟩ := l
      have hslot := hi.slot cur he.1 he.2.1
      obtain ⟨⟨huse, hz⟩, ha, ho, -⟩ := hslot.loading address page hl
      have hr : Resides cur s.mem := ⟨he.1, he.2.1, hslot.inSlot huse, hslot.beyond huse hz⟩
      have hpage := (hi.ok.maps.own_main (hi.mem_held ho)).le
      rw [wp_bind, wp_modify, wp_inMem]
      exact kernel_loadPage content hpage (hdir (hr.mem_userDirs ha)) _ h
  | wpFault cur address =>
    obtain ⟨f, hf⟩ := Option.ne_none_iff_exists'.mp he.2.2.2.1
    obtain ⟨⟨T, hT⟩, -⟩ := hi.ok.maps.entry_user hf
    rw [Mm.perform, wp_inMem, doWpPage, wp_bind, wp_get, (Mem.userDir_eq_some.mp hT).2.2]
    exact kernel_unWpPage cur _ (hi.ok.table_le hT) _ h
  | writeVerify cur address =>
    rw [Mm.perform, wp_inMem]
    exact kernel_writeVerify cur address _ h
  | store cur address v =>
    obtain ⟨-, -, -, hn, hw⟩ := he
    obtain ⟨f, hf⟩ := Option.ne_none_iff_exists'.mp hn
    rw [Mm.perform, wp_inMem]
    exact kernel_userStore h hi.ok hf hw
  | getPage =>
    rw [Mm.perform, wp_bind, wp_inMem]
    refine wp_post (kernel_getFreePage h) fun r m' hm => ?_
    cases r with
    | none => exact hm.1
    | some page => exact hm.1
  | freePage page =>
    rw [Mm.perform, wp_bind, wp_modify, wp_inMem]
    exact kernel_freePage page _ h
  | putPage cur page address =>
    obtain ⟨hone, hr, ha, -⟩ := he
    rw [Mm.perform, wp_bind, wp_inMem]
    refine wp_post (kernel_putPage page (hdir ((hi.resides hone hr).mem_userDirs ha)) _ h)
      fun r m' hm => ?_
    cases r with
    | none => exact hm
    | some page => exact hm

/-- **In every state a run reaches** the kernel's tables are as they were at boot. -/
theorem kernelTables_reachable (h : Reachable (Boot A) Step s) : KernelTables s.mem := by
  have hboth : Inv A s ∧ KernelTables s.mem := by
    refine h.inv (I := fun s => Inv A s ∧ KernelTables s.mem) (fun s h0 => ⟨Inv.boot h0, ?_⟩) ?_
    · obtain ⟨rest, rfl⟩ := h0
      have hword : ∀ f j, (memInit (A.lo * 4096) (A.hi * 4096) rest).word f j =
          setupPaging rest f j := fun _ _ => rfl
      constructor
      · intro k _ hp
        rw [hword, setupPaging, if_pos rfl] at hp ⊢
        by_cases hk : k < 4
        · rw [if_pos hk, frameOf_pageEntry (by omega)]
          refine ⟨by omega, fun j _ => ?_⟩
          rw [hword, setupPaging, if_neg (by omega), if_pos (by omega), writable_pageEntry]
        · simp [if_neg hk] at hp
      · intro k hk hp
        rw [hword, setupPaging, if_pos rfl, if_neg (by omega)] at hp
        simp at hp
    · rintro s s' ⟨hi, ht⟩ hs
      refine ⟨hi.step hs, ?_⟩
      obtain ⟨a, he, hp | hp⟩ := hs
      · exact wp_ok (Q := fun _ s' => KernelTables s'.mem) (ht.perform hi a he) hp
      · exact wp_error (ht.perform hi a he) hp
  exact hboth.2

end Linux011.Mm

import Linux011.Mm.Run

/-!
# A directory entry that is not present is zero

The routines of `mm/memory.c` test the present bit of a directory entry and never
its other bits; that an absent entry is all zeros is a fact about the stores they
make. Almost every one of them stores a present word or a zero, whatever frame it
goes to, so the routines keep the fact without any knowledge of where the tables
are. The three that need some – a write fault, a shared page, a store of the user –
have it from `Linux011.Mm.Inv`.
-/

namespace Linux011.Mm

/-- **No entry of the directory is absent but not zero.** -/
def Tidy (m : Mem) : Prop := ∀ k, present (m.word 0 k) = true ∨ m.word 0 k = 0#32

variable {A : Arena} {m : Mem} {s s' : Sys} {f j : ℕ} {w : Word}

/-! ### Stores -/

/-- A store of a present word or of a zero, anywhere. -/
theorem Tidy.setWord (h : Tidy m) (hw : f = 0 → present w = true ∨ w = 0#32) :
    Tidy (m.setWord f j w) := by
  intro k
  rw [Mem.word_setWord]
  split
  · next h0 =>
    rw [Function.update_apply]
    split
    · exact hw h0.symm
    · exact h0 ▸ h k
  · exact h k

theorem Tidy.setFrame (h : Tidy m) (hf : f ≠ 0) (ws : ℕ → Word) : Tidy (m.setFrame f ws) := by
  intro k
  rw [Mem.word_setFrame, if_neg hf.symm]
  exact h k

theorem Tidy.of_word {m' : Mem} (h : Tidy m) (hw : m'.word = m.word) : Tidy m' := by
  intro k
  rw [hw]
  exact h k

/-! ### The routines -/

theorem tidy_freePage (page : ℕ) : Preserves Tidy (freePage page) := by
  unfold freePage
  refine .ite (.pure _) (.read fun m hm => ?_)
  rw [wp_ite]
  refine ⟨fun _ => hm, fun _ => ?_⟩
  rw [wp_bind, wp_set, wp_ite]
  exact ⟨fun _ => hm.of_word rfl, fun _ => hm.of_word rfl⟩

/-- A page that is handed out is not the directory. -/
theorem tidy_getFreePage' (h : Tidy m) : wp getFreePage (fun r m' => Tidy m' ∧
    ∀ p, r = some p → 256 ≤ p ∧ p < 2 ^ 20) (fun _ => Tidy) m := by
  unfold getFreePage
  rw [wp_bind, wp_get]
  cases hs : scasb m.memMap pagingPages with
  | none => exact ⟨h, fun p hp => by simp at hp⟩
  | some n =>
    have hn := (scasb_eq_some hs).1
    rw [pagingPages] at hn
    have hmap : Tidy (m.setMap n 1) := h.of_word rfl
    refine ⟨hmap.setFrame (by rw [lowFrame]; omega) _, ?_⟩
    rintro p hp
    obtain rfl := Option.some.inj hp
    rw [lowFrame]
    omega

theorem tidy_getFreePage : Preserves Tidy getFreePage := fun _ hm =>
  wp_post (tidy_getFreePage' hm) fun _ _ hm' => hm'.1

theorem tidy_freeEntry (table nr : ℕ) : Preserves Tidy (freeEntry table nr) :=
  .read fun m hm => (Preserves.bind (.ite (tidy_freePage _) (.pure _)) fun _ =>
    .modify fun _ h => h.setWord fun _ => Or.inr rfl) m hm

theorem tidy_freeTable (dir : ℕ) : Preserves Tidy (freeTable dir) := by
  refine .read fun m hm => ?_
  exact Preserves.ite (.bind (.forFrom (tidy_freeEntry _) _ _) fun _ =>
    .read fun m hm => (Preserves.bind (tidy_freePage _) fun _ =>
      .modify fun _ h => h.setWord fun _ => Or.inr rfl) m hm) (.pure _) m hm

theorem tidy_freePageTables (start size : ℕ) : Preserves Tidy (freePageTables start size) :=
  .ite (.throw _) (.ite (.throw _) (.forFrom tidy_freeTable _ _))

theorem tidy_copyEntry (fromTable toTable j : ℕ) :
    Preserves Tidy (copyEntry fromTable toTable j) := by
  refine .read fun m hm => ?_
  rw [wp_ite]
  refine ⟨fun hp => ?_, fun _ => hm⟩
  have hrw : present (clearRw (m.word fromTable j)) = true := by rw [present_clearRw, hp]
  rw [wp_bind, wp_modify, wp_ite]
  have hto := hm.setWord (f := toTable) (j := j) fun _ => Or.inl hrw
  exact ⟨fun _ => (hto.setWord fun _ => Or.inl hrw).of_word rfl, fun _ => hto⟩

theorem tidy_copyTable (start fromDir toDir i : ℕ) :
    Preserves Tidy (copyTable start fromDir toDir i) := by
  refine .read fun m hm => ?_
  refine Preserves.ite (.throw _) (.ite (.bind tidy_getFreePage fun r => ?_) (.pure _)) m hm
  cases r with
  | none => exact .pure _
  | some toTable =>
    exact .bind (.modify fun _ h => h.setWord fun _ => Or.inl (present_pageEntry _)) fun _ =>
      .bind (.forFrom (tidy_copyEntry _ _) _ _) fun _ => .pure _

theorem tidy_copyPageTables (start to_ size : ℕ) :
    Preserves Tidy (copyPageTables start to_ size) := by
  refine .ite (.throw _) (.bind (.forUntil (tidy_copyTable _ _ _) _ _) fun r => ?_)
  cases r with
  | none => exact .pure _
  | some r => exact .pure _

theorem tidy_setTask (n : ℕ) (t : Mem → Task) :
    Preserves Tidy (modify fun m => m.setTask n (t m) : M Unit) := fun _ h => h.of_word rfl

theorem tidy_copyMem (cur nr : ℕ) : Preserves Tidy (copyMem cur nr) := by
  refine .read fun _ hm => ?_
  refine Preserves.ite (.throw _) (.ite (.throw _) (.bind (tidy_setTask nr _) fun _ =>
    .bind (tidy_copyPageTables _ _ _) fun r => ?_)) _ hm
  exact .ite (.bind (tidy_freePageTables _ _) fun _ => .pure _) (.pure _)

theorem tidy_copyProcess (cur nr : ℕ) : Preserves Tidy (copyProcess cur nr) := by
  refine .bind tidy_getFreePage fun r => ?_
  cases r with
  | none => exact .pure _
  | some p =>
    refine .bind (tidy_setTask nr _) fun _ => .bind (tidy_copyMem cur nr) fun r => ?_
    exact .ite (.bind (tidy_setTask nr _) fun _ => .bind (tidy_freePage p) fun _ => .pure _)
      (.pure _)

theorem tidy_doExit (cur : ℕ) : Preserves Tidy (doExit cur) :=
  .read fun m hm => (Preserves.bind (tidy_freePageTables _ _) fun _ =>
    .bind (tidy_freePageTables _ _) fun _ => tidy_setTask cur _) m hm

/-- `oom` does not return. -/
theorem tidy_oom {α : Type} {Q : α → Mem → Prop} (cur : ℕ) (h : Tidy m) :
    wp (oom cur : M α) Q (fun _ => Tidy) m :=
  wp_bind.mpr (wp_post (tidy_doExit cur m h) fun _ _ hm => hm)

theorem tidy_execMem (cur text endData exe : ℕ) : Preserves Tidy (execMem cur text endData exe) :=
  .read fun m hm => (Preserves.bind (tidy_freePageTables _ _) fun _ =>
    .bind (tidy_freePageTables _ _) fun _ => tidy_setTask cur _) m hm

theorem tidy_release (nr : ℕ) : Preserves Tidy (release nr) :=
  .read fun _ hm => wp_bind.mpr (tidy_freePage _ _ (hm.of_word rfl))

theorem tidy_putPage (page address : ℕ) : Preserves Tidy (putPage page address) := by
  refine .read fun m hm => ?_
  rw [wp_ite]
  refine ⟨fun _ => hm.setWord fun _ => Or.inl (present_pageEntry _), fun _ => ?_⟩
  refine (Preserves.bind tidy_getFreePage fun r => ?_) m hm
  cases r with
  | none => exact .pure _
  | some tmp =>
    exact .bind (.modify fun _ h => h.setWord fun _ => Or.inl (present_pageEntry _)) fun _ =>
      .bind (.modify fun _ h => h.setWord fun _ => Or.inl (present_pageEntry _)) fun _ => .pure _

theorem tidy_getEmptyPage (cur address : ℕ) : Preserves Tidy (getEmptyPage cur address) := by
  refine .bind tidy_getFreePage fun r => ?_
  cases r with
  | none => exact fun _ hm => tidy_oom cur hm
  | some tmp =>
    refine .bind (tidy_putPage tmp address) fun r => ?_
    cases r with
    | none => exact .bind (tidy_freePage tmp) fun _ _ hm => tidy_oom cur hm
    | some _ => exact .pure _

/-! ### The routines that have to know where they store -/

/-- A write fault finds the entry present. -/
theorem tidy_unWpPage {cur table : ℕ} (h : Tidy m) (hp : present (m.word table j) = true) :
    wp (unWpPage cur table j) (fun _ => Tidy) (fun _ => Tidy) m := by
  unfold unWpPage
  rw [wp_bind, wp_get, wp_ite]
  refine ⟨fun _ => h.setWord fun _ => Or.inl (by rw [present_setRw, hp]), fun _ => ?_⟩
  rw [wp_bind]
  refine wp_post (tidy_getFreePage' h) fun r m₁ hm₁ => ?_
  cases r with
  | none => exact tidy_oom cur hm₁.1
  | some newPage =>
    have hne : newPage ≠ 0 := by
      have := hm₁.2 newPage rfl
      omega
    exact Preserves.bind (.ite (.modify fun _ h => h.of_word rfl) (.pure _)) (fun _ =>
      .bind (.modify fun _ h => h.setWord fun _ => Or.inl (present_pageEntry _)) fun _ =>
        .modify fun _ h => h.setFrame hne _) m₁ hm₁.1

theorem tidy_writeVerify (cur address : ℕ) : Preserves Tidy (writeVerify cur address) := by
  refine .read fun m hm => ?_
  rw [wp_ite]
  refine ⟨fun _ => wp_ite.mpr ⟨fun hw => ?_, fun _ => hm⟩, fun _ => hm⟩
  exact tidy_unWpPage hm hw.1

/-- The table a page is shared into is not the directory. -/
theorem tidy_tryToShare {cur address p : ℕ} (h : Tidy m)
    (hto : present (m.word 0 (dirIndex address + dirIndex (m.task cur).startCode)) = true →
      frameOf (m.word 0 (dirIndex address + dirIndex (m.task cur).startCode)) ≠ 0) :
    wp (tryToShare cur address p) (fun r m' => Tidy m' ∧ (r = false → m' = m))
      (fun _ => Tidy) m := by
  unfold tryToShare
  rw [wp_bind, wp_get, wp_ite]
  refine ⟨fun _ => ⟨h, fun _ => rfl⟩, fun _ => wp_ite.mpr ⟨fun _ => ⟨h, fun _ => rfl⟩, fun _ =>
    wp_ite.mpr ⟨fun _ => ⟨h, fun _ => rfl⟩, fun _ => ?_⟩⟩⟩
  obtain ⟨F, hF⟩ : ∃ F, frameOf (m.word 0 (dirIndex address + dirIndex (m.task p).startCode)) = F :=
    ⟨_, rfl⟩
  obtain ⟨k, hk⟩ : ∃ k, dirIndex address + dirIndex (m.task cur).startCode = k := ⟨_, rfl⟩
  obtain ⟨j, hj⟩ : ∃ j, tableIndex address = j := ⟨_, rfl⟩
  obtain ⟨f, hf⟩ : ∃ f, frameOf (m.word F j) = f := ⟨_, rfl⟩
  rw [hk] at hto
  rw [hF, hk, hj, hf]
  -- the two stores: a flag is cleared, and the current task's table is written
  have share : ∀ m₁ : Mem, Tidy m₁ → frameOf (m₁.word 0 k) ≠ 0 → wp (do
      let m ← get
      let to_ := frameOf (m.word 0 k)
      if present (m.word to_ j) then throw (.panic "try_to_share: to_page already exists")
      else do
        modify fun m => m.setWord F j (clearRw (m.word F j))
        modify fun m => m.setWord to_ j (m.word F j)
        modify fun m => m.setMap (mapNr f) ((m.memMap (mapNr f) + 1) % 256)
        pure true : M Bool) (fun r m' => Tidy m' ∧ (r = false → m' = m)) (fun _ => Tidy) m₁ := by
    intro m₁ h₁ hne
    rw [wp_bind, wp_get, wp_ite]
    refine ⟨fun _ => h₁, fun _ => ?_⟩
    rw [wp_bind, wp_modify, wp_bind, wp_modify, wp_bind, wp_modify, wp_pure]
    refine ⟨?_, fun hr => by simp at hr⟩
    have hclear : Tidy (m₁.setWord F j (clearRw (m₁.word F j))) := h₁.setWord fun h0 => by
      subst h0
      rcases h₁ j with hp | hz
      · exact Or.inl (by rw [present_clearRw, hp])
      · exact Or.inr (by rw [hz]; decide)
    exact (hclear.setWord fun h0 => absurd h0 hne).of_word rfl
  rw [wp_bind, wp_ite]
  refine ⟨fun hp => share m h (hto hp), fun _ => ?_⟩
  rw [wp_bind]
  refine wp_post (tidy_getFreePage' h) fun r m₁ hm₁ => ?_
  cases r with
  | none => exact tidy_oom cur hm₁.1
  | some to_ =>
    obtain ⟨hle, hlt⟩ := hm₁.2 to_ rfl
    rw [wp_modify]
    refine share _ (hm₁.1.setWord fun _ => Or.inl (present_pageEntry _)) ?_
    rw [Mem.word_setWord_self, frameOf_pageEntry hlt]
    omega

section CurrentTask

variable {cur address : ℕ}

/-- **The table of a user directory entry is not the directory.** -/
def UserTable (cur tmp : ℕ) (m : Mem) : Prop :=
  present (m.word 0 (dirIndex tmp + dirIndex (m.task cur).startCode)) = true →
    frameOf (m.word 0 (dirIndex tmp + dirIndex (m.task cur).startCode)) ≠ 0

theorem tidy_sharePageFrom (h : Tidy m) (hto : UserTable cur address m) (p : ℕ) :
    wp (sharePageFrom cur address p) (fun r m' => Tidy m' ∧ (r = false → m' = m))
      (fun _ => Tidy) m := by
  induction p with
  | zero => exact ⟨h, fun _ => rfl⟩
  | succ p ih =>
    rw [sharePageFrom, wp_bind, wp_get, wp_ite]
    refine ⟨fun _ => ih, fun _ => wp_ite.mpr ⟨fun _ => ih, fun _ => wp_ite.mpr
      ⟨fun _ => ih, fun _ => ?_⟩⟩⟩
    rw [wp_bind]
    refine wp_post (tidy_tryToShare h hto) fun r m₁ hm₁ => ?_
    cases r with
    | true => exact ⟨hm₁.1, fun hr => by simp at hr⟩
    | false =>
      obtain rfl := hm₁.2 rfl
      exact ih

theorem tidy_sharePage (iCount : ℕ) (h : Tidy m) (hto : UserTable cur address m) :
    wp (sharePage cur address iCount) (fun r m' => Tidy m' ∧ (r = false → m' = m))
      (fun _ => Tidy) m := by
  unfold sharePage
  rw [wp_bind, wp_get, wp_ite]
  exact ⟨fun _ => ⟨h, fun _ => rfl⟩, fun _ => wp_ite.mpr ⟨fun _ => ⟨h, fun _ => rfl⟩, fun _ =>
    tidy_sharePageFrom h hto _⟩⟩

theorem Resides.userTable {own : Finset ℕ} (hr : Resides cur m) (h : MemOk A own m)
    (ha : Mine cur address m) :
    UserTable cur ((address / 4096 * 4096 + 2 ^ 32 - (m.task cur).startCode) % 2 ^ 32) m := by
  have hoff := hr.offset ha.page_start
  intro hp h0
  rw [hr.slot.shareDir (hr.offset_lt (hoff.symm ▸ ha.page_start)) hr.lt, hoff] at hp h0
  exact h.dir_ne_zero (Mem.userDir_eq_some.mpr ⟨hr.mem_userDirs ha.page_start, hp, h0⟩)

theorem tidy_doNoPage {own : Finset ℕ} (iCount : ℕ) (h : Tidy m) (hok : MemOk A own m)
    (hr : Resides cur m) (ha : Mine cur address m) :
    wp (doNoPage cur address iCount) (fun _ => Tidy) (fun _ => Tidy) m := by
  unfold doNoPage
  rw [wp_bind, wp_get, wp_ite]
  refine ⟨fun _ => (Preserves.bind (tidy_getEmptyPage _ _) fun _ => .pure _) m h, fun _ => ?_⟩
  rw [wp_bind]
  refine wp_post (tidy_sharePage iCount h (hr.userTable hok ha)) fun r m₁ hm₁ => ?_
  rw [wp_ite]
  refine ⟨fun _ => hm₁.1, fun _ => ?_⟩
  rw [wp_bind]
  refine wp_post (tidy_getFreePage' hm₁.1) fun r m₂ hm₂ => ?_
  cases r with
  | none => exact tidy_oom cur hm₂.1
  | some page => exact hm₂.1

theorem tidy_loadPage {page : ℕ} (content : ℕ → Word) (hpage : page ≠ 0) :
    Preserves Tidy (loadPage cur address page content) := by
  refine .read fun m hm => ?_
  rw [wp_bind, wp_set, wp_bind]
  refine wp_post (tidy_putPage page _ _ (hm.setFrame hpage _)) fun r m₁ hm₁ => ?_
  cases r with
  | some _ => exact hm₁
  | none => exact (Preserves.bind (tidy_freePage page) fun _ _ hm => tidy_oom cur hm) m₁ hm₁

/-- A store of the user goes to a page above `LOW_MEM`. -/
theorem tidy_userStore {own : Finset ℕ} {v : Word} (h : Tidy m) (hok : MemOk A own m)
    (hn : named (m.userEntry (dirIndex address) (tableIndex address)) = some f)
    (hw : writable (m.userEntry (dirIndex address) (tableIndex address)) = true) :
    wp (userStore address v) (fun _ => Tidy) (fun _ => Tidy) m := by
  obtain ⟨⟨T, hT⟩, hj⟩ := hok.maps.entry_user hn
  have hge := (hok.maps.rw_only hn hw).1
  have hent : m.userEntry (dirIndex address) (tableIndex address) = m.word T (tableIndex address) :=
    Mem.userEntry_of_dir hT hj
  rw [hent] at hn
  obtain ⟨hp, hf⟩ := named_eq_some.mp hn
  unfold userStore
  rw [wp_bind, wp_get, (Mem.userDir_eq_some.mp hT).2.2, wp_set, hf]
  exact (h.setWord fun _ => Or.inl (by rw [present_setDirty, hp])).setWord fun h0 => by omega

end CurrentTask

/-! ### Runs -/

/-- Every step keeps the directory tidy. -/
theorem Tidy.perform (h : Tidy s.mem) (hi : Inv A s) : ∀ a, Enabled s a →
    wp (perform a) (fun _ s' => Tidy s'.mem) (fun _ s' => Tidy s'.mem) s := by
  intro a he
  cases a with
  | fork cur nr =>
    rw [Mm.perform, wp_bind, wp_inMem]
    refine wp_post (tidy_copyProcess cur nr _ h) fun r m' hm => ?_
    rw [wp_ite]
    exact ⟨fun _ => hm, fun _ => hm⟩
  | exec cur text endData exe =>
    rw [Mm.perform, wp_inMem]
    exact tidy_execMem cur text endData exe _ h
  | exit cur =>
    rw [Mm.perform, wp_inMem]
    exact tidy_doExit cur _ h
  | release nr =>
    rw [Mm.perform, wp_bind, wp_modify, wp_inMem]
    exact tidy_release nr _ h
  | noPage cur address iCount =>
    obtain ⟨hone, hr, ha, -⟩ := he
    rw [Mm.perform, wp_bind, wp_inMem]
    refine wp_post (tidy_doNoPage iCount h hi.ok (hi.resides hone hr) ha) fun r m' hm => ?_
    cases r with
    | none => exact hm
    | some page => exact hm
  | loaded cur content =>
    rw [Mm.perform, wp_bind, wp_get]
    cases hl : s.loading cur with
    | none => exact h
    | some l =>
      obtain ⟨address, page⟩ := l
      have ho := ((hi.slot cur he.1 he.2.1).loading address page hl).2.2.1
      have hpage := (hi.ok.maps.own_main (hi.mem_held ho)).le
      rw [wp_bind, wp_modify, wp_inMem]
      exact tidy_loadPage content (by omega) _ h
  | wpFault cur address =>
    obtain ⟨f, hf⟩ := Option.ne_none_iff_exists'.mp he.2.2.2.1
    obtain ⟨⟨T, hT⟩, hj⟩ := hi.ok.maps.entry_user hf
    have hp : present (s.mem.word T (tableIndex address)) = true := by
      have hent : s.mem.userEntry (dirIndex address) (tableIndex address) = _ :=
        Mem.userEntry_of_dir hT hj
      rw [← hent]
      exact (named_eq_some.mp hf).1
    rw [Mm.perform, wp_inMem, doWpPage, wp_bind, wp_get, (Mem.userDir_eq_some.mp hT).2.2]
    exact tidy_unWpPage h hp
  | writeVerify cur address =>
    rw [Mm.perform, wp_inMem]
    exact tidy_writeVerify cur address _ h
  | store cur address v =>
    obtain ⟨-, -, -, hn, hw⟩ := he
    obtain ⟨f, hf⟩ := Option.ne_none_iff_exists'.mp hn
    rw [Mm.perform, wp_inMem]
    exact tidy_userStore h hi.ok hf hw
  | getPage =>
    rw [Mm.perform, wp_bind, wp_inMem]
    refine wp_post (tidy_getFreePage _ h) fun r m' hm => ?_
    cases r with
    | none => exact hm
    | some page => exact hm
  | freePage page =>
    rw [Mm.perform, wp_bind, wp_modify, wp_inMem]
    exact tidy_freePage page _ h
  | putPage cur page address =>
    rw [Mm.perform, wp_bind, wp_inMem]
    refine wp_post (tidy_putPage page address _ h) fun r m' hm => ?_
    cases r with
    | none => exact hm
    | some page => exact hm

end Linux011.Mm

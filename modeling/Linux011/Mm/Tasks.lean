import Linux011.Mm.Faults

/-!
# What making, replacing and releasing a task do to the mappings

The memory half of `fork`, `execve` and of the reaping of a zombie. A fork that
fails half way has to leave the child's slot as empty as it found it: the loop of
`copy_page_tables` keeps every counter right between two rounds, so
`free_page_tables` takes back whatever part of the copy there is.
-/

namespace Linux011.Mm

variable {A : Arena} {own : Finset ℕ} {m m' : Mem} {k j f cur nr page : ℕ}

/-! ### `copy_process` -/

/-- A task that may fork: its two segments are one, and lie in its slot; task 0
has the 640 kB of `INIT_TASK`. -/
structure Parent (n : ℕ) (m : Mem) : Prop where
  lt : n < 64
  code : (m.task n).codeBase = n * 0x4000000
  data : (m.task n).dataBase = n * 0x4000000
  limits : (m.task n).codeLimit ≤ (m.task n).dataLimit
  limit_le : (m.task n).dataLimit ≤ 0x4000000
  zero : n = 0 → dirCount (m.task n).dataLimit ≤ 1

theorem Resides.parent (h : Resides cur m) : Parent cur m where
  lt := h.lt
  code := h.slot.code
  data := h.slot.data
  limits := h.slot.limits
  limit_le := h.slot.limit_le
  zero hz := by
    have := h.one_le
    omega

/-- The task structure of a child. -/
def childTask (t : Task) (nr page : ℕ) : Task :=
  { t with
    inUse := true
    zombie := false
    page := page
    startCode := nr * 0x4000000
    codeBase := nr * 0x4000000
    dataBase := nr * 0x4000000 }

/-- **The fork succeeded**: slot `nr` maps what the parent's slot maps. -/
structure Forked (A : Arena) (own : Finset ℕ) (cur nr page : ℕ) (m m' : Mem) : Prop where
  ok : MemOk A own m'
  keeps : Keeps (OneSlot nr) m m'
  flags : Flags A (OneSlot nr) m m'
  task : m'.task = Function.update m.task nr (childTask (m.task cur) nr page)
  dirs : ∀ k, k / 16 ≠ nr → m'.userDir k = m.userDir k
  beyond : ∀ d, dirCount (m.task cur).dataLimit ≤ d → d < 16 → m'.userDir (16 * nr + d) = none
  seen : 1 ≤ cur → ∀ d j, d < dirCount (m.task cur).dataLimit →
    seen (m'.userEntry (16 * nr + d) j) = seen (m.userEntry (16 * cur + d) j)
  /-- A child of task 0 maps the first 640 kB. -/
  first : cur = 0 → dirCount (m.task cur).dataLimit = 1 → ∀ j,
    named (m'.userEntry (16 * nr) j) = if j < 160 then some j else none

theorem Forked.copied (h : Forked A own cur nr page m m') (hcur : 1 ≤ cur) (d j : ℕ)
    (hd : d < dirCount (m.task cur).dataLimit) :
    named (m'.userEntry (16 * nr + d) j) = named (m.userEntry (16 * cur + d) j) :=
  named_of_seen (h.seen hcur d j hd)

/-- **The fork failed**: slot `nr` is as empty as before. -/
structure NotForked (A : Arena) (own : Finset ℕ) (cur nr : ℕ) (m m' : Mem) : Prop where
  ok : MemOk A own m'
  keeps : Keeps (OneSlot nr) m m'
  flags : Flags A (OneSlot nr) m m'
  task : ∀ n, n ≠ nr → m'.task n = m.task n
  unused : (m'.task nr).inUse = false
  dirs : ∀ k, k / 16 ≠ nr → m'.userDir k = m.userDir k
  empty : ∀ d, d < 16 → m'.userDir (16 * nr + d) = none
  /-- Where only the first table has to be copied, two free pages would have been enough. -/
  short : (∀ d, 1 ≤ d → d < dirCount (m.task cur).dataLimit → m.userDir (16 * cur + d) = none) →
    ∃ p, ∀ f, A.Main f → f ≠ p → m.maps.count f ≠ 0

/-- A store into a task structure keeps the machine sound. -/
theorem MemOk.setTask (h : MemOk A own m) (n : ℕ) (t : Task) : MemOk A own (m.setTask n t) :=
  h.of_maps (by rw [Mem.maps_setTask]; exact h.maps) rfl rfl rfl

theorem Keeps.setTask {S : ℕ → ℕ → Prop} (n : ℕ) (t : Task) : Keeps S m (m.setTask n t) :=
  Keeps.of_maps rfl fun _ _ _ _ _ => rfl

theorem Flags.setTask {S : ℕ → ℕ → Prop} (n : ℕ) (t : Task) : Flags A S m (m.setTask n t) :=
  Flags.of_maps rfl fun _ _ => rfl

/-- **`copy_mem`** copies the parent's tables into the empty slot `nr`, or leaves
the slot empty. -/
theorem wp_copyMem (h : MemOk A own m) (hp : Parent cur m) (hnr : 1 ≤ nr) (hnr' : nr < 64)
    (hne : cur ≠ nr) (hempty : ∀ d, d < 16 → m.userDir (16 * nr + d) = none) :
    wp (copyMem cur nr) (fun r m' => MemOk A own m' ∧ Keeps (OneSlot nr) m m' ∧
      Flags A (OneSlot nr) m m' ∧
      m'.task = Function.update m.task nr { m.task nr with
        startCode := nr * 0x4000000
        codeBase := nr * 0x4000000
        dataBase := nr * 0x4000000 } ∧
      (∀ k, k / 16 ≠ nr → m'.userDir k = m.userDir k) ∧
      (∀ d, dirCount (m.task cur).dataLimit ≤ d → d < 16 → m'.userDir (16 * nr + d) = none) ∧
      if r = 0 then
          (1 ≤ cur → ∀ d j, d < dirCount (m.task cur).dataLimit →
            seen (m'.userEntry (16 * nr + d) j) = seen (m.userEntry (16 * cur + d) j)) ∧
          (cur = 0 → dirCount (m.task cur).dataLimit = 1 → ∀ j,
            named (m'.userEntry (16 * nr) j) = if j < 160 then some j else none)
        else
          (∀ d, d < 16 → m'.userDir (16 * nr + d) = none) ∧
          ((∀ d, 1 ≤ d → d < dirCount (m.task cur).dataLimit → m.userDir (16 * cur + d) = none) →
            ∀ f, A.Main f → m.maps.count f ≠ 0))
      NoHalt m := by
  have hsize := dirCount_le hp.limit_le
  obtain ⟨t, ht⟩ : ∃ t : Task, t = { m.task nr with
      startCode := nr * 0x4000000
      codeBase := nr * 0x4000000
      dataBase := nr * 0x4000000 } := ⟨_, rfl⟩
  have htask : (m.setTask nr t).task = Function.update m.task nr t := rfl
  unfold copyMem
  rw [wp_bind, wp_get, if_neg (by rw [hp.code, hp.data]; simp), if_neg (by
    have := hp.limits
    omega), wp_bind, wp_modify, wp_bind, hp.data, ← ht]
  refine wp_post (wp_copyPageTables (h.setTask nr t) hp.lt hnr hnr' hne hsize hp.zero hempty) ?_
  rintro r m₁ ⟨he₁, hdirs₁, hcopy₁, hfirst₁, hfull₁⟩
  have htask₁ : m₁.task = Function.update m.task nr t := he₁.task.trans htask
  have hother₁ : ∀ k, k / 16 ≠ nr → m₁.userDir k = m.userDir k := fun k hk => hdirs₁ k (by omega)
  have hbeyond₁ : ∀ d, dirCount (m.task cur).dataLimit ≤ d → d < 16 →
      m₁.userDir (16 * nr + d) = none := fun d hd hd' => by
    rw [hdirs₁ _ (by omega)]
    exact hempty d hd'
  by_cases hr : r = 0
  · rw [if_neg (by simp [hr]), wp_pure]
    exact ⟨he₁.ok, (Keeps.setTask nr t).trans he₁.keeps, (Flags.setTask nr t).trans he₁.flags,
      ht ▸ htask₁, hother₁, hbeyond₁,
      fun hone d j hd => hcopy₁ hr hone d j hd, hfirst₁ hr⟩
  · rw [if_pos hr, wp_bind]
    refine wp_post (wp_freePageTables he₁.ok rfl hnr hnr' hsize) ?_
    rintro - m₂ ⟨he₂, hnone₂, hdirs₂⟩
    have hbeyond₂ : ∀ d, dirCount (m.task cur).dataLimit ≤ d → d < 16 →
        m₂.userDir (16 * nr + d) = none := fun d hd hd' => by
      rw [hdirs₂ _ (by omega), hbeyond₁ d hd hd']
    refine ⟨he₂.ok, ((Keeps.setTask nr t).trans he₁.keeps).trans he₂.keeps,
      ((Flags.setTask nr t).trans he₁.flags).trans he₂.flags, he₂.task.trans (ht ▸ htask₁),
      fun k hk => ?_, hbeyond₂, ?_⟩
    · rw [hdirs₂ k (by omega), hother₁ k hk]
    · rw [if_neg (by simp)]
      refine ⟨fun d hd => ?_, hfull₁ hr⟩
      by_cases hlim : d < dirCount (m.task cur).dataLimit
      · exact hnone₂ d hlim
      · exact hbeyond₂ d (by omega) hd

/-- **`copy_process`**, in an unused slot. -/
theorem wp_copyProcess (h : MemOk A own m) (hp : Parent cur m) (hnr : 1 ≤ nr) (hnr' : nr < 64)
    (hne : cur ≠ nr) (hunused : (m.task nr).inUse = false)
    (hempty : ∀ d, d < 16 → m.userDir (16 * nr + d) = none) :
    wp (copyProcess cur nr) (fun r m' => if r then
        ∃ p, A.Main p ∧ m.maps.count p = 0 ∧ Forked A (insert p own) cur nr p m m'
      else NotForked A own cur nr m m') NoHalt m := by
  unfold copyProcess
  rw [wp_bind]
  refine wp_post (wp_getFreePage h) fun r m₁ hm₁ => ?_
  cases r with
  | none =>
    obtain ⟨rfl, hfull⟩ := hm₁
    exact ⟨h, Keeps.refl _, Flags.refl _, fun _ _ => rfl, hunused, fun _ _ => rfl, hempty,
      fun _ => ⟨0, fun f hf _ => hfull f hf⟩⟩
  | some p =>
    obtain ⟨hmain, h0, rfl⟩ := hm₁
    obtain ⟨he, hmaps⟩ := h.takePage (S := OneSlot nr) hmain h0
    have hno := (h.maps.of_count_zero hmain h0).2.2
    have hdir₁ : (m.takePage p).userDir = m.userDir := congrArg Maps.dir hmaps
    have hent₁ : (m.takePage p).userEntry = m.userEntry := congrArg Maps.entry hmaps
    rw [wp_bind, wp_modify]
    obtain ⟨t, ht⟩ : ∃ t : Task,
        t = { m.task cur with inUse := true, zombie := false, page := p } := ⟨_, rfl⟩
    have hset : (m.takePage p).setTask nr { (m.takePage p).task cur with
        inUse := true, zombie := false, page := p } = (m.takePage p).setTask nr t := by rw [ht]; rfl
    rw [hset, wp_bind]
    obtain ⟨m₁, hm₁⟩ : ∃ m₁, (m.takePage p).setTask nr t = m₁ := ⟨_, rfl⟩
    rw [hm₁]
    have hok₁ : MemOk A (insert p own) m₁ := hm₁ ▸ he.ok.setTask nr t
    have hkeep₁ : Keeps (OneSlot nr) m m₁ := hm₁ ▸ he.keeps.trans (Keeps.setTask nr t)
    have hflags₁ : Flags A (OneSlot nr) m m₁ := hm₁ ▸ he.flags.trans (Flags.setTask nr t)
    have htask₁ : m₁.task = Function.update m.task nr t := by rw [← hm₁]; rfl
    have hcur₁ : m₁.task cur = m.task cur := by rw [htask₁, Function.update_of_ne hne]
    have hdir₁ : m₁.userDir = m.userDir := by rw [← hm₁]; exact hdir₁
    have hent₁ : m₁.userEntry = m.userEntry := by rw [← hm₁]; exact hent₁
    have hp₁ : Parent cur m₁ := ⟨hp.lt, by rw [hcur₁, hp.code], by rw [hcur₁, hp.data],
      by rw [hcur₁]; exact hp.limits, by rw [hcur₁]; exact hp.limit_le,
      by rw [hcur₁]; exact hp.zero⟩
    refine wp_post (wp_copyMem hok₁ hp₁ hnr hnr' hne (by rw [hdir₁]; exact hempty)) ?_
    rintro r m₂ ⟨hok₂, hkeep₂, hflags₂, htask₂, hdirs₂, hbeyond₂, hr₂⟩
    have htask₂' : m₂.task = Function.update m.task nr (childTask (m.task cur) nr p) := by
      rw [htask₂, htask₁, Function.update_self, Function.update_idem, ht]
      rfl
    rw [hcur₁] at hbeyond₂ hr₂
    by_cases hr : r = 0
    · rw [if_neg (by simp [hr]), wp_pure, if_pos rfl]
      rw [if_pos hr] at hr₂
      refine ⟨p, hmain, h0, hok₂, hkeep₁.trans hkeep₂, hflags₁.trans hflags₂, htask₂',
        fun k hk => ?_, hbeyond₂, fun hone d j hd => ?_, hr₂.2⟩
      · rw [hdirs₂ k hk, hdir₁]
      · rw [hr₂.1 hone d j hd, hent₁]
    · rw [if_neg hr] at hr₂
      rw [if_pos hr, wp_bind, wp_modify, wp_bind]
      obtain ⟨m₃, hm₃⟩ : ∃ m₃, m₂.setTask nr { m₂.task nr with inUse := false } = m₃ := ⟨_, rfl⟩
      rw [hm₃]
      refine wp_post (wp_freePage_own (hm₃ ▸ hok₂.setTask nr _) (Finset.mem_insert_self p own)) ?_
      rintro - m₄ ⟨he₄, hdir₄⟩
      rw [Finset.erase_insert hno] at he₄
      rw [wp_pure, if_neg (by simp)]
      have hdir₃ : m₃.userDir = m₂.userDir := by rw [← hm₃]; rfl
      refine ⟨he₄.ok, ((hkeep₁.trans hkeep₂).trans (hm₃ ▸ Keeps.setTask nr _)).trans
        (he₄.keeps.mono fun _ _ hS => hS.elim),
        ((hflags₁.trans hflags₂).trans (hm₃ ▸ Flags.setTask nr _)).trans
          (he₄.flags.mono fun _ _ hS => hS.elim), fun n hn => ?_, ?_, fun k hk => ?_,
        fun d hd => ?_, fun h1 => ⟨p, fun f hf hfp => ?_⟩⟩
      · rw [he₄.task, ← hm₃, Mem.setTask_task, if_neg hn, htask₂', Function.update_of_ne hn]
      · rw [he₄.task, ← hm₃, Mem.setTask_task, if_pos rfl]
      · rw [hdir₄, hdir₃, hdirs₂ k hk, hdir₁]
      · rw [hdir₄, hdir₃, hr₂.1 d hd]
      · have := hr₂.2 (by rwa [hdir₁]) f hf
        rwa [← hm₁, Mem.maps_setTask, hmaps, Maps.setCount_count, if_neg hfp] at this

/-! ### `do_execve` and `release` -/

/-- The task structure after `change_ldt`. -/
def execTask (t : Task) (text endData exe : ℕ) : Task :=
  { t with
    codeLimit := (text + 4095) / 4096 * 4096
    dataBase := t.codeBase
    dataLimit := 0x4000000
    endData := endData
    executable := some exe }

/-- **`do_execve`** leaves the task in an empty slot of 64 MB. -/
theorem wp_execMem {text endData exe : ℕ} (h : MemOk A own m) (hr : Resides cur m) :
    wp (execMem cur text endData exe) (fun _ m' => MemOk A own m' ∧ Keeps (OneSlot cur) m m' ∧
      Flags A (OneSlot cur) m m' ∧
      m'.task = Function.update m.task cur (execTask (m.task cur) text endData exe) ∧
      (∀ d, d < 16 → m'.userDir (16 * cur + d) = none) ∧
      ∀ k, k / 16 ≠ cur → m'.userDir k = m.userDir k) NoHalt m := by
  have hfree := wp_freeSegments h hr
  unfold execMem
  rw [wp_bind, wp_get, wp_bind]
  rw [wp_bind] at hfree
  refine wp_post hfree fun _ m₁ hm₁ => ?_
  rw [wp_bind]
  refine wp_post hm₁ ?_
  rintro - m₂ ⟨he, hempty, hdirs⟩
  rw [wp_modify]
  refine ⟨he.ok.setTask cur _, he.keeps.trans (Keeps.setTask cur _),
    he.flags.trans (Flags.setTask cur _), ?_, hempty, hdirs⟩
  rw [Mem.setTask, he.task, execTask]

/-- The segments of a task that has executed a program that `do_execve` accepts. -/
theorem InSlot.exec {n text endData exe : ℕ} {t : Task} (h : InSlot n t)
    (htext : text ≤ 0x3000000) :
    InSlot n (execTask t text endData exe) where
  code := h.code
  data := h.code
  start := h.start
  limits := by
    change (text + 4095) / 4096 * 4096 ≤ 0x4000000
    omega
  limit_le := le_rfl

/-- **`release`** empties the slot and gives the page of the structure back. -/
theorem wp_release (h : MemOk A own m) (ho : (m.task nr).page ∈ own) :
    wp (release nr) (fun _ m' => MemOk A (own.erase (m.task nr).page) m' ∧ Keeps NoEntry m m' ∧
      Flags A NoEntry m m' ∧
      m'.task = Function.update m.task nr { m.task nr with inUse := false } ∧
      m'.userDir = m.userDir) NoHalt m := by
  unfold release
  rw [wp_bind, wp_get, wp_bind, wp_set]
  refine wp_post (wp_freePage_own (h.setTask nr _) ho) ?_
  rintro - m₁ ⟨he, hdir⟩
  exact ⟨he.ok, (Keeps.setTask nr _).trans he.keeps, (Flags.setTask nr _).trans he.flags, he.task,
    hdir⟩

/-! ### The state at boot -/

theorem clearMap_apply {map : ℕ → ℕ} {i n x : ℕ} :
    clearMap map i n x = if i ≤ x ∧ x < i + n then 0 else map x := by
  induction n generalizing map i with
  | zero => rw [clearMap, if_neg (by omega)]
  | succ n ih =>
    rw [clearMap, ih, Function.update_apply]
    by_cases hx : x = i
    · simp [hx]
    · by_cases hle : i + 1 ≤ x ∧ x < i + 1 + n
      · rw [if_pos hle, if_pos (by omega)]
      · rw [if_neg hle, if_neg hx, if_neg (by omega)]

/-- **The machine is sound when `mem_init` returns.** -/
theorem memOk_memInit (A : Arena) (rest : ℕ → ℕ → Word) :
    MemOk A ∅ (memInit (A.lo * 4096) (A.hi * 4096) rest) := by
  obtain ⟨m, hm⟩ : ∃ m, memInit (A.lo * 4096) (A.hi * 4096) rest = m := ⟨_, rfl⟩
  have hlow := A.low_le
  have hle := A.lo_le
  have hpg : m.word = setupPaging rest := by rw [← hm, memInit]
  have hword : ∀ k, 16 ≤ k → m.word 0 k = 0#32 := fun k hk => by
    rw [hpg, setupPaging, if_pos rfl, if_neg (by omega)]
  have hdir : m.userDir = fun _ => none := by
    funext k
    rw [Mem.userDir]
    split
    · next hk => rw [hword k hk.1, named_zero]
    · rfl
  have hent : ∀ k j, m.userEntry k j = 0#32 := fun k j => Mem.userEntry_of_none (by rw [hdir])
  have hcount : ∀ f, 256 ≤ f → m.maps.count f = if A.Main f then 0 else used := fun f hf => by
    have hn : A.lo * 4096 / 4096 - 256 ≤ f - 256 ∧
        f - 256 < A.lo * 4096 / 4096 - 256 + (A.hi * 4096 - A.lo * 4096) / 4096 ↔ A.Main f := by
      rw [Arena.Main]
      omega
    have hmap : m.memMap = clearMap (fun _ => used) (mapNr (A.lo * 4096 / 4096))
        ((A.hi * 4096 - A.lo * 4096) / 4096) := by rw [← hm, memInit]
    rw [Mem.maps_count hf, hmap, mapNr, mapNr, lowFrame, clearMap_apply]
    exact if_congr hn rfl rfl
  have hno : ∀ k j f, named (m.maps.entry k j) ≠ some f := fun k j f => by
    rw [Mem.maps_entry, hent, named_zero]
    simp
  rw [hm]
  refine ⟨?_, ?_, ?_, fun j hj => ?_⟩
  · exact
      { counted := fun f hf => by
          rw [hcount f hf.le, if_pos hf, Maps.Ok.entryRefs_eq_zero fun k j => hno k j f,
            Maps.Ok.dirRefs_eq_zero fun k => by rw [Mem.maps_dir, hdir]; simp, if_neg (by simp)]
        reserved := fun f hf _ hnm => by
          rw [hcount f hf, if_neg hnm, used]
          omega
        dir_user := fun hd => by simp [hdir] at hd
        entry_user := fun he => absurd he (hno _ _ _)
        dir_main := fun hd => by simp [hdir] at hd
        dir_inj := fun hd => by simp [hdir] at hd
        dir_fresh := fun hd => by simp [hdir] at hd
        own_main := fun ho => by simp at ho
        own_fresh := fun ho => by simp at ho
        entry_main := fun he => absurd he (hno _ _ _)
        place := fun he => absurd he (hno _ _ _)
        rw_only := fun he => absurd he (hno _ _ _) }
  · rw [← hm, memInit]
  · rw [hpg, setupPaging, if_pos rfl, if_pos (by omega)]
  · rw [hpg, setupPaging, if_neg (by omega), if_pos (by omega)]
    congr 1
    omega

end Linux011.Mm

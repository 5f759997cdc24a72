import Linux011.Mm.Cow

/-!
# The pages of the arguments

`do_execve` collects the arguments of the new program in pages of its own and, once
nothing can fail any more, has `change_ldt` map them at the top of the new address space,
without a look at what `put_page` returns. It can afford this: the old address space has
just been given back, so the frame of one of its tables is free for the one table the
thirty-two pages need, and `do_execve` does not sleep in between.

The pages lie under one directory entry, the last of the slot. So the invariant of the loop
is that this entry has a table or, before the first page is placed, that some frame is free.
-/

namespace Linux011.Mm

/-- `MAX_ARG_PAGES`. -/
def maxArgPages : ℕ := 32

/-- The loop of `change_ldt`; zero is no page. Beside its effect, what the calls of
`put_page` return, which `change_ldt` drops. -/
def putArgs (page : ℕ → ℕ) : ℕ → ℕ → M (List (Option ℕ))
  | 0, _ => pure []
  | i + 1, dataBase => do
    let dataBase := (dataBase + 2 ^ 32 - 4096) % 2 ^ 32
    if page i ≠ 0 then do
      let r ← putPage (page i) dataBase
      let rs ← putArgs page i dataBase
      pure (r :: rs)
    else putArgs page i dataBase

/-- `change_ldt`. -/
def changeLdt (cur textSize : ℕ) (page : ℕ → ℕ) : M (ℕ × List (Option ℕ)) := do
  let m ← get
  let codeBase := (m.task cur).codeBase
  set (m.setTask cur
    { m.task cur with
      codeLimit := (textSize + 4095) % 2 ^ 32 / 4096 * 4096
      dataBase := codeBase
      dataLimit := 0x4000000 })
  let rs ← putArgs page maxArgPages ((codeBase + 0x4000000) % 2 ^ 32)
  pure (0x4000000, rs)

/-- `do_execve`, from the first `free_page_tables` to `change_ldt`. -/
def execPages (cur textSize : ℕ) (page : ℕ → ℕ) : M (ℕ × List (Option ℕ)) := do
  let m ← get
  freePageTables (m.task cur).codeBase (m.task cur).codeLimit
  freePageTables (m.task cur).dataBase (m.task cur).dataLimit
  changeLdt cur textSize page

/-- Where page `i` of the arguments goes, in the linear address space. -/
def argAddress (dataBase i : ℕ) : ℕ := dataBase + 0x4000000 - (maxArgPages - i) * 4096

variable {A : Arena} {own : Finset ℕ} {m m' : Mem} {s : Sys}
  {T f i j k n cur base address page textSize : ℕ} {pages : ℕ → ℕ}

/-! ### What the kernel holds keeps its contents -/

/-- The pages the kernel holds have the contents they had. -/
def HeldSame (own : Finset ℕ) (m m' : Mem) : Prop := ∀ f, f ∈ own → m'.word f = m.word f

theorem MemOk.zero_notMem (h : MemOk A own m) : 0 ∉ own := fun h0 => by
  have := (h.maps.own_main h0).le
  omega

theorem words_freePage (page : ℕ) : wp (freePage page) (fun _ m' => m'.word = m.word)
    (fun _ m' => m'.word = m.word) m := by
  rw [freePage, wp_ite]
  refine ⟨fun _ => rfl, fun _ => ?_⟩
  rw [wp_bind, wp_get, wp_ite]
  refine ⟨fun _ => rfl, fun _ => ?_⟩
  rw [wp_bind, wp_set, wp_ite]
  exact ⟨fun _ => rfl, fun _ => rfl⟩

theorem held_freeEntry (hT : T ∉ own) (j : ℕ) : wp (freeEntry T j) (fun _ m' => HeldSame own m m')
    (fun _ _ => True) m := by
  have store : ∀ m₁ : Mem, m₁.word = m.word → HeldSame own m (m₁.setWord T j 0#32) := by
    intro m₁ hw f hf
    rw [Mem.word_setWord_of_ne (ne_of_mem_of_not_mem hf hT), hw]
  rw [freeEntry, wp_bind, wp_get, wp_bind, wp_ite]
  refine ⟨fun _ => ?_, fun _ => store m rfl⟩
  exact wp_mono (words_freePage _) (fun _ m₁ hw => store m₁ hw) fun _ _ _ => trivial

theorem HeldSame.trans {m'' : Mem} (h : HeldSame own m m') (h' : HeldSame own m' m'') :
    HeldSame own m m'' := fun f hf => (h' f hf).trans (h f hf)

/-- A table is no page the kernel holds. -/
theorem held_freeTable (h : MemOk A own m) (hk : k ∈ userDirs) :
    wp (freeTable k) (fun _ m' => HeldSame own m m') (fun _ _ => True) m := by
  rw [freeTable, wp_bind, wp_get, wp_ite]
  refine ⟨fun hp => ?_, fun _ _ _ => rfl⟩
  have hd : m.userDir k = some (frameOf (m.word 0 k)) := Mem.userDir_eq_some.mpr ⟨hk, hp, rfl⟩
  have hT := (h.maps.dir_fresh hd).1
  rw [wp_bind]
  refine wp_post (wp_forFrom (fun _ m' => HeldSame own m m') (fun _ _ => rfl)
    fun i m₁ _ _ hm₁ => wp_post (held_freeEntry hT i) fun _ _ h => hm₁.trans h) ?_
  rintro - m₁ hm₁
  rw [wp_bind, wp_get, wp_bind]
  refine wp_mono (words_freePage _) (fun _ m₂ hw => ?_) fun _ _ _ => trivial
  rw [wp_modify]
  intro f hf
  rw [Mem.word_setWord_of_ne (ne_of_mem_of_not_mem hf h.zero_notMem), hw, hm₁ f hf]

theorem held_freePageTables {start size : ℕ} (h : MemOk A own m) (hstart : start = n * 0x4000000)
    (hn : 1 ≤ n) (hn' : n < 64) (hsize : dirCount size ≤ 16) :
    wp (freePageTables start size) (fun _ m' => HeldSame own m m') (fun _ _ => True) m := by
  have hdir : dirIndex start = 16 * n := by rw [dirIndex]; omega
  rw [freePageTables, if_neg (by omega), if_neg (by omega), hdir]
  refine wp_post (wp_forFrom (fun _ m' => MemOk A own m' ∧ HeldSame own m m')
    ⟨h, fun _ _ => rfl⟩ fun i m₁ hi hi' hm₁ => ?_) fun _ _ h => h.2
  have hk : i ∈ userDirs := mem_userDirs.mpr ⟨by omega, by omega⟩
  refine wp_mono (wp_and (wp_freeTable hm₁.1 hk) (held_freeTable hm₁.1 hk)) ?_ fun _ _ _ => trivial
  rintro - m₂ ⟨⟨he, -⟩, hheld⟩
  exact ⟨he.ok, hm₁.2.trans hheld⟩

/-- `put_page` stores to the directory and to a table. -/
theorem held_putPage (h : MemOk A own m) (hk : dirIndex address ∈ userDirs) :
    wp (putPage page address) (fun _ m' => HeldSame own m m') NoHalt m := by
  rw [putPage, wp_bind, wp_get, wp_ite]
  refine ⟨fun hp f hf => ?_, fun _ => ?_⟩
  · have hd : m.userDir (dirIndex address) = some (frameOf (m.word 0 (dirIndex address))) :=
      Mem.userDir_eq_some.mpr ⟨hk, hp, rfl⟩
    exact Mem.word_setWord_of_ne (ne_of_mem_of_not_mem hf (h.maps.dir_fresh hd).1)
  · rw [wp_bind]
    refine wp_post (wp_getFreePage h) fun r m₁ hr => ?_
    cases r with
    | none =>
      obtain ⟨rfl, -⟩ := hr
      exact fun _ _ => rfl
    | some tmp =>
      obtain ⟨hmain, h0, rfl⟩ := hr
      have htmp := (h.maps.of_count_zero hmain h0).2.2
      rw [wp_bind, wp_modify, wp_bind, wp_modify, wp_pure]
      intro f hf
      have hne : f ≠ tmp := ne_of_mem_of_not_mem hf htmp
      rw [Mem.word_setWord_of_ne hne,
        Mem.word_setWord_of_ne (ne_of_mem_of_not_mem hf h.zero_notMem), Mem.takePage,
        Mem.word_setFrame, if_neg hne, Mem.setMap_word]

/-! ### The loop -/

/-- The first `i` of the argument pages. -/
def argPages (pages : ℕ → ℕ) (i : ℕ) : Finset ℕ := (Finset.range i).image pages

/-- The entries of the first `i` argument pages. -/
def ArgEntries (n i : ℕ) : ℕ → ℕ → Prop := fun k j => k = 16 * n + 15 ∧ 992 ≤ j ∧ j < 992 + i

/-- **There is room for the pages**: the last directory entry of the slot has a table, or a
frame is free. -/
def Room (A : Arena) (n : ℕ) (m : Mem) : Prop :=
  (∃ T, m.userDir (16 * n + 15) = some T) ∨ ∃ f, A.Main f ∧ m.maps.count f = 0

/-- Where there is a table, `put_page` takes no page. -/
theorem putPage_of_table (hd : m.userDir (dirIndex address) = some T) :
    wp (putPage page address) (fun r _ => r ≠ none) NoHalt m := by
  rw [putPage, wp_bind, wp_get, if_pos (Mem.userDir_eq_some.mp hd).2.1]
  exact Option.some_ne_none page

/-- `put_page` finds the room, and leaves a table. -/
theorem Room.putPage (hroom : Room A n m) (h : MemOk A own m) (hk : dirIndex address = 16 * n + 15)
    (hn : 1 ≤ n) (hlt : n < 64)
    (habs : named (m.userEntry (dirIndex address) (tableIndex address)) = none) (ho : page ∈ own) :
    wp (putPage page address) (fun r m' => r = some page ∧ Room A n m' ∧
      Eff A (own.erase page) (OneEntry (dirIndex address) (tableIndex address)) m m' ∧
      named (m'.userEntry (dirIndex address) (tableIndex address)) = some page ∧
      HeldSame own m m') NoHalt m := by
  have hmem : dirIndex address ∈ userDirs := mem_userDirs.mpr ⟨by omega, by omega⟩
  have hspec := wp_and (wp_putPage h hmem habs ho) (held_putPage h hmem)
  -- it does not run out of memory
  have hsome : wp (Mm.putPage page address) (fun r m' => (r = none → m' = m ∧
      ∀ f, A.Main f → m.maps.count f ≠ 0) → r ≠ none) NoHalt m := by
    rcases hroom with ⟨T, hT⟩ | ⟨f, hf, h0⟩
    · exact wp_post (putPage_of_table (hk ▸ hT)) fun r _ hr _ => hr
    · exact wp_mono hspec (fun r _ _ hfull hr => (hfull hr).2 f hf h0) fun _ _ he => he.1
  refine wp_mono (wp_and hspec hsome) ?_ fun _ _ he => he.2
  rintro (- | p) m' ⟨⟨hm', hheld⟩, hsome⟩
  · exact absurd rfl (hsome fun _ => hm')
  · obtain ⟨rfl, heff, -, hent, -⟩ := hm'
    have hnamed := congrArg named hent
    rw [named_pageEntry (h.maps.own_main ho).lt_pow] at hnamed
    obtain ⟨hT, -⟩ := heff.ok.maps.entry_user hnamed
    exact ⟨rfl, Or.inl (hk ▸ hT), heff, hnamed, hheld⟩

theorem argPages_succ : argPages pages (i + 1) = insert (pages i) (argPages pages i) := by
  rw [argPages, Finset.range_add_one, Finset.image_insert, argPages]

/-- **The pages that are to be placed**: the kernel holds each of them, they are different,
and none has been placed yet. -/
structure Waiting (own : Finset ℕ) (n : ℕ) (pages : ℕ → ℕ) (i : ℕ) (m : Mem) : Prop where
  held : ∀ j, j < i → pages j ≠ 0 → pages j ∈ own
  inj : ∀ j j', j < i → j' < i → pages j ≠ 0 → pages j = pages j' → j = j'
  absent : ∀ j, j < i → named (m.userEntry (16 * n + 15) (992 + j)) = none

/-- **The loop of `change_ldt`**, over the pages below `i`. -/
theorem wp_putArgs (hi : i ≤ 32) (h : MemOk A own m) (hroom : Room A n m) (hn : 1 ≤ n)
    (hlt : n < 64) (hw : Waiting own n pages i m)
    (hbase : base = (n * 0x4000000 + 0x4000000 - (32 - i) * 4096) % 2 ^ 32) :
    wp (putArgs pages i base) (fun rs m' => (∀ r, r ∈ rs → r ≠ none) ∧
      Eff A (own \ argPages pages i) (ArgEntries n i) m m' ∧
      ∀ j, j < i → pages j ≠ 0 → named (m'.userEntry (16 * n + 15) (992 + j)) = some (pages j) ∧
        m'.word (pages j) = m.word (pages j)) NoHalt m := by
  induction i generalizing m own base with
  | zero =>
    have hown : own \ argPages pages 0 = own := by simp [argPages]
    rw [putArgs, hown]
    exact ⟨fun r hr => by simp at hr, Eff.refl h, fun j hj => by omega⟩
  | succ i ih =>
    have haddr : (base + 2 ^ 32 - 4096) % 2 ^ 32 =
        (n * 0x4000000 + 0x4000000 - (32 - i) * 4096) % 2 ^ 32 := by omega
    have hkdir : dirIndex ((base + 2 ^ 32 - 4096) % 2 ^ 32) = 16 * n + 15 := by
      rw [haddr, dirIndex]
      omega
    have hjtab : tableIndex ((base + 2 ^ 32 - 4096) % 2 ^ 32) = 992 + i := by
      rw [haddr, tableIndex]
      omega
    have hsub : ∀ k j, ArgEntries n i k j → ArgEntries n (i + 1) k j := fun k j hS =>
      ⟨hS.1, hS.2.1, by have := hS.2.2; omega⟩
    rw [putArgs]
    rw [wp_ite]
    refine ⟨fun hp => ?_, fun hp => ?_⟩
    · -- page `i` is placed, and keeps what it holds while the others are
      have ho := hw.held i (by omega) hp
      have habs := hw.absent i (by omega)
      rw [← hkdir, ← hjtab] at habs
      rw [wp_bind]
      refine wp_post (hroom.putPage h hkdir hn hlt habs ho) ?_
      rintro r m₁ ⟨rfl, hroom₁, heff₁, hnamed₁, hheld₁⟩
      rw [hkdir, hjtab] at heff₁ hnamed₁
      have hw₁ : Waiting (own.erase (pages i)) n pages i m₁ := by
        refine ⟨fun j hj hpj => ?_, fun j j' hj hj' => hw.inj j j' (by omega) (by omega),
          fun j hj => ?_⟩
        · refine Finset.mem_erase.mpr ⟨fun he => ?_, hw.held j (by omega) hpj⟩
          have := hw.inj j i (by omega) (by omega) hpj he
          omega
        · rw [(heff₁.keeps _ _ fun hS => by have := hS.2; omega).1]
          exact hw.absent j (by omega)
      rw [wp_bind]
      refine wp_post (ih (by omega) heff₁.ok hroom₁ hw₁ haddr) ?_
      rintro rs m' ⟨hrs, heff, hplaced⟩
      rw [wp_pure]
      have hown : own.erase (pages i) \ argPages pages i = own \ argPages pages (i + 1) := by
        rw [argPages_succ, Finset.erase_sdiff_comm, ← Finset.sdiff_insert]
      rw [hown] at heff
      obtain ⟨hn₁, hword₁⟩ := heff.keeps (16 * n + 15) (992 + i) fun hS => by
        have := hS.2.2
        omega
      refine ⟨?_, (heff₁.mono fun k j hS => ?_).trans (heff.mono hsub), fun j hj hpj => ?_⟩
      · intro r hr
        rcases List.mem_cons.mp hr with rfl | hr
        · exact Option.some_ne_none _
        · exact hrs r hr
      · exact ⟨hS.1, by have := hS.2; omega, by have := hS.2; omega⟩
      · rcases Nat.lt_succ_iff_lt_or_eq.mp hj with hj | rfl
        · obtain ⟨hnj, hwj⟩ := hplaced j hj hpj
          refine ⟨hnj, hwj.trans (hheld₁ _ (hw.held j (by omega) hpj))⟩
        · refine ⟨hn₁.trans hnamed₁, ?_⟩
          rw [hword₁ _ hnamed₁ (h.maps.own_main ho).le, hheld₁ _ ho]
    · -- there is no page `i`
      rw [not_not] at hp
      have hw₁ : Waiting own n pages i m :=
        ⟨fun j hj => hw.held j (by omega), fun j j' hj hj' => hw.inj j j' (by omega) (by omega),
          fun j hj => hw.absent j (by omega)⟩
      refine wp_post (ih (by omega) h hroom hw₁ haddr) ?_
      rintro rs m' ⟨hrs, heff, hplaced⟩
      have hown : own \ argPages pages i = own \ argPages pages (i + 1) := by
        rw [argPages_succ, hp, Finset.sdiff_insert, Finset.erase_eq_of_notMem]
        exact fun h0 => h.zero_notMem (Finset.mem_sdiff.mp h0).1
      rw [hown] at heff
      refine ⟨hrs, heff.mono hsub, fun j hj hpj => ?_⟩
      rcases Nat.lt_succ_iff_lt_or_eq.mp hj with hj | rfl
      · exact hplaced j hj hpj
      · exact absurd hp hpj

/-! ### `do_execve`, past the point of no return -/

/-- Giving an address space back touches no page the kernel holds. -/
theorem held_freeSegments (h : MemOk A own m) (hr : Resides n m) :
    wp (do
      freePageTables (m.task n).codeBase (m.task n).codeLimit
      freePageTables (m.task n).dataBase (m.task n).dataLimit) (fun _ m' => HeldSame own m m')
      (fun _ _ => True) m := by
  have hle := dirCount_le hr.slot.limit_le
  have hcode := dirCount_mono hr.slot.limits hr.slot.limit_le
  rw [wp_bind]
  refine wp_mono (wp_and (wp_freePageTables h hr.slot.code hr.one_le hr.lt (hcode.trans hle))
    (held_freePageTables h hr.slot.code hr.one_le hr.lt (hcode.trans hle))) ?_ fun _ _ _ => trivial
  rintro - m₁ ⟨⟨he₁, -⟩, hheld₁⟩
  exact wp_post (held_freePageTables he₁.ok hr.slot.data hr.one_le hr.lt hle)
    fun _ m₂ hheld₂ => hheld₁.trans hheld₂

/-- **A table that has been given back is free**: it was counted once, by the directory
entry that is gone. -/
theorem count_of_freed {d : ℕ} (h : MemOk A own m) (hT : m.userDir (16 * n + d) = some T)
    (hd : d < 16) (he : Eff A own (OneSlot n) m m')
    (hempty : ∀ d, d < 16 → m'.userDir (16 * n + d) = none)
    (hdirs : ∀ k, k / 16 ≠ n → m'.userDir k = m.userDir k) : m'.maps.count T = 0 := by
  obtain ⟨hown, hfresh⟩ := h.maps.dir_fresh hT
  have hentries : ∀ k j, named (m'.maps.entry k j) ≠ some T := by
    intro k j
    rw [Mem.maps_entry]
    by_cases hk : k / 16 = n
    · rw [named_of_empty hempty hk]
      simp
    · rw [(he.keeps k j hk).1]
      exact hfresh k j
  have htables : ∀ k, m'.maps.dir k ≠ some T := by
    intro k hkT
    rw [Mem.maps_dir] at hkT
    by_cases hk : k / 16 = n
    · have hnone := hempty (k % 16) (Nat.mod_lt _ (by omega))
      rw [← hk, Nat.div_add_mod, hkT] at hnone
      simp at hnone
    · rw [hdirs k hk] at hkT
      have := h.maps.dir_inj hkT hT
      omega
  rw [he.ok.maps.counted T (h.maps.dir_main hT), Maps.Ok.entryRefs_eq_zero hentries,
    Maps.Ok.dirRefs_eq_zero htables, if_neg hown]

/-- **The pages of the arguments are in place**: every call of `put_page` has succeeded, and
each page is mapped where the new program expects it, with the contents it had. -/
structure Placed (cur : ℕ) (pages : ℕ → ℕ) (m : Mem) (rs : List (Option ℕ)) (m' : Mem) : Prop where
  succeeds : ∀ r, r ∈ rs → r ≠ none
  mapped : ∀ i, i < maxArgPages → pages i ≠ 0 →
    named (entryAt m' (argAddress (m'.task cur).dataBase i)) = some (pages i)
  contents : ∀ i, i < maxArgPages → pages i ≠ 0 → m'.word (pages i) = m.word (pages i)

/-- **No page of the arguments is lost**, whatever memory there is left: it is enough that
the address space that is given back has a table. -/
theorem execPages_placed (h : Reachable (Boot A) Step s) (hone : 1 ≤ cur) (hr : Running cur s)
    (ha : Mine cur address s.mem) (hT : s.mem.userDir (dirIndex address) = some T)
    (hheld : ∀ i, i < maxArgPages → pages i ≠ 0 → s.owner (pages i) = some .other)
    (hinj : ∀ i j, i < maxArgPages → j < maxArgPages → pages i ≠ 0 → pages i = pages j → i = j) :
    wp (execPages cur textSize pages) (fun r m' => Placed cur pages s.mem r.2 m' ∧
      MemOk A (s.held \ argPages pages maxArgPages) m') NoHalt s.mem := by
  have hi := Inv.reachable h
  have hmem : ∀ i, i < maxArgPages → pages i ≠ 0 → pages i ∈ s.held := fun i hi' hp => by
    have ho : s.owner (pages i) ≠ none := by rw [hheld i hi' hp]; simp
    exact Sys.mem_held.mpr ⟨hi.range _ ho, ho⟩
  have hres := hi.resides hone hr
  have hlt := hres.lt
  obtain ⟨hlo, -⟩ := hres.dirIndex ha
  have hhi := hres.dir_lt ha
  obtain ⟨d, hd, hkd⟩ : ∃ d, d < 16 ∧ dirIndex address = 16 * cur + d :=
    ⟨dirIndex address - 16 * cur, by omega, by omega⟩
  rw [hkd] at hT
  have hfree := wp_and (wp_freeSegments hi.ok hres) (held_freeSegments hi.ok hres)
  rw [execPages, wp_bind, wp_get, wp_bind]
  rw [wp_bind] at hfree
  refine wp_mono hfree (fun _ m₁ hm₁ => ?_) fun _ _ he => he.1
  rw [wp_bind]
  refine wp_mono hm₁ ?_ fun _ _ he => he.1
  rintro - m₂ ⟨⟨he, hempty, hdirs⟩, hsame⟩
  have hfreed := count_of_freed hi.ok hT hd he hempty hdirs
  obtain ⟨t, ht⟩ : ∃ t : Task, { m₂.task cur with
      codeLimit := (textSize + 4095) % 2 ^ 32 / 4096 * 4096
      dataBase := (m₂.task cur).codeBase
      dataLimit := 0x4000000 } = t := ⟨_, rfl⟩
  have hcode : (m₂.task cur).codeBase = cur * 0x4000000 := by rw [he.task, hres.slot.code]
  have htbase : t.dataBase = cur * 0x4000000 := by rw [← ht, hcode]
  rw [changeLdt, wp_bind, wp_get, wp_bind, wp_set, wp_bind, ht, hcode]
  refine wp_post (wp_putArgs le_rfl (he.ok.setTask cur t) (Or.inr ⟨T, hi.ok.maps.dir_main hT,
    hfreed⟩) hone hlt ⟨hmem, hinj, fun j _ => named_of_empty hempty (by omega) _⟩
      (by rw [maxArgPages]; omega)) ?_
  rintro rs m' ⟨hrs, heff, hplaced⟩
  rw [wp_pure]
  have hbase : (m'.task cur).dataBase = cur * 0x4000000 := by
    rw [heff.task, Mem.setTask_task, if_pos rfl, htbase]
  refine ⟨⟨hrs, fun i hi' hp => ?_, fun i hi' hp => ?_⟩, heff.ok⟩
  · have hi32 : i < 32 := hi'
    have hdir : dirIndex (argAddress (m'.task cur).dataBase i) = 16 * cur + 15 := by
      rw [hbase, argAddress, maxArgPages, dirIndex]
      omega
    have htab : tableIndex (argAddress (m'.task cur).dataBase i) = 992 + i := by
      rw [hbase, argAddress, maxArgPages, tableIndex]
      omega
    rw [entryAt, hdir, htab]
    exact (hplaced i hi' hp).1
  · exact (hplaced i hi' hp).2.trans (hsame _ (hmem i hi' hp))

/-- Task 1 has collected one page of arguments. -/
theorem execPages_first : ∃ s f, Reachable (Boot arena16) Step s ∧ f ≠ 0 ∧
    wp (execPages 1 4096 fun i => if i = 31 then f else 0) (fun r m' =>
      Placed 1 (fun i => if i = 31 then f else 0) s.mem r.2 m' ∧
        MemOk arena16 (s.held \ argPages (fun i => if i = 31 then f else 0) maxArgPages) m')
      NoHalt s.mem := by
  obtain ⟨s, p, hs⟩ := first_fork
  have hi := Inv.reachable hs.reach
  have hrun := hs.running
  obtain ⟨T, hT⟩ := (hi.ok.maps.entry_user hs.page).1
  rw [Mem.maps_dir] at hT
  have hwp : wp (perform .getPage) (fun _ s' => Running 1 s' ∧ s'.mem.task = s.mem.task ∧
      s'.mem.userDir = s.mem.userDir ∧ ∃ f, 256 ≤ f ∧ s'.owner f = some .other)
      (fun _ _ => False) s := by
    rw [perform, wp_bind, wp_inMem]
    refine wp_mono (wp_getFreePage hi.ok) (fun r m' hm => ?_) fun _ _ he => he
    cases r with
    | none =>
      obtain ⟨f, hf, -, h0⟩ := hs.free 0
      exact absurd h0 (hm.2 f hf)
    | some f =>
      obtain ⟨hf, h0, rfl⟩ := hm
      have hmaps := (hi.ok.takePage (S := NoEntry) hf h0).2
      exact ⟨hrun, rfl, congrArg Maps.dir hmaps, f, hf.le, Function.update_self _ _ _⟩
  obtain ⟨⟨⟩, s', hp, hrun', htask, hdir, f, hf, ho⟩ := wp_returns hwp
  have hmine : Mine 1 0x4000000 s'.mem := by
    have hlimit := hs.limit
    rw [Mine, htask]
    omega
  have hreach : Reachable (Boot arena16) Step s' := hs.reach.next ⟨.getPage, trivial, Or.inl hp⟩
  refine ⟨s', f, hreach, by omega, execPages_placed hreach le_rfl hrun' hmine (hdir ▸ hT)
    (fun i _ hi0 => ?_) fun i j _ _ hi0 hij => ?_⟩
  · have h31 : i = 31 := by
      by_contra hne
      exact hi0 (if_neg hne)
    rw [h31, if_pos rfl, ho]
  · have h31 : i = 31 := by
      by_contra hne
      exact hi0 (if_neg hne)
    by_contra hne
    rw [h31, if_pos rfl, if_neg (by omega)] at hij
    omega

end Linux011.Mm

import Linux011.Mm.Routines

/-!
# What page faults, and leaving, do to the mappings

The specifications of the routines that run on behalf of one task, the *current*
one, whose segments lie in its own slot of the linear address space
(`Linux011.Mm.Resides`). Each ends in one of two ways: it returns, having touched
only the entry that faulted, or memory has run out and the task is gone, its slot
emptied (`Linux011.Mm.Gone`). No panic is reached.
-/

namespace Linux011.Mm

variable {A : Arena} {own : Finset ℕ} {m m' m'' : Mem} {k j T f cur n page address : ℕ}
  {S : ℕ → ℕ → Prop}

/-! ### Tasks and their slots -/

/-- The segments of a task lie in slot `n`. -/
structure InSlot (n : ℕ) (t : Task) : Prop where
  code : t.codeBase = n * 0x4000000
  data : t.dataBase = n * 0x4000000
  start : t.startCode = n * 0x4000000
  limits : t.codeLimit ≤ t.dataLimit
  limit_le : t.dataLimit ≤ 0x4000000

/-- **A task lives in its slot**: its segments lie there, and there are no page
tables beyond its limit. -/
structure Resides (n : ℕ) (m : Mem) : Prop where
  one_le : 1 ≤ n
  lt : n < 64
  slot : InSlot n (m.task n)
  beyond : ∀ d, dirCount (m.task n).dataLimit ≤ d → d < 16 → m.userDir (16 * n + d) = none

/-- An address in the data segment of task `n`. -/
def Mine (n address : ℕ) (m : Mem) : Prop :=
  n * 0x4000000 ≤ address ∧ address < n * 0x4000000 + (m.task n).dataLimit

theorem dirCount_le {size : ℕ} (h : size ≤ 0x4000000) : dirCount size ≤ 16 := by
  rw [dirCount]
  omega

theorem dirCount_mono {size size' : ℕ} (h : size ≤ size') (h' : size' ≤ 0x4000000) :
    dirCount size ≤ dirCount size' := by
  rw [dirCount, dirCount]
  omega

theorem tableIndex_lt (address : ℕ) : tableIndex address < 1024 := by
  rw [tableIndex]
  omega

/-- Where the entries of a task's addresses are. -/
theorem Resides.dirIndex (h : Resides n m) (ha : Mine n address m) :
    16 * n ≤ Mm.dirIndex address ∧
      Mm.dirIndex address < 16 * n + dirCount (m.task n).dataLimit := by
  have := h.lt
  have := h.slot.limit_le
  obtain ⟨h1, h2⟩ := ha
  rw [Mm.dirIndex, dirCount]
  omega

theorem Resides.dir_lt (h : Resides n m) (ha : Mine n address m) :
    Mm.dirIndex address < 16 * n + 16 :=
  (h.dirIndex ha).2.trans_le (Nat.add_le_add_left (dirCount_le h.slot.limit_le) _)

theorem Resides.mem_userDirs (h : Resides n m) (ha : Mine n address m) :
    Mm.dirIndex address ∈ userDirs := by
  have := h.one_le
  have := h.lt
  have := (h.dirIndex ha).1
  have := h.dir_lt ha
  exact Mm.mem_userDirs.mpr ⟨by omega, by omega⟩

/-- A task still lives in its slot when its structure is what it was and no table
has appeared beyond its limit. -/
theorem Resides.of_dirs (h : Resides n m) (htask : m'.task n = m.task n)
    (hdirs : ∀ d, dirCount (m.task n).dataLimit ≤ d → d < 16 →
      m'.userDir (16 * n + d) = m.userDir (16 * n + d)) : Resides n m' where
  one_le := h.one_le
  lt := h.lt
  slot := htask ▸ h.slot
  beyond d hd hd' := by
    rw [htask] at hd
    rw [hdirs d hd hd']
    exact h.beyond d hd hd'

/-- A slot without tables names nothing. -/
theorem named_of_empty (hempty : ∀ d, d < 16 → m.userDir (16 * n + d) = none) (hk : k / 16 = n)
    (j : ℕ) : named (m.userEntry k j) = none := by
  have hd := hempty (k % 16) (Nat.mod_lt _ (by omega))
  rw [← hk, Nat.div_add_mod] at hd
  rw [Mem.userEntry_of_none hd, named_zero]

/-! ### Leaving -/

/-- **Task `cur` is gone**: its slot is empty, and nothing else has changed. -/
structure Gone (A : Arena) (own : Finset ℕ) (cur : ℕ) (m m' : Mem) : Prop where
  ok : MemOk A own m'
  keeps : Keeps (OneSlot cur) m m'
  flags : Flags A (OneSlot cur) m m'
  task : m'.task = Function.update m.task cur
    { m.task cur with executable := none, zombie := true }
  empty : ∀ d, d < 16 → m'.userDir (16 * cur + d) = none
  dirs : ∀ k, k / 16 ≠ cur → m'.userDir k = m.userDir k

/-- **Memory is short**: at most one page is free. -/
def Short (A : Arena) (m : Mem) : Prop := ∃ p, ∀ f, A.Main f → f ≠ p → m.maps.count f ≠ 0

theorem Short.of_full (h : ∀ f, A.Main f → m.maps.count f ≠ 0) : Short A m :=
  ⟨0, fun f hf _ => h f hf⟩

/-- Code that may be left early in one way only: the current task runs out of
memory, and is gone. -/
def Leaves (A : Arena) (own : Finset ℕ) (cur : ℕ) (m : Mem) : Halt → Mem → Prop :=
  fun e m' => e = .exited ∧ Gone A own cur m m' ∧ Short A m

/-- What happened before the task left was confined to its slot. -/
theorem Gone.of_eff {own' : Finset ℕ} (he : Eff A own' (OneSlot cur) m m')
    (hdirs : ∀ k, k / 16 ≠ cur → m'.userDir k = m.userDir k) (hg : Gone A own cur m' m'') :
    Gone A own cur m m'' :=
  ⟨hg.ok, he.keeps.trans hg.keeps, he.flags.trans hg.flags, by rw [hg.task, he.task], hg.empty,
    fun k hk => (hg.dirs k hk).trans (hdirs k hk)⟩

/-- Both segments are freed, the second time to no effect. -/
theorem wp_freeSegments (h : MemOk A own m) (hr : Resides n m) :
    wp (do
      freePageTables (m.task n).codeBase (m.task n).codeLimit
      freePageTables (m.task n).dataBase (m.task n).dataLimit) (fun _ m' =>
      Eff A own (OneSlot n) m m' ∧ (∀ d, d < 16 → m'.userDir (16 * n + d) = none) ∧
        ∀ k, k / 16 ≠ n → m'.userDir k = m.userDir k) NoHalt m := by
  have hle := dirCount_le hr.slot.limit_le
  have hcode := dirCount_mono hr.slot.limits hr.slot.limit_le
  rw [wp_bind]
  refine wp_post (wp_freePageTables h hr.slot.code hr.one_le hr.lt (hcode.trans hle)) ?_
  rintro - m₁ ⟨he₁, hnone₁, hsame₁⟩
  refine wp_post (wp_freePageTables he₁.ok hr.slot.data hr.one_le hr.lt hle) ?_
  rintro - m₂ ⟨he₂, hnone₂, hsame₂⟩
  refine ⟨he₁.trans he₂, fun d hd => ?_, fun k hk => ?_⟩
  · by_cases hlim : d < dirCount (m.task n).dataLimit
    · exact hnone₂ d hlim
    · rw [hsame₂ _ (by omega), hsame₁ _ (by omega), hr.beyond d (by omega) hd]
  · rw [hsame₂ k (by omega), hsame₁ k (by omega)]

/-- **`do_exit`** empties the slot. -/
theorem wp_doExit (h : MemOk A own m) (hr : Resides cur m) :
    wp (doExit cur) (fun _ m' => Gone A own cur m m') NoHalt m := by
  have hfree := wp_freeSegments h hr
  unfold doExit
  rw [wp_bind, wp_get, wp_bind]
  rw [wp_bind] at hfree
  refine wp_post hfree fun _ m₁ hm₁ => ?_
  rw [wp_bind]
  refine wp_post hm₁ ?_
  rintro - m₂ ⟨he, hempty, hdirs⟩
  rw [wp_modify]
  refine ⟨he.ok.of_maps (by rw [Mem.maps_setTask]; exact he.ok.maps) rfl rfl rfl, he.keeps,
    he.flags.trans (Flags.of_maps rfl fun _ _ => rfl), ?_, hempty, hdirs⟩
  rw [Mem.setTask, he.task]

/-- **`oom`** never returns. -/
theorem wp_oom {α : Type} {Q : α → Mem → Prop} (h : MemOk A own m) (hr : Resides cur m) :
    wp (oom cur : M α) Q (fun e m' => e = .exited ∧ Gone A own cur m m') m := by
  unfold oom
  rw [wp_bind]
  refine wp_mono (wp_doExit h hr) (fun _ m' hg => ?_) fun _ _ he => he.elim
  exact ⟨rfl, hg⟩

/-- It is called when `get_free_page` has failed. -/
theorem wp_oom_full {α : Type} {Q : α → Mem → Prop} (h : MemOk A own m) (hr : Resides cur m)
    (hfull : ∀ f, A.Main f → m.maps.count f ≠ 0) :
    wp (oom cur : M α) Q (Leaves A own cur m) m :=
  wp_mono (wp_oom h hr) (fun _ _ hq => hq) fun _ _ he => ⟨he.1, he.2, .of_full hfull⟩

/-! ### `put_page` -/

/-- **`put_page`** maps a page the kernel holds, and lets go of it; or there is no
page for the table and nothing has happened. -/
theorem wp_putPage (h : MemOk A own m) (hk : dirIndex address ∈ userDirs)
    (habs : named (m.userEntry (dirIndex address) (tableIndex address)) = none) (ho : page ∈ own) :
    wp (putPage page address) (fun r m' => match r with
      | none => m' = m ∧ ∀ f, A.Main f → m.maps.count f ≠ 0
      | some p => p = page ∧
          Eff A (own.erase page) (OneEntry (dirIndex address) (tableIndex address)) m m' ∧
          (∀ k, k ≠ dirIndex address → m'.userDir k = m.userDir k) ∧
          m'.userEntry (dirIndex address) (tableIndex address) = pageEntry page ∧
          m'.word page = m.word page) NoHalt m := by
  obtain ⟨k, hk₀⟩ : ∃ k, dirIndex address = k := ⟨_, rfl⟩
  obtain ⟨j, hj₀⟩ : ∃ j, tableIndex address = j := ⟨_, rfl⟩
  have hj : j < 1024 := hj₀ ▸ tableIndex_lt address
  have hpage := h.maps.own_main ho
  have hnamed : named (pageEntry page) = some page := named_pageEntry hpage.lt_pow
  rw [hk₀, hj₀] at habs ⊢
  rw [hk₀] at hk
  unfold putPage
  rw [hk₀, hj₀, wp_bind, wp_get, wp_ite]
  refine ⟨fun hp => ?_, fun hp => ?_⟩
  · obtain ⟨T, hT⟩ : ∃ T, frameOf (m.word 0 k) = T := ⟨_, rfl⟩
    have hd : m.userDir k = some T := Mem.userDir_eq_some.mpr ⟨hk, hp, hT⟩
    obtain ⟨he, hdir, -, hent⟩ := h.storeEntry hd hj rfl rfl rfl (fun _ _ => rfl)
      (h.maps.mapOwned hd hj habs ho hnamed)
    rw [wp_bind, wp_set, hT]
    refine ⟨rfl, he, fun k' _ => congrFun hdir k', hent, ?_⟩
    exact Mem.word_setWord_of_ne fun hpT => (h.maps.dir_fresh hd).1 (hpT ▸ ho)
  · have hd : m.userDir k = none := (Mem.userDir_eq_none hk).mpr (by simpa using hp)
    rw [wp_bind]
    refine wp_post (wp_getFreePage h) fun r m₁ hr => ?_
    cases r with
    | none => exact hr
    | some T =>
      obtain ⟨hT, h0, rfl⟩ := hr
      obtain ⟨he, hmaps⟩ := h.placeTable (S := OneEntry k j) hT h0 hk hd
      obtain ⟨m₁, hm₁⟩ : ∃ m₁, (m.takePage T).setWord 0 k (pageEntry T) = m₁ := ⟨_, rfl⟩
      have hpT : page ≠ T := fun hpT => (h.maps.of_count_zero hT h0).2.2 (hpT ▸ ho)
      have hpage₁ : m₁.word page = m.word page := by
        have := hpage.le
        rw [← hm₁, Mem.word_setWord_of_ne (by omega), Mem.takePage, Mem.word_setFrame, if_neg hpT,
          Mem.setMap_word]
      rw [wp_bind, wp_modify, hm₁, wp_bind, wp_modify]
      rw [hm₁] at he hmaps
      have hdir₁ : ∀ k', m₁.userDir k' = if k' = k then some T else m.userDir k' := fun k' => by
        rw [← Mem.maps_dir, hmaps, Maps.setDir_dir]
        rfl
      have hd₁ : m₁.userDir k = some T := by rw [hdir₁, if_pos rfl]
      have habs₁ : named (m₁.userEntry k j) = none := by
        rw [← Mem.maps_entry, hmaps]
        exact habs
      obtain ⟨he₂, hdir₂, -, hent₂⟩ := he.ok.storeEntry hd₁ hj rfl rfl rfl (fun _ _ => rfl)
        (he.ok.maps.mapOwned hd₁ hj habs₁ ho hnamed)
      refine ⟨rfl, he.trans he₂, fun k' hk' => ?_, hent₂, ?_⟩
      · rw [hdir₂, hdir₁, if_neg hk']
      · rw [Mem.word_setWord_of_ne hpT, hpage₁]

/-! ### Write faults -/

/-- The page is counted, and counted once. -/
def Sole (m : Mem) (f : ℕ) : Prop := 256 ≤ f ∧ m.memMap (mapNr f) = 1

/-- What a write fault does to the entry that faulted. -/
structure Private (A : Arena) (own : Finset ℕ) (k j f : ℕ) (m m' : Mem) : Prop where
  eff : Eff A own (OneEntry k j) m m'
  dirs : m'.userDir = m.userDir
  writable : writable (m'.userEntry k j) = true
  copied : ∃ g, named (m'.userEntry k j) = some g ∧ m'.word g = m.word f
  /-- The entry of a copy is a new one: of the dirty bit nothing is left. -/
  bits : Sole m f ∧ m'.userEntry k j = setRw (m.userEntry k j) ∨
    ¬Sole m f ∧ ∃ g, m'.userEntry k j = pageEntry g

/-- **`un_wp_page`**: the entry becomes writable. It names the frame it named, if
nothing else does, or else a copy of it. -/
theorem wp_unWpPage (h : MemOk A own m) (hr : Resides cur m) (hd : m.userDir k = some T)
    (hj : j < 1024) (hn : named (m.userEntry k j) = some f) :
    wp (unWpPage cur T j) (fun _ m' => Private A own k j f m m') (Leaves A own cur m) m := by
  have hent : m.userEntry k j = m.word T j := Mem.userEntry_of_dir hd hj
  have hf : frameOf (m.word T j) = f := (named_eq_some.mp (hent ▸ hn)).2
  have hT := h.table_le hd
  have hfT : f ≠ T := fun he => (h.maps.dir_fresh hd).2 k j (he ▸ hn)
  unfold unWpPage
  rw [wp_bind, wp_get, hf, lowFrame, wp_ite]
  refine ⟨fun hone => ?_, fun hshared => ?_⟩
  · -- nothing else names the frame
    have hmain : A.Main f := (h.maps.entry_main hn).resolve_left (by omega)
    have hflags := h.maps.setFlags (w := setRw (m.word T j))
      (by rw [Mem.maps_entry, hent, named_setRw]) hn
      fun _ => Or.inr ⟨hmain, by rw [Mem.maps_count hone.1, hone.2]⟩
    obtain ⟨he, hdir, -, hent'⟩ := h.storeEntry hd hj rfl rfl rfl (fun _ _ => rfl) hflags
    refine ⟨he, hdir, ?_, ⟨f, ?_, Mem.word_setWord_of_ne hfT⟩, Or.inl ⟨hone, ?_⟩⟩
    · rw [hent', writable_setRw]
    · rw [hent', named_setRw, ← hent, hn]
    · rw [hent', hent]
  · rw [wp_bind]
    refine wp_mono (wp_getFreePage h) (fun r m₁ hm₁ => ?_) fun _ _ he => he.elim
    cases r with
    | none =>
      obtain ⟨rfl, hfull⟩ := hm₁
      exact wp_oom_full h hr hfull
    | some g =>
      obtain ⟨hg, h0, rfl⟩ := hm₁
      obtain ⟨he, hmaps⟩ := h.takePage (S := OneEntry k j) hg h0
      have hge := hg.le
      obtain ⟨hng, hndg, hog⟩ := h.maps.of_count_zero hg h0
      have hfg : f ≠ g := fun hfg => hng k j (hfg ▸ hn)
      have hgT : g ≠ T := fun hgT => hndg k (hgT ▸ hd)
      have hword : ∀ x, x ≠ g → (m.takePage g).word x = m.word x := fun x hx => by
        rw [Mem.takePage, Mem.word_setFrame, if_neg hx, Mem.setMap_word]
      have hdir₁ : (m.takePage g).userDir = m.userDir := congrArg Maps.dir hmaps
      have hent₁ : (m.takePage g).userEntry = m.userEntry := congrArg Maps.entry hmaps
      have hd₁ : (m.takePage g).userDir k = some T := hdir₁ ▸ hd
      have hn₁ : named ((m.takePage g).userEntry k j) = some f := hent₁ ▸ hn
      have hset : Finset.erase (insert g own) g = own := Finset.erase_insert hog
      -- the entry is stored, then the page copied, from whatever the counters are
      have finish : ∀ m₁ : Mem, m₁.word = (m.takePage g).word →
          m₁.highMemory = m.highMemory → m₁.task = m.task →
          (∀ n, ¬A.Main (n + 256) → m₁.memMap n = (m.takePage g).memMap n) →
          (m₁.maps.setEntry k j (pageEntry g)).Ok A own →
          wp (do
            modify fun m => m.setWord T j (pageEntry g)
            modify fun m => m.setFrame g (m.word f)) (fun _ m' => Private A own k j f m m')
            (Leaves A own cur m) m₁ := by
        intro m₁ hw hhigh htask hres hok
        obtain ⟨he₂, hdir₂, -, hent₂⟩ := he.ok.storeEntry hd₁ hj hw hhigh htask hres hok
        rw [wp_bind, wp_modify, wp_modify]
        obtain ⟨m₂, hm₂⟩ : ∃ m₂, m₁.setWord T j (pageEntry g) = m₂ := ⟨_, rfl⟩
        rw [hm₂] at he₂ hdir₂ hent₂ ⊢
        have hn₂ : named (m₂.userEntry k j) = some g := by rw [hent₂, named_pageEntry hg.lt_pow]
        have hmaps₃ : (m₂.setFrame g (m₂.word f)).maps = m₂.maps :=
          Mem.maps_of_word (fun x hx => by
            rw [Mem.word_setFrame, if_neg]
            rintro rfl
            rcases hx with rfl | ⟨k', hk'⟩
            · omega
            · exact he₂.ok.page_ne_table hn₂ hk') rfl
        have hent₃ : (m₂.setFrame g (m₂.word f)).userEntry = m₂.userEntry :=
          congrArg Maps.entry hmaps₃
        have hdir₃ : (m₂.setFrame g (m₂.word f)).userDir = m₂.userDir := congrArg Maps.dir hmaps₃
        have hword₃ : ∀ x, x ≠ g → (m₂.setFrame g (m₂.word f)).word x = m₂.word x := fun x hx => by
          rw [Mem.word_setFrame, if_neg hx]
        have hkeep := he.trans he₂
        refine ⟨⟨he₂.ok.of_maps (by rw [hmaps₃]; exact he₂.ok.maps) rfl ?_ ?_,
          fun k' j' hS => ⟨?_, fun x hx hle => ?_⟩, hkeep.flags.trans
            (Flags.of_maps hent₃ fun _ _ => rfl), hkeep.task⟩, ?_, ?_, ⟨g, ?_, ?_⟩,
          Or.inr ⟨hshared, g, ?_⟩⟩
        · rw [hword₃ 0 (by omega)]
        · rw [hword₃ 1 (by omega)]
        · rw [hent₃]
          exact (hkeep.keeps k' j' hS).1
        · rw [hword₃ x fun hxg => hng k' j' (hxg ▸ hx)]
          exact (hkeep.keeps k' j' hS).2 x hx hle
        · rw [hdir₃, hdir₂, hdir₁]
        · rw [hent₃, hent₂, writable_pageEntry]
        · rw [hent₃, hn₂]
        · rw [Mem.word_setFrame, if_pos rfl, ← hm₂, Mem.word_setWord_of_ne hfT, hw, hword f hfg]
        · rw [hent₃, hent₂]
      have hnamed : named (pageEntry g) = some g := named_pageEntry hg.lt_pow
      rw [wp_bind, wp_ite]
      refine ⟨fun hle => ?_, fun hlow => ?_⟩
      · -- a counted page: it loses the reference of this entry
        have hmain : A.Main f := (h.maps.entry_main hn).resolve_left (by omega)
        have hpos := he.ok.maps.entryRefs_pos hn₁
        rw [← he.ok.maps.count_page hn₁ hmain] at hpos
        have hcle := he.ok.maps.count_le hmain
        rw [Mem.maps_count hmain.le] at hpos hcle
        have hc : ((m.takePage g).memMap (mapNr f) + 255) % 256 =
            (m.takePage g).maps.count f - 1 := by
          rw [Mem.maps_count hmain.le]
          omega
        rw [wp_modify, hc]
        refine finish _ rfl rfl rfl (Mem.setMap_reserved hmain _) ?_
        rw [Mem.maps_setMap hmain.le]
        have hu := he.ok.maps.unmap hd₁ hj hn₁ hmain
        have hm := hu.mapOwned (f := g) (w := pageEntry g) (k := k) (j := j) (T := T) hd₁ hj ?_
          (Finset.mem_insert_self g own) hnamed
        · rwa [Maps.setEntry_setEntry, hset] at hm
        · rw [Maps.setEntry_entry, if_pos ⟨rfl, rfl⟩, named_zero]
      · rw [wp_pure]
        refine finish _ rfl rfl rfl (fun _ _ => rfl) ?_
        have hu := he.ok.maps.unmapLow hd₁ hj fun x hx => by
          rw [Mem.maps_entry, hn₁] at hx
          have := Option.some.inj hx
          omega
        have hm := hu.mapOwned (f := g) (w := pageEntry g) (k := k) (j := j) (T := T) hd₁ hj ?_
          (Finset.mem_insert_self g own) hnamed
        · rwa [Maps.setEntry_setEntry, hset] at hm
        · rw [Maps.setEntry_entry, if_pos ⟨rfl, rfl⟩, named_zero]

/-- **`do_wp_page`**, at an address whose entry is present. -/
theorem wp_doWpPage (h : MemOk A own m) (hr : Resides cur m)
    (hn : named (m.userEntry (dirIndex address) (tableIndex address)) = some f) :
    wp (doWpPage cur address)
      (fun _ m' => Private A own (dirIndex address) (tableIndex address) f m m')
      (Leaves A own cur m) m := by
  obtain ⟨⟨T, hT⟩, hj⟩ := h.maps.entry_user hn
  unfold doWpPage
  rw [wp_bind, wp_get, (Mem.userDir_eq_some.mp hT).2.2]
  exact wp_unWpPage h hr hT hj hn

/-- **`write_verify`** does the same before the kernel writes for the task, and
nothing where there is nothing to do. -/
theorem wp_writeVerify (h : MemOk A own m) (hr : Resides cur m) (ha : dirIndex address ∈ userDirs) :
    wp (writeVerify cur address) (fun _ m' => m' = m ∨
      ∃ f, named (m.userEntry (dirIndex address) (tableIndex address)) = some f ∧
        Private A own (dirIndex address) (tableIndex address) f m m') (Leaves A own cur m) m := by
  unfold writeVerify
  rw [wp_bind, wp_get, wp_ite]
  refine ⟨fun hp => wp_ite.mpr ⟨fun hw => ?_, fun _ => Or.inl rfl⟩, fun _ => Or.inl rfl⟩
  have hd : m.userDir (dirIndex address) = some (frameOf (m.word 0 (dirIndex address))) :=
    Mem.userDir_eq_some.mpr ⟨ha, hp, rfl⟩
  have hn := named_of_present hw.1
  rw [← Mem.userEntry_of_dir hd (tableIndex_lt address)] at hn
  exact wp_post (wp_unWpPage h hr hd (tableIndex_lt address) hn) fun _ _ hp => Or.inr ⟨_, hn, hp⟩

/-! ### Not-present faults -/

/-- What a not-present fault does to the entry that faulted. -/
structure Filled (A : Arena) (own : Finset ℕ) (k j : ℕ) (m m' : Mem) : Prop where
  eff : Eff A own (OneEntry k j) m m'
  dirs : ∀ k', k' ≠ k → m'.userDir k' = m.userDir k'
  mapped : ∃ g, named (m'.userEntry k j) = some g ∧ 256 ≤ g

/-- The entries of an address of task `cur` lie in its slot. -/
theorem Resides.oneSlot (hr : Resides cur m) (ha : Mine cur address m) (k j : ℕ)
    (hS : OneEntry (Mm.dirIndex address) (tableIndex address) k j) : OneSlot cur k j := by
  have := (hr.dirIndex ha).1
  have := hr.dir_lt ha
  rw [OneSlot, hS.1]
  omega

/-- The pages a task takes and has to give back when memory runs out. -/
theorem wp_giveBack {α : Type} {Q : α → Mem → Prop} (hr : Resides cur m)
    (he : Eff A (insert f own) (OneSlot cur) m m') (hdirs : m'.userDir = m.userDir) (hf : f ∉ own)
    (hshort : Short A m) :
    wp (freePage f >>= fun _ => (oom cur : M α)) Q (Leaves A own cur m) m' := by
  rw [wp_bind]
  refine wp_mono (wp_freePage_own he.ok (Finset.mem_insert_self f own)) (fun _ m₂ hm₂ => ?_)
    fun _ _ he => he.elim
  obtain ⟨he₂, hdirs₂⟩ := hm₂
  rw [Finset.erase_insert hf] at he₂
  have hr₂ : Resides cur m₂ := hr.of_dirs (by rw [he₂.task, he.task]) fun d _ _ => by
    rw [hdirs₂, hdirs]
  refine wp_mono (wp_oom (Q := Q) he₂.ok hr₂) (fun _ _ hq => hq) fun e m₃ hm₃ =>
    ⟨hm₃.1, ?_, hshort⟩
  refine Gone.of_eff (he.trans (he₂.mono fun _ _ hS => hS.elim)) (fun k _ => ?_) hm₃.2
  rw [hdirs₂, hdirs]

/-- **The entry names a page that nothing named before.** -/
def Fresh (k j : ℕ) (m m' : Mem) : Prop :=
  ∀ g, named (m'.userEntry k j) = some g → ∀ k' j', named (m.userEntry k' j') ≠ some g

/-- **`get_empty_page`** maps a page of zeros. -/
theorem wp_getEmptyPage (h : MemOk A own m) (hr : Resides cur m) (ha : Mine cur address m)
    (habs : named (m.userEntry (dirIndex address) (tableIndex address)) = none) :
    wp (getEmptyPage cur address) (fun _ m' =>
      Filled A own (dirIndex address) (tableIndex address) m m' ∧
      Fresh (dirIndex address) (tableIndex address) m m' ∧
      ∀ g, named (m'.userEntry (dirIndex address) (tableIndex address)) = some g →
        ∀ w, m'.word g w = 0#32) (Leaves A own cur m) m := by
  unfold getEmptyPage
  rw [wp_bind]
  refine wp_mono (wp_getFreePage h) (fun r m₁ hm₁ => ?_) fun _ _ he => he.elim
  cases r with
  | none =>
    obtain ⟨rfl, hfull⟩ := hm₁
    exact wp_oom_full h hr hfull
  | some f =>
    obtain ⟨hf, h0, rfl⟩ := hm₁
    have hno := (h.maps.of_count_zero hf h0).2.2
    obtain ⟨he, hmaps⟩ := h.takePage (S := OneEntry (dirIndex address) (tableIndex address)) hf h0
    have hdir₁ : (m.takePage f).userDir = m.userDir := congrArg Maps.dir hmaps
    have hent₁ : (m.takePage f).userEntry = m.userEntry := congrArg Maps.entry hmaps
    rw [wp_bind]
    refine wp_mono (wp_putPage he.ok (hr.mem_userDirs ha) (by rw [hent₁, habs])
      (Finset.mem_insert_self f own)) (fun r m₂ hm₂ => ?_) fun _ _ he => he.elim
    cases r with
    | none =>
      obtain ⟨rfl, hfull⟩ := hm₂
      refine wp_giveBack hr (he.mono (hr.oneSlot ha)) hdir₁ hno ⟨f, fun g hg hgf => ?_⟩
      have := hfull g hg
      rwa [hmaps, Maps.setCount_count, if_neg hgf] at this
    | some _ =>
      obtain ⟨-, he₂, hdirs₂, hent₂, hw₂⟩ := hm₂
      have hn₂ : named (m₂.userEntry (dirIndex address) (tableIndex address)) = some f := by
        rw [hent₂, named_pageEntry hf.lt_pow]
      rw [Finset.erase_insert hno] at he₂
      refine ⟨⟨he.trans he₂, fun k hk => by rw [hdirs₂ k hk, hdir₁], f, hn₂, hf.le⟩,
        fun g hg => ?_, fun g hg w => ?_⟩ <;> obtain rfl := Option.some.inj (hn₂.symm.trans hg)
      · exact (h.maps.of_count_zero hf h0).1
      · rw [hw₂, Mem.takePage, Mem.word_setFrame, if_pos rfl]

/-- An offset into the segments of a task is less than 64 MB. -/
theorem Resides.offset_lt (hr : Resides n m) (ha : Mine n (n * 0x4000000 + address) m) :
    address < 0x4000000 := by
  have := hr.slot.limit_le
  have := ha.2
  omega

/-- The directory entry `try_to_share` computes is that of the address. -/
theorem InSlot.shareDir (hs : InSlot n (m.task n)) (ha : address < 0x4000000) (_ : n < 64) :
    Mm.dirIndex address + Mm.dirIndex (m.task n).startCode =
      Mm.dirIndex (n * 0x4000000 + address) := by
  rw [hs.start, dirIndex, dirIndex, dirIndex]
  omega

/-- **Task `p` has a page to share**: at the offset `address` it maps a clean page that
lies above `LOW_MEM`. -/
def Offers (m : Mem) (p address f : ℕ) : Prop :=
  named (m.userEntry (dirIndex (p * 0x4000000 + address)) (tableIndex address)) = some f ∧
    dirty (m.userEntry (dirIndex (p * 0x4000000 + address)) (tableIndex address)) = false ∧ 256 ≤ f

/-- **`try_to_share`** with task `p` refuses and does nothing, or maps the page of
`p` write-protected in both; it refuses only what is not offered. -/
theorem wp_tryToShare {p : ℕ} (h : MemOk A own m) (hr : Resides cur m)
    (ha : Mine cur (cur * 0x4000000 + address) m) (hp : 1 ≤ p) (hp' : p < 64) (hpc : p ≠ cur)
    (hslot : InSlot p (m.task p)) (habs : named (m.userEntry
      (dirIndex (cur * 0x4000000 + address)) (tableIndex (cur * 0x4000000 + address))) = none) :
    wp (tryToShare cur address p) (fun r m' => if r then
      Filled A own (dirIndex (cur * 0x4000000 + address))
        (tableIndex (cur * 0x4000000 + address)) m m' ∧
        ∃ f, Offers m p address f ∧ named (m'.userEntry (dirIndex (cur * 0x4000000 + address))
          (tableIndex (cur * 0x4000000 + address))) = some f
      else m' = m ∧ ∀ f, ¬Offers m p address f) (Leaves A own cur m) m := by
  have hone := hr.one_le
  have hlt := hr.lt
  have hadd := hr.offset_lt ha
  obtain ⟨k, hk₀⟩ : ∃ k, dirIndex (cur * 0x4000000 + address) = k := ⟨_, rfl⟩
  obtain ⟨j, hj₀⟩ : ∃ j, tableIndex (cur * 0x4000000 + address) = j := ⟨_, rfl⟩
  have hk : k ∈ userDirs := hk₀ ▸ hr.mem_userDirs ha
  have hj : j < 1024 := hj₀ ▸ tableIndex_lt _
  have hto : dirIndex address + dirIndex (m.task cur).startCode = k :=
    (hr.slot.shareDir hadd hlt).trans hk₀
  obtain ⟨kp, hkp⟩ : ∃ kp, dirIndex address + dirIndex (m.task p).startCode = kp := ⟨_, rfl⟩
  have hkp' : kp ∈ userDirs ∧ kp % 16 = k % 16 ∧ kp ≠ k := by
    rw [hslot.start, dirIndex, dirIndex] at hkp
    rw [hr.slot.start, dirIndex, dirIndex] at hto
    rw [mem_userDirs]
    omega
  have hidx : tableIndex address = j := by
    rw [← hj₀, tableIndex, tableIndex]
    omega
  -- what an offer amounts to in the words of the tables
  have hoffer : ∀ f, Offers m p address f ↔ present (m.word 0 kp) = true ∧
      present (m.word (frameOf (m.word 0 kp)) j) = true ∧
      dirty (m.word (frameOf (m.word 0 kp)) j) = false ∧
      frameOf (m.word (frameOf (m.word 0 kp)) j) = f ∧ 256 ≤ f := by
    intro f
    unfold Offers
    rw [← hslot.shareDir hadd hp', hkp, hidx]
    cases hd : m.userDir kp with
    | none =>
      rw [Mem.userEntry_of_none hd, named_zero, (Mem.userDir_eq_none hkp'.1).mp hd]
      simp
    | some F =>
      obtain ⟨-, hpr, hF⟩ := Mem.userDir_eq_some.mp hd
      rw [Mem.userEntry_of_dir hd hj, named_eq_some, hpr, hF]
      simp only [true_and]
      tauto
  rw [hk₀, hj₀] at habs ⊢
  unfold tryToShare
  rw [wp_bind, wp_get, hto, hkp, hidx, wp_ite]
  refine ⟨fun hpr => ⟨rfl, fun f hf => hpr ((hoffer f).mp hf).1⟩, fun hpr => wp_ite.mpr
    ⟨fun hclean => ⟨rfl, fun f hf => hclean ⟨((hoffer f).mp hf).2.1, by
      rw [((hoffer f).mp hf).2.2.1]
      simp⟩⟩, fun hclean => wp_ite.mpr ⟨fun hmem => ⟨rfl, fun f hf => ?_⟩, fun hmem => ?_⟩⟩⟩
  · obtain ⟨-, -, -, hff, hge⟩ := (hoffer f).mp hf
    have hmain := (h.maps.entry_main hf.1).resolve_left (by omega)
    have := hmain.2
    rw [hff, h.high, lowFrame] at hmem
    omega
  rw [not_not] at hpr hclean
  rw [not_or, not_le, not_lt, lowFrame] at hmem
  obtain ⟨F, hF⟩ : ∃ F, frameOf (m.word 0 kp) = F := ⟨_, rfl⟩
  rw [hF] at hclean hmem
  have hdp : m.userDir kp = some F := Mem.userDir_eq_some.mpr ⟨hkp'.1, hpr, hF⟩
  obtain ⟨f, hf⟩ : ∃ f, frameOf (m.word F j) = f := ⟨_, rfl⟩
  have hnp : named (m.userEntry kp j) = some f := by
    rw [Mem.userEntry_of_dir hdp hj, named_of_present hclean.1, hf]
  have hmain : A.Main f := (h.maps.entry_main hnp).resolve_left (by omega)
  have hoff : Offers m p address f := (hoffer f).mpr
    ⟨hpr, by rw [hF, hclean.1], by rw [hF]; simpa using hclean.2, by rw [hF, hf], hmain.le⟩
  rw [hF, hf]
  -- once the table is there, the page is shared
  have share : ∀ m₁ : Mem, MemOk A own m₁ → m₁.userEntry = m.userEntry → m₁.userDir kp = some F →
      (∃ T, m₁.userDir k = some T) →
      wp (do
        let m ← get
        let to_ := frameOf (m.word 0 k)
        if present (m.word to_ j) then throw (.panic "try_to_share: to_page already exists")
        else do
          modify fun m => m.setWord F j (clearRw (m.word F j))
          modify fun m => m.setWord to_ j (m.word F j)
          modify fun m => m.setMap (mapNr f) ((m.memMap (mapNr f) + 1) % 256)
          pure true) (fun r m' => r = true ∧ Eff A own (OneEntry k j) m₁ m' ∧
            m'.userDir = m₁.userDir ∧ named (m'.userEntry k j) = some f) NoHalt m₁ := by
    rintro m₁ h₁ hent₁ hdp₁ ⟨T, hT⟩
    have habs₁ : named (m₁.userEntry k j) = none := hent₁ ▸ habs
    have hnp₁ : named (m₁.userEntry kp j) = some f := hent₁ ▸ hnp
    have hnot : ¬present (m₁.word T j) = true := by
      rw [← Mem.userEntry_of_dir hT hj, Bool.not_eq_true, ← named_eq_none, habs₁]
    obtain ⟨he, hdir, hent⟩ :=
      h₁.shareEntry hdp₁ hT hj hnp₁ hmain habs₁ hkp'.2.2 hkp'.2.1
    rw [wp_bind, wp_get, (Mem.userDir_eq_some.mp hT).2.2, if_neg hnot, wp_bind, wp_modify, wp_bind,
      wp_modify, wp_bind, wp_modify, wp_pure]
    dsimp only [Mem.setWord_memMap]
    rw [Mem.word_setWord_self]
    refine ⟨rfl, he, hdir, ?_⟩
    rw [hent, named_clearRw, ← Mem.userEntry_of_dir hdp₁ hj, hnp₁]
  rw [wp_bind, wp_ite]
  refine ⟨fun hpr₂ => ?_, fun hpr₂ => ?_⟩
  · rw [wp_pure]
    refine wp_mono (share m h rfl hdp ⟨_, Mem.userDir_eq_some.mpr ⟨hk, hpr₂, rfl⟩⟩) ?_
      fun _ _ he => he.elim
    rintro - m' ⟨rfl, he, hdir, hn⟩
    exact ⟨⟨he, fun k' _ => congrFun hdir k', f, hn, hmain.le⟩, f, hoff, hn⟩
  · have hd : m.userDir k = none := (Mem.userDir_eq_none hk).mpr (by simpa using hpr₂)
    rw [wp_bind]
    refine wp_mono (wp_getFreePage h) (fun r m₁ hm₁ => ?_) fun _ _ he => he.elim
    cases r with
    | none =>
      obtain ⟨rfl, hfull⟩ := hm₁
      exact wp_oom_full h hr hfull
    | some T =>
      obtain ⟨hT, h0, rfl⟩ := hm₁
      obtain ⟨he, hmaps⟩ := h.placeTable (S := OneEntry k j) hT h0 hk hd
      rw [wp_modify]
      obtain ⟨m₁, hm₁⟩ : ∃ m₁, (m.takePage T).setWord 0 k (pageEntry T) = m₁ := ⟨_, rfl⟩
      rw [hm₁] at he hmaps ⊢
      have hdir₁ : ∀ k', m₁.userDir k' = if k' = k then some T else m.userDir k' := fun k' => by
        rw [← Mem.maps_dir, hmaps, Maps.setDir_dir]
        rfl
      refine wp_mono (share m₁ he.ok (congrArg Maps.entry hmaps) ?_ ⟨T, ?_⟩) ?_
        fun _ _ he => he.elim
      · rw [hdir₁, if_neg hkp'.2.2, hdp]
      · rw [hdir₁, if_pos rfl]
      · rintro - m' ⟨rfl, he', hdir, hn⟩
        exact ⟨⟨he.trans he', fun k' hk' => by rw [hdir, hdir₁, if_neg hk'], f, hn, hmain.le⟩,
          f, hoff, hn⟩

/-- Every task there is has its segments in its own slot. -/
def InSlots (m : Mem) : Prop :=
  ∀ n, 1 ≤ n → n < 64 → (m.task n).inUse = true → InSlot n (m.task n)

/-- A task `share_page` asks: another one that runs the same executable. -/
def Partner (m : Mem) (cur p : ℕ) : Prop :=
  (m.task p).inUse = true ∧ p ≠ cur ∧ (m.task p).executable = (m.task cur).executable

/-- **Task `q` shares the page `f`**: it is the last one up to `p` that has it to offer. -/
def Shares (m : Mem) (cur address p q f : ℕ) : Prop :=
  1 ≤ q ∧ q ≤ p ∧ Partner m cur q ∧ Offers m q address f ∧
    ∀ q', q < q' → q' ≤ p → Partner m cur q' → ∀ f', ¬Offers m q' address f'

/-- Where a task offers nothing, the tasks before it decide. -/
theorem Shares.succ {p q : ℕ} (h : Shares m cur address p q f)
    (hno : Partner m cur (p + 1) → ∀ f, ¬Offers m (p + 1) address f) :
    Shares m cur address (p + 1) q f := by
  obtain ⟨h1, h2, hpart, hoff, hlast⟩ := h
  refine ⟨h1, by omega, hpart, hoff, fun q' hq hq' => ?_⟩
  rcases Nat.lt_succ_iff_lt_or_eq.mp (Nat.lt_succ_of_le hq') with hlt | rfl
  · exact hlast q' hq (by omega)
  · exact hno

theorem Shares.pred {p q : ℕ} (h : Shares m cur address (p + 1) q f) (hq : q ≤ p) :
    Shares m cur address p q f :=
  ⟨h.1, hq, h.2.2.1, h.2.2.2.1, fun q' hlt hle => h.2.2.2.2 q' hlt (by omega)⟩

/-- The loop of `share_page` stops at the first task that shares. -/
theorem wp_sharePageFrom (h : MemOk A own m) (hr : Resides cur m)
    (ha : Mine cur (cur * 0x4000000 + address) m) (hslots : InSlots m)
    (habs : named (m.userEntry (dirIndex (cur * 0x4000000 + address))
      (tableIndex (cur * 0x4000000 + address))) = none) {p : ℕ} (hp : p < 64) :
    wp (sharePageFrom cur address p) (fun r m' => if r then
      Filled A own (dirIndex (cur * 0x4000000 + address))
        (tableIndex (cur * 0x4000000 + address)) m m' ∧
        ∃ q f, Shares m cur address p q f ∧
          named (m'.userEntry (dirIndex (cur * 0x4000000 + address))
            (tableIndex (cur * 0x4000000 + address))) = some f
      else m' = m ∧ ∀ q f, ¬Shares m cur address p q f) (Leaves A own cur m) m := by
  induction p with
  | zero => exact ⟨rfl, fun q f hs => absurd (hs.1.trans hs.2.1) (by omega)⟩
  | succ p ih =>
    have ih := ih (by omega)
    -- a task that is passed over offers nothing
    have pass : (Partner m cur (p + 1) → ∀ f, ¬Offers m (p + 1) address f) →
        wp (sharePageFrom cur address p) (fun r m' => if r then
          Filled A own (dirIndex (cur * 0x4000000 + address))
            (tableIndex (cur * 0x4000000 + address)) m m' ∧
            ∃ q f, Shares m cur address (p + 1) q f ∧
              named (m'.userEntry (dirIndex (cur * 0x4000000 + address))
                (tableIndex (cur * 0x4000000 + address))) = some f
          else m' = m ∧ ∀ q f, ¬Shares m cur address (p + 1) q f) (Leaves A own cur m) m :=
      fun hno => wp_post ih fun r m₁ hm₁ => by
        cases r with
        | true =>
          obtain ⟨hf, q, f, hs, hn⟩ := hm₁
          exact ⟨hf, q, f, hs.succ hno, hn⟩
        | false =>
          refine ⟨hm₁.1, fun q f hs => ?_⟩
          rcases Nat.lt_succ_iff_lt_or_eq.mp (Nat.lt_succ_of_le hs.2.1) with hlt | rfl
          · exact hm₁.2 q f (hs.pred (by omega))
          · exact hno hs.2.2.1 f hs.2.2.2.1
    rw [sharePageFrom, wp_bind, wp_get, wp_ite]
    refine ⟨fun huse => pass fun hp => absurd hp.1 huse, fun huse => wp_ite.mpr
      ⟨fun hcur => pass fun hp => absurd hcur.symm hp.2.1, fun hne => wp_ite.mpr
        ⟨fun hexe => pass fun hp => absurd hp.2.2 hexe, fun hexe => ?_⟩⟩⟩
    rw [not_not] at huse hexe
    rw [wp_bind]
    refine wp_post (wp_tryToShare h hr ha (Nat.succ_pos p) hp (Ne.symm hne)
      (hslots _ (Nat.succ_pos p) hp huse) habs) fun r m₁ hm₁ => ?_
    cases r with
    | true =>
      obtain ⟨hf, f, hoff, hn⟩ := hm₁
      exact ⟨hf, p + 1, f, ⟨Nat.succ_pos p, le_rfl, ⟨huse, Ne.symm hne, hexe⟩, hoff,
        fun q' hq hq' => by omega⟩, hn⟩
    | false =>
      obtain ⟨rfl, hno⟩ := hm₁
      exact pass fun _ => hno

/-- **A fault that is served by sharing**: `share_page` finds that task `q` has the page
`f` to share. -/
def Served (m : Mem) (cur address iCount q f : ℕ) : Prop :=
  (m.task cur).executable ≠ none ∧ 2 ≤ iCount ∧ Shares m cur address (nrTasks - 1) q f

/-- **`share_page`** likewise. -/
theorem wp_sharePage (iCount : ℕ) (h : MemOk A own m) (hr : Resides cur m)
    (ha : Mine cur (cur * 0x4000000 + address) m) (hslots : InSlots m)
    (habs : named (m.userEntry (dirIndex (cur * 0x4000000 + address))
      (tableIndex (cur * 0x4000000 + address))) = none) :
    wp (sharePage cur address iCount) (fun r m' => if r then
      Filled A own (dirIndex (cur * 0x4000000 + address))
        (tableIndex (cur * 0x4000000 + address)) m m' ∧
        ∃ q f, Served m cur address iCount q f ∧
          named (m'.userEntry (dirIndex (cur * 0x4000000 + address))
            (tableIndex (cur * 0x4000000 + address))) = some f
      else m' = m ∧ ∀ q f, ¬Served m cur address iCount q f) (Leaves A own cur m) m := by
  unfold sharePage
  rw [wp_bind, wp_get, wp_ite]
  refine ⟨fun hexe => ⟨rfl, fun q f hs => hs.1 hexe⟩, fun hexe => wp_ite.mpr
    ⟨fun hcount => ⟨rfl, fun q f hs => by have := hs.2.1; omega⟩, fun hcount => ?_⟩⟩
  refine wp_post (wp_sharePageFrom h hr ha hslots habs (by rw [nrTasks]; omega))
    fun r m₁ hm₁ => ?_
  cases r with
  | true =>
    obtain ⟨hf, q, f, hs, hn⟩ := hm₁
    exact ⟨hf, q, f, ⟨hexe, by omega, hs⟩, hn⟩
  | false => exact ⟨hm₁.1, fun q f hs => hm₁.2 q f hs.2.2⟩

/-- The page a faulting address lies in has the entries of that address. -/
theorem dirIndex_page (address : ℕ) : dirIndex (address / 4096 * 4096) = dirIndex address := by
  rw [dirIndex, dirIndex]
  omega

theorem tableIndex_page (address : ℕ) :
    tableIndex (address / 4096 * 4096) = tableIndex address := by
  rw [tableIndex, tableIndex]
  omega

theorem Mine.page_start (ha : Mine n address m) : Mine n (address / 4096 * 4096) m := by
  rw [Mine] at ha ⊢
  omega

/-- The offset `do_no_page` computes is the offset into the slot. -/
theorem Resides.offset (hr : Resides n m) (ha : Mine n address m) :
    n * 0x4000000 + (address + 2 ^ 32 - (m.task n).startCode) % 2 ^ 32 = address := by
  have := hr.lt
  have := hr.slot.limit_le
  obtain ⟨h1, h2⟩ := ha
  rw [hr.slot.start]
  omega

/-- The offset `do_no_page` looks for in the executable and in other tasks. -/
def pageOffset (m : Mem) (cur address : ℕ) : ℕ :=
  (address / 4096 * 4096 + 2 ^ 32 - (m.task cur).startCode) % 2 ^ 32

/-- **`do_no_page`** fills the entry, with a new page or one that is shared, or takes the
page to read the executable into. -/
theorem wp_doNoPage {iCount : ℕ} (h : MemOk A own m) (hr : Resides cur m)
    (ha : Mine cur address m) (hslots : InSlots m)
    (habs : named (m.userEntry (dirIndex address) (tableIndex address)) = none) :
    wp (doNoPage cur address iCount) (fun r m' => match r with
      | none => Filled A own (dirIndex address) (tableIndex address) m m' ∧
          (Fresh (dirIndex address) (tableIndex address) m m' ∧
              (∀ g, named (m'.userEntry (dirIndex address) (tableIndex address)) = some g →
                ∀ w, m'.word g w = 0#32) ∧
              ((m.task cur).executable = none ∨
                (m.task cur).endData ≤ pageOffset m cur address) ∨
            pageOffset m cur address < (m.task cur).endData ∧
              ∃ q f, Served m cur (pageOffset m cur address) iCount q f ∧
                named (m'.userEntry (dirIndex address) (tableIndex address)) = some f)
      | some page => A.Main page ∧ m.maps.count page = 0 ∧ m' = m.takePage page ∧
          ∀ q f, ¬Served m cur (pageOffset m cur address) iCount q f)
      (Leaves A own cur m) m := by
  have hoff := hr.offset ha.page_start
  unfold doNoPage
  rw [wp_bind, wp_get, wp_ite]
  rw [← dirIndex_page, ← tableIndex_page] at habs ⊢
  refine ⟨fun hanon => ?_, fun hexe => ?_⟩
  · rw [wp_bind]
    exact wp_post (wp_getEmptyPage h hr ha.page_start habs) fun _ m₁ hm₁ =>
      ⟨hm₁.1, Or.inl ⟨hm₁.2.1, hm₁.2.2, hanon⟩⟩
  · rw [not_or, not_le] at hexe
    rw [wp_bind]
    have hshare := wp_sharePage iCount h hr (hoff.symm ▸ ha.page_start) hslots
      (hoff.symm ▸ habs)
    rw [hoff] at hshare
    refine wp_post hshare fun r m₁ hm₁ => ?_
    cases r with
    | true => exact ⟨hm₁.1, Or.inr ⟨hexe.2, hm₁.2⟩⟩
    | false =>
      obtain ⟨rfl, hnot⟩ := hm₁
      rw [if_neg (by simp), wp_bind]
      refine wp_mono (wp_getFreePage h) (fun r m₂ hm₂ => ?_) fun _ _ he => he.elim
      cases r with
      | none =>
        obtain ⟨rfl, hfull⟩ := hm₂
        exact wp_oom_full h hr hfull
      | some page => exact ⟨hm₂.1, hm₂.2.1, hm₂.2.2, hnot⟩

/-- Writing a page the kernel holds changes no mapping. -/
theorem MemOk.setOwned (h : MemOk A own m) (ho : page ∈ own) (ws : ℕ → Word) :
    Eff A own S m (m.setFrame page ws) ∧ (m.setFrame page ws).maps = m.maps := by
  have hge := (h.maps.own_main ho).le
  have hword : ∀ g, g ≠ page → (m.setFrame page ws).word g = m.word g := fun g hg => by
    rw [Mem.word_setFrame, if_neg hg]
  have hmaps : (m.setFrame page ws).maps = m.maps := Mem.maps_of_word (fun g hg => hword g (by
    rintro rfl
    rcases hg with rfl | ⟨k, hk⟩
    · omega
    · exact (h.maps.dir_fresh hk).1 ho)) rfl
  refine ⟨⟨h.of_maps (by rw [hmaps]; exact h.maps) rfl ?_ ?_,
    Keeps.of_maps (congrArg Maps.entry hmaps) fun k j g hg _ => hword g ?_,
    Flags.of_maps (congrArg Maps.entry hmaps) fun _ _ => rfl, rfl⟩, hmaps⟩
  · rw [hword 0 (by omega)]
  · rw [hword 1 (by omega)]
  · rintro rfl
    exact h.maps.own_fresh ho k j hg

/-- **The rest of `do_no_page`** maps the page that has been read. -/
theorem wp_loadPage {content : ℕ → Word} (h : MemOk A own m) (hr : Resides cur m)
    (ha : Mine cur address m)
    (habs : named (m.userEntry (dirIndex address) (tableIndex address)) = none) (ho : page ∈ own) :
    wp (loadPage cur address page content) (fun _ m' =>
      Filled A (own.erase page) (dirIndex address) (tableIndex address) m m' ∧
        Fresh (dirIndex address) (tableIndex address) m m' ∧
        m'.userEntry (dirIndex address) (tableIndex address) = pageEntry page ∧
        ∀ w, m'.word page w =
          keepBytes (content w) ((m.task cur).endData - pageOffset m cur address - 4 * w))
      (Leaves A (own.erase page) cur m) m := by
  rw [← dirIndex_page, ← tableIndex_page] at habs ⊢
  unfold loadPage
  rw [wp_bind, wp_get, wp_bind, wp_set]
  obtain ⟨ws, hws⟩ : ∃ ws : ℕ → Word, (fun j => keepBytes (content j) ((m.task cur).endData -
    (address / 4096 * 4096 + 2 ^ 32 - (m.task cur).startCode) % 2 ^ 32 - 4 * j)) = ws := ⟨_, rfl⟩
  rw [hws]
  obtain ⟨he, hmaps⟩ := h.setOwned (S := OneEntry (dirIndex (address / 4096 * 4096))
    (tableIndex (address / 4096 * 4096))) ho ws
  have hdir₁ : (m.setFrame page ws).userDir = m.userDir := congrArg Maps.dir hmaps
  have hent₁ : (m.setFrame page ws).userEntry = m.userEntry := congrArg Maps.entry hmaps
  have hpage := h.maps.own_main ho
  rw [wp_bind]
  refine wp_mono (wp_putPage he.ok (hr.mem_userDirs ha.page_start)
    (by rw [hent₁, habs]) ho) (fun r m₂ hm₂ => ?_) fun _ _ he => he.elim
  cases r with
  | none =>
    obtain ⟨rfl, hfull⟩ := hm₂
    refine wp_giveBack hr ?_ hdir₁ (Finset.notMem_erase page own) (.of_full fun f hf => ?_)
    · rw [Finset.insert_erase ho]
      exact he.mono (hr.oneSlot ha.page_start)
    · have := hfull f hf
      rwa [hmaps] at this
  | some _ =>
    obtain ⟨-, he₂, hdirs₂, hent₂, hw₂⟩ := hm₂
    have hn₂ : named (m₂.userEntry (dirIndex (address / 4096 * 4096))
        (tableIndex (address / 4096 * 4096))) = some page := by
      rw [hent₂, named_pageEntry hpage.lt_pow]
    refine ⟨⟨he.trans he₂, fun k hk => by rw [hdirs₂ k hk, hdir₁], page, hn₂, hpage.le⟩,
      fun g hg => ?_, hent₂, fun w => ?_⟩
    · obtain rfl := Option.some.inj (hn₂.symm.trans hg)
      exact h.maps.own_fresh ho
    · rw [hw₂, Mem.word_setFrame, if_pos rfl, ← hws, pageOffset]

/-! ### Stores -/

/-- **What a store through an entry does**: the word `i` of the page is `v`, and the entry is
marked. -/
structure Stored (A : Arena) (own : Finset ℕ) (k j f i : ℕ) (v : Word) (m m' : Mem) : Prop where
  ok : MemOk A own m'
  task : m'.task = m.task
  memMap : m'.memMap = m.memMap
  dirs : m'.userDir = m.userDir
  entry : m'.userEntry k j = setDirty (m.userEntry k j)
  others : ∀ k' j', ¬OneEntry k j k' j' → m'.userEntry k' j' = m.userEntry k' j'
  word : m'.word f = Function.update (m.word f) i v
  words : ∀ k' j' g, named (m.userEntry k' j') = some g → g ≠ f → m'.word g = m.word g

/-- No name has changed. -/
theorem Stored.named_eq {i : ℕ} {v : Word} (h : Stored A own k j f i v m m') (k' j' : ℕ) :
    named (m'.userEntry k' j') = named (m.userEntry k' j') := by
  by_cases hS : OneEntry k j k' j'
  · rw [hS.1, hS.2, h.entry, named_setDirty]
  · rw [h.others k' j' hS]

/-- **A store through a present entry**, which the 386 lets the kernel make whatever the write
flag says. -/
theorem wp_store {v : Word} (h : MemOk A own m)
    (hn : named (m.userEntry (dirIndex address) (tableIndex address)) = some f) (hge : 256 ≤ f) :
    wp (userStore address v) (fun _ m' => Stored A own (dirIndex address) (tableIndex address) f
      (address % 4096 / 4) v m m') NoHalt m := by
  obtain ⟨k, hk₀⟩ : ∃ k, dirIndex address = k := ⟨_, rfl⟩
  obtain ⟨j, hj₀⟩ : ∃ j, tableIndex address = j := ⟨_, rfl⟩
  rw [hk₀, hj₀] at hn ⊢
  obtain ⟨⟨T, hT⟩, hj⟩ := h.maps.entry_user hn
  have hent : m.userEntry k j = m.word T j := Mem.userEntry_of_dir hT hj
  have hf : frameOf (m.word T j) = f := (named_eq_some.mp (hent ▸ hn)).2
  have hfT : f ≠ T := fun he => (h.maps.dir_fresh hT).2 k j (he ▸ hn)
  have hflags := h.maps.setFlags (w := setDirty (m.word T j))
    (by rw [Mem.maps_entry, hent, named_setDirty]) hn
    (by rw [writable_setDirty, Mem.maps_entry, hent]; exact Or.inl)
  obtain ⟨he, hdir, -, hent₁⟩ := h.storeEntry hT hj rfl rfl rfl (fun _ _ => rfl) hflags
  have hmaps₁ := h.setWord_table hT hj (setDirty (m.word T j))
  unfold userStore
  rw [wp_bind, wp_get, hk₀, hj₀, (Mem.userDir_eq_some.mp hT).2.2, wp_set, hf]
  obtain ⟨m₁, hm₁⟩ : ∃ m₁, m.setWord T j (setDirty (m.word T j)) = m₁ := ⟨_, rfl⟩
  rw [hm₁] at he hdir hent₁ hmaps₁ ⊢
  have hn₁ : named (m₁.userEntry k j) = some f := by rw [hent₁, named_setDirty, ← hent, hn]
  have hword₂ : ∀ g, g ≠ f → (m₁.setWord f (address % 4096 / 4) v).word g = m₁.word g :=
    fun g hg => Mem.word_setWord_of_ne hg
  have hmaps₂ : (m₁.setWord f (address % 4096 / 4) v).maps = m₁.maps :=
    Mem.maps_of_word (fun g hg => hword₂ g (by
      rintro rfl
      rcases hg with rfl | ⟨k', hk'⟩
      · omega
      · exact he.ok.page_ne_table hn₁ hk')) rfl
  have hent₂ : (m₁.setWord f (address % 4096 / 4) v).userEntry = m₁.userEntry :=
    congrArg Maps.entry hmaps₂
  refine ⟨he.ok.of_maps (by rw [hmaps₂]; exact he.ok.maps) rfl ?_ ?_, he.task, hm₁ ▸ rfl,
    (congrArg Maps.dir hmaps₂).trans hdir, ?_, fun k' j' hS => ?_, ?_, fun k' j' g hg hgf => ?_⟩
  · rw [hword₂ 0 (by omega)]
  · rw [hword₂ 1 (by omega)]
  · rw [hent₂, hent₁, hent]
  · rw [hent₂, ← Mem.maps_entry, hmaps₁, Maps.setEntry_entry, if_neg (c := k' = k ∧ j' = j) hS,
      Mem.maps_entry]
  · rw [Mem.word_setWord, if_pos rfl, ← hm₁, Mem.word_setWord_of_ne hfT]
  · have hgT : g ≠ T := fun hgT => (h.maps.dir_fresh hT).2 k' j' (hgT ▸ hg)
    rw [hword₂ g hgf, ← hm₁, Mem.word_setWord_of_ne hgT]

end Linux011.Mm

import Linux011.Mm.Machine

/-!
# What the routines of `mm/memory.c` do to the mappings

One specification for each routine: it keeps the machine sound, it leaves
everything outside the entries it is about alone, and it never panics. Callers –
the runs of `Linux011.Mm.Run` and the simulation of `Linux011.Mm.Cow` – cite these
and never look inside a routine.

The loops of `free_page_tables` and `copy_page_tables` carry the invariant from
entry to entry: between two rounds of a loop every counter is right, so a copy
that runs out of memory half way leaves nothing that freeing the slot does not
take back.
-/

namespace Linux011.Mm

/-- **What a piece of code has done**: the machine is sound, with `own` the pages
the kernel holds now, nothing outside the entries `S` has changed but for write flags
that are cleared, and no task structure has. -/
structure Eff (A : Arena) (own : Finset ℕ) (S : ℕ → ℕ → Prop) (m m' : Mem) : Prop where
  ok : MemOk A own m'
  keeps : Keeps S m m'
  flags : Flags A S m m'
  task : m'.task = m.task

/-- The one entry `(k, j)`. -/
def OneEntry (k j : ℕ) : ℕ → ℕ → Prop := fun k' j' => k' = k ∧ j' = j

/-- The entries under one directory entry. -/
def OneDir (k : ℕ) : ℕ → ℕ → Prop := fun k' _ => k' = k

/-- The entries of one slot. -/
def OneSlot (n : ℕ) : ℕ → ℕ → Prop := fun k' _ => k' / 16 = n

/-- No entry at all. -/
def NoEntry : ℕ → ℕ → Prop := fun _ _ => False

/-- Code that never leaves early. -/
def NoHalt : Halt → Mem → Prop := fun _ _ => False

variable {A : Arena} {own : Finset ℕ} {m m' : Mem} {k j T f : ℕ} {S : ℕ → ℕ → Prop}

namespace Eff

theorem refl (h : MemOk A own m) : Eff A own S m m := ⟨h, Keeps.refl m, Flags.refl m, rfl⟩

theorem trans {own' : Finset ℕ} {m'' : Mem} (h : Eff A own S m m') (h' : Eff A own' S m' m'') :
    Eff A own' S m m'' :=
  ⟨h'.ok, h.keeps.trans h'.keeps, h.flags.trans h'.flags, h'.task.trans h.task⟩

theorem seen (h : Eff A own S m m') (hS : ¬S k j) :
    seen (m'.userEntry k j) = seen (m.userEntry k j) := h.flags.seen hS

theorem mono {S' : ℕ → ℕ → Prop} (h : Eff A own S m m') (hS : ∀ k j, S k j → S' k j) :
    Eff A own S' m m' :=
  ⟨h.ok, h.keeps.mono hS, h.flags.mono hS, h.task⟩

end Eff

/-- A store into a table leaves the other entries alone. -/
theorem Keeps.of_setEntry {w : Word} (hentry : m'.userEntry = (m.maps.setEntry k j w).entry)
    (hw : ∀ g, g ≠ T → m'.word g = m.word g) (hT : ∀ k j, named (m.userEntry k j) ≠ some T) :
    Keeps (OneEntry k j) m m' := by
  intro k' j' hS
  refine ⟨?_, fun g hg _ => hw g fun he => hT k' j' (he ▸ hg)⟩
  rw [hentry, Maps.setEntry_entry, if_neg (c := k' = k ∧ j' = j) hS, Mem.maps_entry]

/-! ### Taking and giving back a page -/

theorem scasb_eq_none {map : ℕ → ℕ} {n : ℕ} (h : scasb map n = none) :
    ∀ i, i < n → map i ≠ 0 := by
  induction n with
  | zero => intro i hi; omega
  | succ n ih =>
    rw [scasb] at h
    by_cases h0 : map n = 0
    · rw [if_pos h0] at h
      simp at h
    · rw [if_neg h0] at h
      intro i hi
      rcases Nat.lt_succ_iff_lt_or_eq.mp hi with hlt | rfl
      · exact ih h i hlt
      · exact h0

theorem scasb_eq_some {map : ℕ → ℕ} {n i : ℕ} (h : scasb map n = some i) : i < n ∧ map i = 0 := by
  induction n with
  | zero => simp [scasb] at h
  | succ n ih =>
    rw [scasb] at h
    by_cases h0 : map n = 0
    · rw [if_pos h0] at h
      obtain rfl := Option.some.inj h
      exact ⟨Nat.lt_succ_self _, h0⟩
    · rw [if_neg h0] at h
      exact ⟨(ih h).1.trans (Nat.lt_succ_self n), (ih h).2⟩

/-- **`get_free_page`** fails only when no page of main memory is free, and
otherwise takes a free one. -/
theorem wp_getFreePage (h : MemOk A own m) :
    wp getFreePage (fun r m' => match r with
      | none => m' = m ∧ ∀ f, A.Main f → m.maps.count f ≠ 0
      | some f => A.Main f ∧ m.maps.count f = 0 ∧ m' = m.takePage f) NoHalt m := by
  unfold getFreePage
  rw [wp_bind, wp_get]
  cases hs : scasb m.memMap pagingPages with
  | none =>
    refine ⟨rfl, fun f hf => ?_⟩
    rw [Mem.maps_count hf.le]
    refine scasb_eq_none hs (mapNr f) ?_
    have := hf.lt
    have := hf.le
    rw [mapNr, lowFrame, pagingPages]
    omega
  | some n =>
    obtain ⟨hn, h0⟩ := scasb_eq_some hs
    rw [pagingPages] at hn
    have hmap : mapNr (lowFrame + n) = n := by rw [mapNr, lowFrame]; omega
    have hlow : 256 ≤ lowFrame + n := by rw [lowFrame]; omega
    have hc : m.maps.count (lowFrame + n) = 0 := by rw [Mem.maps_count hlow, hmap, h0]
    refine ⟨?_, hc, ?_⟩
    · by_contra hf
      exact h.maps.reserved _ hlow (by rw [lowFrame]; omega) hf hc
    · rw [Mem.takePage, hmap]

/-- What taking a free page does. -/
theorem MemOk.takePage (h : MemOk A own m) (hf : A.Main f) (h0 : m.maps.count f = 0) :
    Eff A (insert f own) S m (m.takePage f) ∧ (m.takePage f).maps = m.maps.setCount f 1 := by
  obtain ⟨hne, hnd, -⟩ := h.maps.of_count_zero hf h0
  have hmaps : (m.takePage f).maps = m.maps.setCount f 1 := by
    rw [← Mem.maps_setMap hf.le 1]
    refine Mem.maps_of_word (fun g hg => ?_) rfl
    rw [Mem.takePage, Mem.word_setFrame, if_neg]
    rintro rfl
    rcases hg with rfl | ⟨k, hk⟩
    · have := hf.le
      omega
    · exact hnd k hk
  have hword : ∀ g, g ≠ f → (m.takePage f).word g = m.word g := fun g hg => by
    rw [Mem.takePage, Mem.word_setFrame, if_neg hg, Mem.setMap_word]
  have hent : (m.takePage f).userEntry = m.userEntry := congrArg Maps.entry hmaps
  refine ⟨⟨h.of_maps ?_ rfl ?_ ?_, Keeps.of_maps hent fun k j g hg _ => ?_,
    Flags.of_maps hent (Mem.setMap_reserved hf 1), rfl⟩, hmaps⟩
  · rw [hmaps]
    exact h.maps.alloc hf h0
  · rw [hword 0 (by have := hf.le; omega)]
  · rw [hword 1 (by have := hf.le; omega)]
  · exact hword g fun he => hne k j (he ▸ hg)

/-- `free_page` ignores memory below `LOW_MEM`. -/
theorem freePage_low (hf : f < 256) : freePage f m = .ok () m := by
  unfold freePage
  rw [if_pos (by rw [lowFrame]; exact hf)]
  rfl

/-- **`free_page` of a page that is counted** takes one off its count: neither
panic is reached. -/
theorem freePage_main {c : ℕ} (hhigh : m.highMemory = A.hi * 4096) (hf : A.Main f)
    (hc : m.maps.count f = c + 1) (hle : c < 255) :
    freePage f m = .ok () (m.setMap (mapNr f) c) := by
  have hcm : m.memMap (mapNr f) = c + 1 := by rw [← Mem.maps_count hf.le, hc]
  have hge := hf.le
  have hlt := hf.2
  have h1 : ¬f < lowFrame := by rw [lowFrame]; omega
  have h2 : ¬m.highMemory ≤ f * 4096 := by rw [hhigh]; omega
  have h3 : (c + 1 + 255) % 256 = c := by omega
  unfold freePage
  rw [if_neg h1]
  change (if m.highMemory ≤ f * 4096 then _ else _ : M Unit) m = _
  rw [if_neg h2]
  change (if m.memMap (mapNr f) ≠ 0 then _ else _ : M Unit) _ = _
  rw [if_pos (by omega), hcm, h3]
  rfl

/-- **The kernel gives back a page it holds.** -/
theorem wp_freePage_own (h : MemOk A own m) (ho : f ∈ own) :
    wp (freePage f) (fun _ m' => Eff A (own.erase f) NoEntry m m' ∧ m'.userDir = m.userDir)
      NoHalt m := by
  have hf := h.maps.own_main ho
  refine wp_of_ok (freePage_main h.high hf (h.maps.count_own ho) (by omega))
    ⟨⟨h.of_maps ?_ rfl rfl rfl, Keeps.of_maps rfl fun _ _ _ _ _ => rfl,
      Flags.of_maps rfl (Mem.setMap_reserved hf 0), rfl⟩, rfl⟩
  rw [Mem.maps_setMap hf.le]
  exact h.maps.free ho

/-! ### Storing an entry -/

/-- **A store into a table**, from whatever state the counters have been brought
to: if the mappings that result are sound, so is the machine, and no other entry
has changed. -/
theorem MemOk.storeEntry {own' : Finset ℕ} {w : Word} (h : MemOk A own m)
    (hd : m.userDir k = some T) (hj : j < 1024) (hw : m'.word = m.word)
    (hhigh : m'.highMemory = m.highMemory) (htask : m'.task = m.task)
    (hres : ∀ n, ¬A.Main (n + 256) → m'.memMap n = m.memMap n)
    (hok : (m'.maps.setEntry k j w).Ok A own') :
    Eff A own' (OneEntry k j) m (m'.setWord T j w) ∧ (m'.setWord T j w).userDir = m.userDir ∧
      (m'.setWord T j w).word T = Function.update (m.word T) j w ∧
      (m'.setWord T j w).userEntry k j = w := by
  have hT := h.table_le hd
  have hdir : m'.userDir = m.userDir := by funext k'; rw [Mem.userDir, Mem.userDir, hw]
  have hmaps : (m'.setWord T j w).maps = m'.maps.setEntry k j w :=
    Mem.maps_setWord_table (by rw [hdir, hd]) hj
      (fun hd' => h.maps.dir_inj (by rw [Mem.maps_dir, ← hdir, hd']) hd) (by omega)
  have hent : m'.userEntry = m.userEntry := by
    funext k' j'
    rw [Mem.userEntry, Mem.userEntry, hdir, hw]
  have hword : ∀ g, g ≠ T → (m'.setWord T j w).word g = m.word g := fun g hg => by
    rw [Mem.word_setWord_of_ne hg, hw]
  have hentry : (m'.setWord T j w).userEntry = (m.maps.setEntry k j w).entry := by
    rw [← Mem.maps_entry, hmaps]
    funext k' j'
    rw [Maps.setEntry_entry, Maps.setEntry_entry, Mem.maps_entry, Mem.maps_entry, hent]
  refine ⟨⟨h.of_maps (hmaps ▸ hok) hhigh ?_ ?_, ?_, ⟨fun k' j' hS => Or.inl ?_, hres⟩, htask⟩,
    ?_, ?_, ?_⟩
  · rw [hword 0 (by omega)]
  · rw [hword 1 (by omega)]
  · exact Keeps.of_setEntry (T := T) hentry hword fun k' j' => (h.maps.dir_fresh hd).2 k' j'
  · rw [hentry, Maps.setEntry_entry, if_neg (c := k' = k ∧ j' = j) hS, Mem.maps_entry]
  · rw [← Mem.maps_dir, hmaps, Maps.setEntry_dir, Mem.maps_dir, hdir]
  · rw [Mem.word_setWord, if_pos rfl, hw]
  · rw [hentry, Maps.setEntry_entry, if_pos ⟨rfl, rfl⟩]

/-! ### `free_page_tables` -/

/-- One round of the inner loop clears one entry. -/
theorem wp_freeEntry (h : MemOk A own m) (hd : m.userDir k = some T) (hj : j < 1024) :
    wp (freeEntry T j) (fun _ m' => Eff A own (OneEntry k j) m m' ∧ m'.userDir = m.userDir ∧
      m'.word T = Function.update (m.word T) j 0#32) NoHalt m := by
  have hent : m.userEntry k j = m.word T j := Mem.userEntry_of_dir hd hj
  have store : ∀ m₁ : Mem, m₁.word = m.word → m₁.highMemory = m.highMemory → m₁.task = m.task →
      (∀ n, ¬A.Main (n + 256) → m₁.memMap n = m.memMap n) →
      (m₁.maps.setEntry k j 0#32).Ok A own →
      Eff A own (OneEntry k j) m (m₁.setWord T j 0#32) ∧
        (m₁.setWord T j 0#32).userDir = m.userDir ∧
        (m₁.setWord T j 0#32).word T = Function.update (m.word T) j 0#32 := by
    intro m₁ hw hh ht hres hok
    obtain ⟨he, hdir, hword, -⟩ := h.storeEntry hd hj hw hh ht hres hok
    exact ⟨he, hdir, hword⟩
  unfold freeEntry
  rw [wp_bind, wp_get, wp_bind, wp_ite]
  refine ⟨fun hp => ?_, fun hp => ?_⟩
  · have hn : named (m.userEntry k j) = some (frameOf (m.word T j)) := by
      rw [hent]
      exact named_of_present hp
    rcases h.maps.entry_main hn with hlow | hmain
    · refine wp_of_ok (freePage_low hlow) (store m rfl rfl rfl (fun _ _ => rfl) ?_)
      exact h.maps.unmapLow hd hj fun g hg => by
        rw [Mem.maps_entry, hn] at hg
        rw [← Option.some.inj hg]
        exact hlow
    · have hpos := h.maps.entryRefs_pos hn
      rw [← h.maps.count_page hn hmain] at hpos
      have hle := h.maps.count_le hmain
      obtain ⟨c, hc⟩ := Nat.exists_eq_succ_of_ne_zero hpos.ne'
      refine wp_of_ok (freePage_main h.high hmain hc (by omega)) (store _ rfl rfl rfl
        (Mem.setMap_reserved hmain c) ?_)
      rw [Mem.maps_setMap hmain.le, show c = m.maps.count (frameOf (m.word T j)) - 1 by omega]
      exact h.maps.unmap hd hj hn hmain
  · refine store m rfl rfl rfl (fun _ _ => rfl) (h.maps.unmapLow hd hj fun g hg => ?_)
    rw [Mem.maps_entry, hent, named, if_neg hp] at hg
    simp at hg

/-- **One round of the outer loop** frees one table and what it maps. -/
theorem wp_freeTable (h : MemOk A own m) (hk : k ∈ userDirs) :
    wp (freeTable k) (fun _ m' => Eff A own (OneDir k) m m' ∧ m'.userDir k = none ∧
      ∀ k', k' ≠ k → m'.userDir k' = m.userDir k') NoHalt m := by
  unfold freeTable
  rw [wp_bind, wp_get, wp_ite]
  refine ⟨fun hp => ?_, fun hp => ⟨Eff.refl h, ?_, fun _ _ => rfl⟩⟩
  swap
  · rw [Mem.userDir_eq_none hk]
    simpa using hp
  obtain ⟨T, hT⟩ : ∃ T, frameOf (m.word 0 k) = T := ⟨_, rfl⟩
  have hd : m.userDir k = some T := Mem.userDir_eq_some.mpr ⟨hk, hp, hT⟩
  have hge := h.table_le hd
  rw [wp_bind, hT]
  refine wp_post (wp_forFrom (fun i m' => Eff A own (OneDir k) m m' ∧ m'.userDir = m.userDir ∧
    ∀ j, j < i → m'.word T j = 0#32) ⟨Eff.refl h, rfl, fun j hj => by omega⟩ ?_) ?_
  · rintro i m₁ - hi ⟨he, hdir, hz⟩
    have hd₁ : m₁.userDir k = some T := hdir ▸ hd
    refine wp_post (wp_freeEntry he.ok hd₁ (by omega)) ?_
    rintro - m₂ ⟨he₂, hdir₂, hw⟩
    refine ⟨he.trans (he₂.mono fun k' j' hs => hs.1), hdir₂.trans hdir, fun j hj => ?_⟩
    rw [hw, Function.update_apply]
    split
    · rfl
    · exact hz j (by omega)
  · rintro - m₁ ⟨he, hdir, hz⟩
    have hd₁ : m₁.userDir k = some T := hdir ▸ hd
    have hempty : ∀ j, named (m₁.userEntry k j) = none := fun j => by
      rw [Mem.userEntry, hd₁]
      by_cases hj : j < 1024
      · simp [hj, hz j (by omega)]
      · simp [hj]
    have hframe : frameOf (m₁.word 0 k) = T := (Mem.userDir_eq_some.mp hd₁).2.2
    rw [wp_bind, wp_get, hframe, wp_bind]
    refine wp_of_ok (freePage_main he.ok.high (h.maps.dir_main hd) (he.ok.maps.count_table hd₁)
      (by omega)) ?_
    rw [wp_modify]
    have hclear : ((m₁.setMap (mapNr T) 0).setWord 0 k 0#32).maps =
        (m₁.maps.setCount T 0).setDir k none := by
      rw [← Mem.maps_setMap hge 0]
      exact Mem.maps_clearDir hd₁ (fun {k'} => he.ok.dir_ne_zero) fun j hj => hz j (by omega)
    have hkw := mem_userDirs.mp hk
    have hent : ((m₁.setMap (mapNr T) 0).setWord 0 k 0#32).userEntry = m₁.userEntry :=
      congrArg Maps.entry hclear
    refine ⟨⟨he.ok.of_maps ?_ rfl ?_ ?_, ?_, he.flags.trans (Flags.of_maps hent
      (Mem.setMap_reserved (h.maps.dir_main hd) 0)), he.task⟩, ?_, fun k' hk' => ?_⟩
    · rw [hclear]
      exact he.ok.maps.dropTable hd₁ hempty
    · rw [Mem.word_setWord, if_pos rfl, Function.update_of_ne (by omega), Mem.setMap_word]
    · rw [Mem.word_setWord_of_ne (by omega), Mem.setMap_word]
    · refine he.keeps.trans (Keeps.of_maps hent fun k' j' g hg hle => ?_)
      rw [Mem.word_setWord_of_ne (by omega), Mem.setMap_word]
    · rw [← Mem.maps_dir, hclear, Maps.setDir_dir, if_pos rfl]
    · rw [← Mem.maps_dir, hclear, Maps.setDir_dir, if_neg hk', Maps.setCount_dir, Mem.maps_dir,
        hdir]

/-- **`free_page_tables`** over directory entries of user slots empties them. -/
theorem wp_freePageTables {start size n : ℕ} (h : MemOk A own m) (hstart : start = n * 0x4000000)
    (hn : 1 ≤ n) (hn' : n < 64) (hsize : dirCount size ≤ 16) :
    wp (freePageTables start size) (fun _ m' => Eff A own (OneSlot n) m m' ∧
      (∀ d, d < dirCount size → m'.userDir (16 * n + d) = none) ∧
      (∀ k, ¬(16 * n ≤ k ∧ k < 16 * n + dirCount size) → m'.userDir k = m.userDir k))
      NoHalt m := by
  have hdir : dirIndex start = 16 * n := by rw [dirIndex]; omega
  unfold freePageTables
  rw [if_neg (by omega), if_neg (by omega), hdir]
  refine wp_post (wp_forFrom (fun i m' => Eff A own (OneSlot n) m m' ∧
    (∀ k, 16 * n ≤ k → k < i → m'.userDir k = none) ∧
    (∀ k, ¬(16 * n ≤ k ∧ k < i) → m'.userDir k = m.userDir k))
    ⟨Eff.refl h, fun k _ _ => by omega, fun k _ => rfl⟩ ?_) ?_
  · rintro i m₁ hi hi' ⟨he, hnone, hsame⟩
    refine wp_post (wp_freeTable he.ok (mem_userDirs.mpr ⟨by omega, by omega⟩)) ?_
    rintro - m₂ ⟨he₂, hnone₂, hsame₂⟩
    refine ⟨he.trans (he₂.mono fun k' j' hs => ?_), fun k hk hki => ?_, fun k hk => ?_⟩
    · rw [OneDir] at hs
      rw [OneSlot]
      omega
    · by_cases hkk : k = i
      · rw [hkk, hnone₂]
      · rw [hsame₂ k hkk, hnone k hk (by omega)]
    · rw [hsame₂ k (by omega), hsame k (by omega)]
  · rintro - m₁ ⟨he, hnone, hsame⟩
    exact ⟨he, fun d hd => hnone _ (by omega) (by omega), hsame⟩

/-- **A page comes to be shared**: the entry that names it is write-protected, the absent entry at
the same place of another slot becomes a copy of it, and the page is counted once more. -/
theorem MemOk.shareEntry {k' F : ℕ} (h : MemOk A own m) (hd' : m.userDir k' = some F)
    (hd : m.userDir k = some T) (hj : j < 1024) (hn : named (m.userEntry k' j) = some f)
    (hf : A.Main f) (habs : named (m.userEntry k j) = none) (hne : k' ≠ k)
    (hmod : k' % 16 = k % 16) :
    Eff A own (OneEntry k j) m (((m.setWord F j (clearRw (m.word F j))).setWord T j
        (clearRw (m.word F j))).setMap (mapNr f) ((m.memMap (mapNr f) + 1) % 256)) ∧
      (((m.setWord F j (clearRw (m.word F j))).setWord T j (clearRw (m.word F j))).setMap (mapNr f)
        ((m.memMap (mapNr f) + 1) % 256)).userDir = m.userDir ∧
      (((m.setWord F j (clearRw (m.word F j))).setWord T j (clearRw (m.word F j))).setMap (mapNr f)
        ((m.memMap (mapNr f) + 1) % 256)).userEntry k j = clearRw (m.word F j) := by
  have hF : m.word F j = m.userEntry k' j := (Mem.userEntry_of_dir hd' hj).symm
  have hro := h.maps.setFlags (w := clearRw (m.word F j))
    (by rw [Mem.maps_entry, named_clearRw, hF]) hn (by simp)
  obtain ⟨he₁, hdir₁, -, hent₁⟩ := h.storeEntry hd' hj rfl rfl rfl (fun _ _ => rfl) hro
  obtain ⟨w, hw⟩ : ∃ w, clearRw (m.word F j) = w := ⟨_, rfl⟩
  obtain ⟨m₁, hm₁⟩ : ∃ m₁, m.setWord F j w = m₁ := ⟨_, rfl⟩
  rw [hw, hm₁] at he₁ hdir₁ hent₁
  rw [hw, hm₁]
  have hmap₁ : m₁.memMap = m.memMap := by rw [← hm₁]; rfl
  have hnw : named w = some f := by rw [← hw, named_clearRw, hF, hn]
  have hwro : writable w = false := by rw [← hw, writable_clearRw]
  have hc : m₁.maps.count f ≤ 63 := he₁.ok.maps.count_le hf
  have hok := he₁.ok.maps.share
    (show named (m₁.maps.entry k' j) = some f by rw [Mem.maps_entry, hent₁, hnw]) hf
    (by rw [Mem.maps_entry, hent₁, hwro])
    (show m₁.maps.dir k = some T by rw [Mem.maps_dir, hdir₁, hd])
    (by rw [Mem.maps_entry, (he₁.keeps k j fun hS => hne hS.1.symm).1, habs])
    hmod.symm hnw hwro
  have hmap : (m₁.setMap (mapNr f) ((m.memMap (mapNr f) + 1) % 256)).maps =
      m₁.maps.setCount f (m₁.maps.count f + 1) := by
    rw [Mem.maps_setMap hf.le, ← hmap₁, Nat.mod_eq_of_lt (by rw [← Mem.maps_count hf.le]; omega),
      Mem.maps_count hf.le]
  rw [← hmap] at hok
  obtain ⟨he₂, hdir₂, -, hent₂⟩ := he₁.ok.storeEntry (hdir₁ ▸ hd) hj (Mem.setMap_word _ _)
    (Mem.setMap_highMemory _ _) (Mem.setMap_task _ _) (Mem.setMap_reserved hf _) hok
  rw [← Mem.setMap_setWord] at he₂ hdir₂ hent₂
  -- the entry that is shared still names the page
  have hkeep : Keeps (OneEntry k j) m m₁ := by
    intro k₁ j₁ _
    refine ⟨?_, fun x hx _ => ?_⟩
    · by_cases hkj : OneEntry k' j k₁ j₁
      · rw [hkj.1, hkj.2, hent₁, hnw, hn]
      · exact (he₁.keeps k₁ j₁ hkj).1
    · have hxF : x ≠ F := fun hxF => (h.maps.dir_fresh hd').2 k₁ j₁ (hxF ▸ hx)
      rw [← hm₁, Mem.word_setWord_of_ne hxF]
  have hflags : Flags A (OneEntry k j) m m₁ := by
    refine ⟨fun k₁ j₁ _ => ?_, he₁.flags.reserved⟩
    by_cases hkj : OneEntry k' j k₁ j₁
    · rw [hkj.1, hkj.2, hent₁, ← hw, hF]
      exact Or.inr ⟨(named_eq_some.mp hn).1, rfl⟩
    · exact he₁.flags.bits k₁ j₁ hkj
  exact ⟨⟨he₂.ok, hkeep.trans he₂.keeps, hflags.trans he₂.flags, he₂.task.trans he₁.task⟩,
    hdir₂.trans hdir₁, hent₂⟩

/-! ### `copy_page_tables` -/

/-- A table `copy_page_tables` copies from: that of a user directory entry at the
same place of another slot, or the kernel's own first table, of which only the
first 640 kB are copied. -/
def Source (m : Mem) (k F j : ℕ) : Prop :=
  (∃ k', m.userDir k' = some F ∧ k' % 16 = k % 16 ∧ k' ≠ k) ∨ (F = 1 ∧ j < 160)

/-- A copied table entry is absent, or low, or counted; in each case the copy of
it names the same frame, with the same dirty bit. -/
theorem wp_copyEntry {F : ℕ} (h : MemOk A own m) (hd : m.userDir k = some T) (hj : j < 1024)
    (habs : named (m.userEntry k j) = none) (hsrc : Source m k F j) :
    wp (copyEntry F T j) (fun _ m' => Eff A own (OneEntry k j) m m' ∧ m'.userDir = m.userDir ∧
      seen (m'.userEntry k j) = seen (m.word F j)) NoHalt m := by
  unfold copyEntry
  rw [wp_bind, wp_get, wp_ite]
  refine ⟨fun hp => ?_, fun hp => ⟨Eff.refl h, rfl, ?_⟩⟩
  swap
  · rw [seen_of_absent habs, seen_of_absent (named_eq_none.mpr (by simpa using hp))]
  have hnamed : named (clearRw (m.word F j)) = some (frameOf (m.word F j)) := by
    rw [named_clearRw, named_of_present hp]
  rw [wp_bind, wp_modify, wp_ite, lowMem_lt_iff (by rw [present_clearRw, hp]), frameOf_clearRw]
  refine ⟨fun hge => ?_, fun hlow => ?_⟩
  · -- a counted frame: the parent's entry is write-protected too
    rcases hsrc with ⟨k', hd', hmod, hne⟩ | ⟨rfl, hj'⟩
    swap
    · rw [h.pg0 j hj', frameOf_pageEntry (by omega)] at hge
      omega
    have hn : named (m.userEntry k' j) = some (frameOf (m.word F j)) := by
      rw [Mem.userEntry_of_dir hd' hj, named_of_present hp]
    have hmain : A.Main (frameOf (m.word F j)) := (h.maps.entry_main hn).resolve_left (by omega)
    have hFT : F ≠ T := fun he => hne (h.maps.dir_inj (he ▸ hd') hd)
    obtain ⟨he, hdir, hent'⟩ := h.shareEntry hd' hd hj hn hmain habs hne hmod
    -- the child's entry is stored before the parent's
    rw [wp_modify]
    dsimp only [Mem.setWord_memMap]
    rw [Mem.setWord_comm hFT.symm]
    exact ⟨he, hdir, by rw [hent', seen_clearRw]⟩
  · -- memory below `LOW_MEM`: shared, but not counted
    obtain ⟨he, hdir, -, hent'⟩ := h.storeEntry hd hj rfl rfl rfl (fun _ _ => rfl)
      (h.maps.shareLow hd hj habs hnamed (by omega) (writable_clearRw _))
    exact ⟨he, hdir, by rw [hent', seen_clearRw]⟩

/-- **A free page becomes the table of an absent directory entry.** -/
theorem MemOk.placeTable (h : MemOk A own m) (hf : A.Main f) (h0 : m.maps.count f = 0)
    (hk : k ∈ userDirs) (hd : m.userDir k = none) :
    Eff A own S m ((m.takePage f).setWord 0 k (pageEntry f)) ∧
      ((m.takePage f).setWord 0 k (pageEntry f)).maps =
        (m.maps.setCount f 1).setDir k (some f) := by
  obtain ⟨he, hmaps⟩ := h.takePage (S := S) hf h0
  have hd' : (m.takePage f).userDir k = none := by
    rw [← Mem.maps_dir, hmaps, Maps.setCount_dir, Mem.maps_dir, hd]
  have hge := hf.le
  have hkw := mem_userDirs.mp hk
  have hset : ((m.takePage f).setWord 0 k (pageEntry f)).maps =
      (m.maps.setCount f 1).setDir k (some f) := by
    rw [← hmaps]
    refine Mem.maps_setWord_dir hk hd' (fun {k'} => he.ok.dir_ne_zero) (by omega) hf.lt_pow
      fun j => ?_
    rw [Mem.takePage, Mem.word_setFrame, if_pos rfl]
  have hent : ((m.takePage f).setWord 0 k (pageEntry f)).userEntry = (m.takePage f).userEntry := by
    rw [← Mem.maps_entry, hset, ← Mem.maps_entry, hmaps]
    rfl
  refine ⟨⟨he.ok.of_maps ?_ rfl ?_ ?_, he.keeps.trans (Keeps.of_maps hent fun k' j' g hg hle => ?_),
    he.flags.trans (Flags.of_maps hent fun _ _ => rfl), he.task⟩, hset⟩
  · have hno := (h.maps.of_count_zero hf h0).2.2
    have := (hmaps ▸ he.ok.maps).placeTable (Finset.mem_insert_self f own) hk (by
      rw [Maps.setCount_dir, Mem.maps_dir, hd])
    rw [Finset.erase_insert hno] at this
    rw [hset]
    exact this
  · rw [Mem.word_setWord, if_pos rfl, Function.update_of_ne (by omega)]
  · rw [Mem.word_setWord_of_ne (by omega)]
  · rw [Mem.word_setWord_of_ne (by omega)]

/-- **One round of the outer loop** of `copy_page_tables`, from slot `p` to slot
`c`: the child's table is absent where the parent's is, and names what the
parent's names, as dirty as there; or there is no page for it and nothing has happened. -/
theorem wp_copyTable {p c i : ℕ} (h : MemOk A own m) (hp : p < 64) (hc : 1 ≤ c) (hc' : c < 64)
    (hpc : p ≠ c) (hi : i < 16) (hp0 : p = 0 → i = 0) (habs : m.userDir (16 * c + i) = none) :
    wp (copyTable (p * 0x4000000) (16 * p) (16 * c) i) (fun r m' => match r with
      | none => Eff A own (OneDir (16 * c + i)) m m' ∧
          (∀ k, k ≠ 16 * c + i → m'.userDir k = m.userDir k) ∧
          (1 ≤ p → ∀ j, seen (m'.userEntry (16 * c + i) j) = seen (m.userEntry (16 * p + i) j)) ∧
          (p = 0 → ∀ j, named (m'.userEntry (16 * c + i) j) = if j < 160 then some j else none)
      | some r => r = -1 ∧ m' = m ∧ present (m.word 0 (16 * p + i)) = true ∧
          ∀ f, A.Main f → m.maps.count f ≠ 0) NoHalt m := by
  obtain ⟨kt, hkt⟩ : ∃ kt, 16 * c + i = kt := ⟨_, rfl⟩
  obtain ⟨kf, hkf⟩ : ∃ kf, 16 * p + i = kf := ⟨_, rfl⟩
  rw [hkt] at habs ⊢
  have hkt' : kt ∈ userDirs := mem_userDirs.mpr ⟨by omega, by omega⟩
  unfold copyTable
  rw [hkt, hkf, wp_bind, wp_get, wp_ite]
  refine ⟨fun hpr => ?_, fun _ => wp_ite.mpr ⟨fun hpr => ?_, fun hpr => ?_⟩⟩
  · rw [(Mem.userDir_eq_none hkt').mp habs] at hpr
    simp at hpr
  · obtain ⟨F, hF⟩ : ∃ F, frameOf (m.word 0 kf) = F := ⟨_, rfl⟩
    rw [wp_bind, hF]
    refine wp_post (wp_getFreePage h) fun r m₁ hr => ?_
    cases r with
    | none =>
      obtain ⟨rfl, hfull⟩ := hr
      exact ⟨rfl, rfl, hpr, hfull⟩
    | some f =>
      obtain ⟨hf, h0, rfl⟩ := hr
      obtain ⟨he, hmaps⟩ := h.placeTable (S := OneDir kt) hf h0 hkt' habs
      obtain ⟨m₁, hm₁⟩ : ∃ m₁, (m.takePage f).setWord 0 kt (pageEntry f) = m₁ := ⟨_, rfl⟩
      rw [wp_bind, wp_modify, hm₁, wp_bind]
      rw [hm₁] at he hmaps
      have hdir₁ : ∀ k, m₁.userDir k = if k = kt then some f else m.userDir k := fun k => by
        rw [← Mem.maps_dir, hmaps, Maps.setDir_dir]
        rfl
      have hent₁ : m₁.userEntry = m.userEntry := by rw [← Mem.maps_entry, hmaps]; rfl
      have hempty : ∀ j, named (m₁.userEntry kt j) = none := fun j => by
        rw [hent₁, Mem.userEntry_of_none habs, named_zero]
      -- where the copy reads from, in every state of the inner loop
      have hsrc : ∀ m₂ : Mem, m₂.userDir = m₁.userDir → ∀ j,
          j < (if p * 0x4000000 = 0 then 0xA0 else 1024) → Source m₂ kt F j := by
        intro m₂ hm₂ j hj
        by_cases hpz : p = 0
        · subst hpz
          obtain rfl := hp0 rfl
          refine Or.inr ⟨?_, by simpa using hj⟩
          rw [← hF, ← hkf, h.pgDir, frameOf_pageEntry (by omega)]
        · refine Or.inl ⟨kf, ?_, by omega, by omega⟩
          rw [hm₂, hdir₁, if_neg (by omega)]
          exact Mem.userDir_eq_some.mpr ⟨mem_userDirs.mpr ⟨by omega, by omega⟩, hpr, hF⟩
      refine wp_post (wp_forFrom (fun i m₂ => Eff A own (OneDir kt) m₁ m₂ ∧
        m₂.userDir = m₁.userDir ∧
        (∀ j, j < i → seen (m₂.userEntry kt j) = seen (m₁.word F j)) ∧
        (∀ j, i ≤ j → named (m₂.userEntry kt j) = none))
        ⟨Eff.refl he.ok, rfl, fun j hj => by omega, fun j _ => hempty j⟩ ?_) ?_
      · rintro j m₂ - hj ⟨he₂, hdir₂, hdone, hrest⟩
        have hj' : j < 1024 := by
          rw [Nat.zero_add] at hj
          split at hj <;> omega
        have hd₂ : m₂.userDir kt = some f := by rw [hdir₂, hdir₁, if_pos rfl]
        refine wp_post (wp_copyEntry he₂.ok hd₂ hj' (hrest j le_rfl)
          (hsrc m₂ hdir₂ j (by simpa using hj))) ?_
        rintro - m₃ ⟨he₃, hdir₃, hnew⟩
        have hother : ∀ j', j' ≠ j → seen (m₃.userEntry kt j') = seen (m₂.userEntry kt j') :=
          fun j' hj' => he₃.seen fun hS => hj' hS.2
        -- the source has not changed since the loop began, up to its write flags
        have hF₂ : seen (m₂.word F j) = seen (m₁.word F j) := by
          rcases hsrc m₂ hdir₂ j (by simpa using hj) with ⟨k', hk', -, hne⟩ | ⟨rfl, hj160⟩
          · rw [← Mem.userEntry_of_dir hk' hj', ← Mem.userEntry_of_dir (hdir₂ ▸ hk') hj']
            exact he₂.seen fun hS => hne hS
          · rw [he₂.ok.pg0 j hj160, he.ok.pg0 j hj160]
        refine ⟨he₂.trans (he₃.mono fun _ _ hS => hS.1), hdir₃.trans hdir₂, fun j' hj' => ?_,
          fun j' hj' => ?_⟩
        · by_cases hjj : j' = j
          · rw [hjj, hnew, hF₂]
          · rw [hother j' hjj, hdone j' (by omega)]
        · rw [named_of_seen (hother j' (by omega)), hrest j' (by omega)]
      · rintro - m₂ ⟨he₂, hdir₂, hdone, hrest⟩
        refine ⟨he.trans he₂, fun k hk => by rw [hdir₂, hdir₁, if_neg hk], fun hp1 j => ?_,
          fun hpz j => ?_⟩
        swap
        · have hF1 : F = 1 := by
            rw [← hF, ← hkf, hpz, hp0 hpz, h.pgDir, frameOf_pageEntry (by omega)]
          rw [if_pos (by omega : p * 0x4000000 = 0), Nat.zero_add] at hdone hrest
          by_cases hj : j < 160
          · rw [named_of_seen (hdone j hj), hF1, he.ok.pg0 j hj, named_pageEntry (by omega),
              if_pos hj]
          · rw [hrest j (by omega), if_neg hj]
        have hdf : m₁.userDir kf = some F := by
          rw [hdir₁, if_neg (by omega)]
          exact Mem.userDir_eq_some.mpr ⟨mem_userDirs.mpr ⟨by omega, by omega⟩, hpr, hF⟩
        rw [if_neg (by omega : ¬p * 0x4000000 = 0)] at hdone hrest
        rw [← hent₁]
        by_cases hj : j < 1024
        · rw [hdone j (by omega), Mem.userEntry_of_dir hdf hj]
        · rw [seen_of_absent (hrest j (by omega)), Mem.userEntry, hdf]
          simp [hj, seen]
  · refine ⟨Eff.refl h, fun _ _ => rfl, fun hp1 j => ?_, fun hpz j => ?_⟩
    swap
    · rw [← hkf, hpz, hp0 hpz, h.pgDir, present_pageEntry] at hpr
      simp at hpr
    have hkf' : kf ∈ userDirs := mem_userDirs.mpr ⟨by omega, by omega⟩
    rw [Mem.userEntry_of_none habs, Mem.userEntry_of_none ((Mem.userDir_eq_none hkf').mpr ?_)]
    simpa using hpr

/-- **`copy_page_tables`** into an empty slot: on success every table of the child
names what the parent's names, as dirty as there; on failure, for which memory has to be
short, the child's slot holds a part of that. Either way the machine is sound and no other slot
has changed. -/
theorem wp_copyPageTables {p c size : ℕ} (h : MemOk A own m) (hp : p < 64) (hc : 1 ≤ c)
    (hc' : c < 64) (hpc : p ≠ c) (hsize : dirCount size ≤ 16) (hp0 : p = 0 → dirCount size ≤ 1)
    (habs : ∀ d, d < 16 → m.userDir (16 * c + d) = none) :
    wp (copyPageTables (p * 0x4000000) (c * 0x4000000) size) (fun r m' =>
      Eff A own (OneSlot c) m m' ∧
      (∀ k, ¬(16 * c ≤ k ∧ k < 16 * c + dirCount size) → m'.userDir k = m.userDir k) ∧
      (r = 0 → 1 ≤ p → ∀ d j, d < dirCount size →
        seen (m'.userEntry (16 * c + d) j) = seen (m.userEntry (16 * p + d) j)) ∧
      (r = 0 → p = 0 → dirCount size = 1 → ∀ j,
        named (m'.userEntry (16 * c) j) = if j < 160 then some j else none) ∧
      (r ≠ 0 → (∀ d, 1 ≤ d → d < dirCount size → m.userDir (16 * p + d) = none) →
        ∀ f, A.Main f → m.maps.count f ≠ 0))
      NoHalt m := by
  have hfrom : dirIndex (p * 0x4000000) = 16 * p := by rw [dirIndex]; omega
  have hto : dirIndex (c * 0x4000000) = 16 * c := by rw [dirIndex]; omega
  unfold copyPageTables
  rw [if_neg (by omega), hfrom, hto, wp_bind]
  refine wp_post (wp_forUntil (fun i m₁ => Eff A own (OneSlot c) m m₁ ∧ (i = 0 → m₁ = m) ∧
    (∀ k, ¬(16 * c ≤ k ∧ k < 16 * c + i) → m₁.userDir k = m.userDir k) ∧
    (1 ≤ p → ∀ d j, d < i →
      seen (m₁.userEntry (16 * c + d) j) = seen (m.userEntry (16 * p + d) j)) ∧
    (p = 0 → i = 1 → ∀ j, named (m₁.userEntry (16 * c) j) = if j < 160 then some j else none))
    (fun r m₁ => r = -1 ∧ Eff A own (OneSlot c) m m₁ ∧
      (∀ k, ¬(16 * c ≤ k ∧ k < 16 * c + dirCount size) → m₁.userDir k = m.userDir k) ∧
      ((∀ d, 1 ≤ d → d < dirCount size → m.userDir (16 * p + d) = none) →
        ∀ f, A.Main f → m.maps.count f ≠ 0))
    ⟨Eff.refl h, fun _ => rfl, fun _ _ => rfl, fun _ d j hd => by omega,
      fun _ h1 => by omega⟩ ?_) ?_
  · rintro i m₁ - hi ⟨he, hfirst, hsame, hcopy, -⟩
    refine wp_post (wp_copyTable he.ok hp hc hc' hpc (by omega) (fun hpz => ?_) ?_) ?_
    · have := hp0 hpz
      omega
    · rw [hsame _ (by omega)]
      exact habs i (by omega)
    · intro r m₂ hr
      cases r with
      | some r =>
        obtain ⟨rfl, rfl, hpr, hfull⟩ := hr
        refine ⟨rfl, he, fun k hk => hsame k (by omega), fun hnone => ?_⟩
        -- a table to copy was found, and it is the first
        by_cases hi0 : i = 0
        · exact hfirst hi0 ▸ hfull
        · have hdi := hnone i (by omega) (by omega)
          have hp1 : 1 ≤ p := by
            by_contra hp1
            have := hp0 (by omega)
            omega
          rw [← hsame _ (by omega), Mem.userDir_eq_none (mem_userDirs.mpr ⟨by omega, by omega⟩),
            hpr] at hdi
          simp at hdi
      | none =>
        obtain ⟨he₂, hsame₂, hcopy₂, hlow₂⟩ := hr
        refine ⟨he.trans (he₂.mono fun k' j' hS => ?_), fun h0 => by omega, fun k hk => ?_,
          fun hp1 d j hd => ?_, fun hpz h1 => ?_⟩
        · rw [OneDir] at hS
          rw [OneSlot]
          omega
        · rw [hsame₂ k (by omega), hsame k (by omega)]
        · -- the parent's tables name what they named when the copy began
          have hpar : ∀ d', d' < 16 → seen (m₁.userEntry (16 * p + d') j) =
              seen (m.userEntry (16 * p + d') j) := fun d' hd' =>
            he.seen fun hS => by rw [OneSlot] at hS; omega
          by_cases hdi : d = i
          · rw [hdi, hcopy₂ hp1 j, hpar i (by omega)]
          · rw [he₂.seen (k := 16 * c + d) fun hS => hdi (by rw [OneDir] at hS; omega),
              hcopy hp1 d j (by omega)]
        · obtain rfl : i = 0 := by omega
          exact hlow₂ hpz
  · intro r m₁ hr
    cases r with
    | none =>
      obtain ⟨he, -, hsame, hcopy, hlow⟩ := hr
      rw [Nat.zero_add] at hsame hcopy hlow
      exact ⟨he, hsame, fun _ => hcopy, fun _ => hlow, fun hr0 => absurd rfl hr0⟩
    | some r =>
      obtain ⟨rfl, he, hsame, hfull⟩ := hr
      exact ⟨he, hsame, fun hr0 => by simp at hr0, fun hr0 => by simp at hr0, fun _ => hfull⟩

end Linux011.Mm

import Linux011.Mm.Maps

/-!
# The mappings a machine holds

`Linux011.Mm.Mem.maps` reads the user mappings and the counters off physical
memory: the directory is frame `0`, a table is the frame a directory entry names.
The stores of the kernel – a word of a table, a word of the directory, a cleared
page – are then changes of those mappings, and `Linux011.Mm.MemOk` transports the
invariant of `Linux011.Mm.Maps.Ok` to the machine.

What an operation leaves alone is said by `Linux011.Mm.Keeps`: outside the entries
it is about, every entry names the frame it named, and that frame, if it is
counted memory, holds what it held.
-/

namespace Linux011.Mm

namespace Mem

variable (m : Mem)

/-- The table of a user directory entry. -/
def userDir (k : ℕ) : Option ℕ :=
  if 16 ≤ k ∧ k < 1024 then named (m.word 0 k) else none

/-- The page-table entry `j` under the user directory entry `k`. -/
def userEntry (k j : ℕ) : Word :=
  match m.userDir k with
  | some T => if j < 1024 then m.word T j else 0#32
  | none => 0#32

/-- **The user mappings and the counters of the machine.** -/
def maps : Maps where
  dir := m.userDir
  entry := m.userEntry
  count f := if f < 256 then 0 else m.memMap (f - 256)

/-- A page has been taken off the free list: marked used and cleared. -/
def takePage (f : ℕ) : Mem := (m.setMap (mapNr f) 1).setFrame f fun _ => 0#32

variable {m} {k j T f : ℕ} {w : Word}

theorem userDir_eq_some : m.userDir k = some T ↔
    k ∈ userDirs ∧ present (m.word 0 k) = true ∧ frameOf (m.word 0 k) = T := by
  rw [userDir, mem_userDirs]
  by_cases h : 16 ≤ k ∧ k < 1024
  · rw [if_pos h, named_eq_some]
    exact ⟨fun hn => ⟨h, hn⟩, fun hn => hn.2⟩
  · rw [if_neg h]
    exact ⟨fun hn => by simp at hn, fun hn => absurd hn.1 h⟩

theorem userDir_eq_none (hk : k ∈ userDirs) :
    m.userDir k = none ↔ present (m.word 0 k) = false := by
  rw [userDir, if_pos (mem_userDirs.mp hk), named_eq_none]

theorem userEntry_of_dir (hd : m.userDir k = some T) (hj : j < 1024) :
    m.userEntry k j = m.word T j := by
  simp [userEntry, hd, hj]

theorem userEntry_of_none (hd : m.userDir k = none) : m.userEntry k j = 0#32 := by
  simp [userEntry, hd]

@[simp] theorem maps_dir : m.maps.dir = m.userDir := rfl

@[simp] theorem maps_entry : m.maps.entry = m.userEntry := rfl

theorem maps_count (hf : 256 ≤ f) : m.maps.count f = m.memMap (mapNr f) := by
  rw [mapNr, lowFrame]
  exact if_neg (by omega)

theorem word_setWord (f j : ℕ) (w : Word) (f' : ℕ) :
    (m.setWord f j w).word f' = if f' = f then Function.update (m.word f) j w else m.word f' := by
  simp [setWord, Function.update_apply]

theorem word_setWord_of_ne {f' : ℕ} (h : f' ≠ f) : (m.setWord f j w).word f' = m.word f' := by
  rw [word_setWord, if_neg h]

theorem word_setWord_self : (m.setWord f j w).word f j = w := by
  simp [setWord]

@[simp] theorem setWord_task : (m.setWord f j w).task = m.task := rfl

@[simp] theorem setWord_memMap : (m.setWord f j w).memMap = m.memMap := rfl

theorem word_setFrame (f : ℕ) (ws : ℕ → Word) (f' : ℕ) :
    (m.setFrame f ws).word f' = if f' = f then ws else m.word f' := by
  simp [setFrame, Function.update_apply]

@[simp] theorem setMap_word (n c : ℕ) : (m.setMap n c).word = m.word := rfl

@[simp] theorem setMap_task (n c : ℕ) : (m.setMap n c).task = m.task := rfl

@[simp] theorem setMap_highMemory (n c : ℕ) : (m.setMap n c).highMemory = m.highMemory := rfl

theorem setMap_setWord (n c : ℕ) :
    (m.setWord f j w).setMap n c = (m.setMap n c).setWord f j w := rfl

theorem setWord_comm {f' j' : ℕ} {w' : Word} (h : f ≠ f') :
    (m.setWord f j w).setWord f' j' w' = (m.setWord f' j' w').setWord f j w := by
  simp only [setWord, Function.update_of_ne h, Function.update_of_ne h.symm,
    Function.update_comm h]

theorem setTask_task (n : ℕ) (t : Task) (n' : ℕ) :
    (m.setTask n t).task n' = if n' = n then t else m.task n' := by
  simp [setTask, Function.update_apply]

/-! ### The stores of the kernel, as changes of the mappings -/

theorem maps_setTask (n : ℕ) (t : Task) : (m.setTask n t).maps = m.maps := rfl

theorem maps_setMap (hf : 256 ≤ f) (c : ℕ) :
    (m.setMap (mapNr f) c).maps = m.maps.setCount f c := by
  refine Maps.ext rfl rfl (funext fun f' => ?_)
  rw [Maps.setCount_count]
  by_cases hf' : f' < 256
  · have : f' ≠ f := by omega
    simp [maps, hf', this]
  · have : f' - 256 = f - 256 ↔ f' = f := by omega
    simp [maps, hf', setMap, Function.update_apply, mapNr, lowFrame, this]

/-- A store into a table changes one entry. -/
theorem maps_setWord_table (hd : m.userDir k = some T) (hj : j < 1024)
    (hinj : ∀ {k'}, m.userDir k' = some T → k' = k) (hT : T ≠ 0) :
    (m.setWord T j w).maps = m.maps.setEntry k j w := by
  have hdir : (m.setWord T j w).userDir = m.userDir := by
    funext k'
    rw [userDir, userDir, word_setWord_of_ne hT.symm]
  refine Maps.ext hdir (funext fun k' => funext fun j' => ?_) rfl
  change (m.setWord T j w).userEntry k' j' = _
  rw [Maps.setEntry_entry, userEntry, hdir]
  by_cases hk : k' = k
  · subst hk
    rw [hd]
    by_cases hjj : j' = j
    · subst hjj
      simp [hj, word_setWord_self]
    · simp [hjj, word_setWord, userEntry, hd]
  · rw [if_neg fun h => hk h.1, maps_entry, userEntry]
    cases hd' : m.userDir k' with
    | none => rfl
    | some T' =>
      have : T' ≠ T := fun he => hk (hinj (he ▸ hd'))
      simp [word_setWord_of_ne this]

/-- A store that points an absent directory entry at a cleared page makes that
page its table. -/
theorem maps_setWord_dir (hk : k ∈ userDirs) (hd : m.userDir k = none)
    (hn0 : ∀ {k'}, m.userDir k' ≠ some 0) (hT : T ≠ 0) (hT' : T < 2 ^ 20)
    (hz : ∀ j, m.word T j = 0#32) :
    (m.setWord 0 k (pageEntry T)).maps = m.maps.setDir k (some T) := by
  have hdir : (m.setWord 0 k (pageEntry T)).userDir = (m.maps.setDir k (some T)).dir := by
    funext k'
    rw [Maps.setDir_dir, userDir]
    by_cases hkk : k' = k
    · subst hkk
      rw [word_setWord_self, if_pos (mem_userDirs.mp hk), named_pageEntry hT', if_pos rfl]
    · rw [if_neg hkk, word_setWord, if_pos rfl, Function.update_of_ne hkk, maps_dir, userDir]
  refine Maps.ext hdir (funext fun k' => funext fun j' => ?_) rfl
  change (m.setWord 0 k (pageEntry T)).userEntry k' j' = m.userEntry k' j'
  rw [userEntry, hdir, Maps.setDir_dir]
  by_cases hkk : k' = k
  · subst hkk
    rw [if_pos rfl, userEntry_of_none hd]
    simp [word_setWord_of_ne hT, hz]
  · rw [if_neg hkk, maps_dir, userEntry]
    cases hd' : m.userDir k' with
    | none => rfl
    | some T' =>
      have : T' ≠ 0 := fun he => hn0 (he ▸ hd')
      simp [word_setWord_of_ne this]

/-- Clearing the directory entry of an empty table drops the table. -/
theorem maps_clearDir (hd : m.userDir k = some T) (hn0 : ∀ {k'}, m.userDir k' ≠ some 0)
    (hz : ∀ j, j < 1024 → m.word T j = 0#32) :
    (m.setWord 0 k 0#32).maps = m.maps.setDir k none := by
  have hdir : (m.setWord 0 k 0#32).userDir = (m.maps.setDir k none).dir := by
    funext k'
    rw [Maps.setDir_dir, userDir]
    by_cases hkk : k' = k
    · subst hkk
      rw [word_setWord_self, named_zero, if_pos rfl, ite_self]
    · rw [if_neg hkk, word_setWord, if_pos rfl, Function.update_of_ne hkk, maps_dir, userDir]
  refine Maps.ext hdir (funext fun k' => funext fun j' => ?_) rfl
  change (m.setWord 0 k 0#32).userEntry k' j' = m.userEntry k' j'
  rw [userEntry, hdir, Maps.setDir_dir]
  by_cases hkk : k' = k
  · subst hkk
    rw [if_pos rfl]
    by_cases hj : j' < 1024
    · rw [userEntry_of_dir hd hj, hz j' hj]
    · simp [userEntry, hd, hj]
  · rw [if_neg hkk, maps_dir, userEntry]
    cases hd' : m.userDir k' with
    | none => rfl
    | some T' =>
      have : T' ≠ 0 := fun he => hn0 (he ▸ hd')
      simp [word_setWord_of_ne this]

/-- Stores into a page that is neither the directory nor a table change no
mapping. -/
theorem maps_of_word {m' : Mem}
    (hw : ∀ g, (g = 0 ∨ ∃ k, m.userDir k = some g) → m'.word g = m.word g)
    (hmap : m'.memMap = m.memMap) : m'.maps = m.maps := by
  have hdir : m'.userDir = m.userDir := by
    funext k'
    rw [userDir, userDir, hw 0 (Or.inl rfl)]
  refine Maps.ext hdir (funext fun k' => funext fun j' => ?_) ?_
  · change m'.userEntry k' j' = m.userEntry k' j'
    rw [userEntry, hdir, userEntry]
    cases hd : m.userDir k' with
    | none => rfl
    | some T' => simp [hw T' (Or.inr ⟨k', hd⟩)]
  · funext f
    simp [maps, hmap]

end Mem

/-! ### The invariant of the machine -/

/-- **The machine is sound**: its counters are right, the end of memory is where
`mem_init` put it, and the tables the kernel itself runs on still map the first
640 kB one to one. -/
structure MemOk (A : Arena) (own : Finset ℕ) (m : Mem) : Prop where
  maps : m.maps.Ok A own
  high : m.highMemory = A.hi * 4096
  pgDir : m.word 0 0 = pageEntry 1
  pg0 : ∀ j, j < 160 → m.word 1 j = pageEntry j

namespace MemOk

variable {A : Arena} {own : Finset ℕ} {m : Mem} {k j T f : ℕ}

/-- A table is neither the directory nor one of the kernel's own tables. -/
theorem table_le (h : MemOk A own m) (hd : m.userDir k = some T) : 256 ≤ T :=
  (h.maps.dir_main hd).le

theorem dir_ne_zero (h : MemOk A own m) : m.userDir k ≠ some 0 := fun hd => by
  have := h.table_le hd
  omega

/-- A counted page that is mapped is neither the directory nor a table. -/
theorem page_ne_table (h : MemOk A own m) (he : named (m.userEntry k j) = some f) {k' : ℕ} :
    m.userDir k' ≠ some f := fun hd => (h.maps.dir_fresh hd).2 k j he

/-- A store into a table, together with whatever the counters do. -/
theorem setWord_table (h : MemOk A own m) (hd : m.userDir k = some T) (hj : j < 1024) (w : Word) :
    (m.setWord T j w).maps = m.maps.setEntry k j w :=
  Mem.maps_setWord_table hd hj (fun hd' => h.maps.dir_inj hd' hd) (by
    have := h.table_le hd
    omega)

/-- The invariant moves to a machine whose mappings keep it, and whose first two
frames have not been touched where it matters. -/
theorem of_maps {own' : Finset ℕ} {m' : Mem} (h : MemOk A own m) (hmaps : m'.maps.Ok A own')
    (hhigh : m'.highMemory = m.highMemory) (h0 : m'.word 0 0 = m.word 0 0)
    (h1 : m'.word 1 = m.word 1) : MemOk A own' m' where
  maps := hmaps
  high := hhigh.trans h.high
  pgDir := h0.trans h.pgDir
  pg0 j hj := by rw [h1]; exact h.pg0 j hj

end MemOk

/-! ### What an operation leaves alone -/

/-- **Outside the entries `S`**, every entry names the frame it named, and that
frame, if it lies above `LOW_MEM`, holds what it held. -/
def Keeps (S : ℕ → ℕ → Prop) (m m' : Mem) : Prop :=
  ∀ k j, ¬S k j → named (m'.userEntry k j) = named (m.userEntry k j) ∧
    ∀ f, named (m.userEntry k j) = some f → 256 ≤ f → m'.word f = m.word f

namespace Keeps

variable {S S' : ℕ → ℕ → Prop} {m m' m'' : Mem}

theorem refl (m : Mem) : Keeps S m m := fun _ _ _ => ⟨rfl, fun _ _ _ => rfl⟩

theorem trans (h : Keeps S m m') (h' : Keeps S m' m'') : Keeps S m m'' := by
  intro k j hS
  obtain ⟨he, hw⟩ := h k j hS
  obtain ⟨he', hw'⟩ := h' k j hS
  exact ⟨he'.trans he, fun f hf hle => (hw' f (he.trans hf) hle).trans (hw f hf hle)⟩

theorem mono (h : Keeps S m m') (hS : ∀ k j, S k j → S' k j) : Keeps S' m m' :=
  fun k j hn => h k j fun hs => hn (hS k j hs)

/-- Operations that leave the mappings alone keep everything if they write no
mapped page. -/
theorem of_maps (hmaps : m'.userEntry = m.userEntry)
    (hw : ∀ k j f, named (m.userEntry k j) = some f → 256 ≤ f → m'.word f = m.word f) :
    Keeps S m m' :=
  fun k j _ => ⟨by rw [hmaps], hw k j⟩

end Keeps

/-- **What has become of the flags and of the other counters**: outside the entries `S`
an entry is what it was or, if present, has lost its write flag, and no counter but those of main
memory has moved. -/
structure Flags (A : Arena) (S : ℕ → ℕ → Prop) (m m' : Mem) : Prop where
  bits : ∀ k j, ¬S k j → m'.userEntry k j = m.userEntry k j ∨
    present (m.userEntry k j) = true ∧ m'.userEntry k j = clearRw (m.userEntry k j)
  reserved : ∀ n, ¬A.Main (n + 256) → m'.memMap n = m.memMap n

namespace Flags

variable {A : Arena} {S S' : ℕ → ℕ → Prop} {m m' m'' : Mem}

theorem refl (m : Mem) : Flags A S m m := ⟨fun _ _ _ => Or.inl rfl, fun _ _ => rfl⟩

theorem trans (h : Flags A S m m') (h' : Flags A S m' m'') : Flags A S m m'' where
  bits k j hS := by
    rcases h'.bits k j hS with he' | ⟨hp', he'⟩ <;> rcases h.bits k j hS with he | ⟨hp, he⟩ <;>
      rw [he', he]
    · exact Or.inl rfl
    · exact Or.inr ⟨hp, rfl⟩
    · exact Or.inr ⟨by rwa [he] at hp', rfl⟩
    · exact Or.inr ⟨hp, clearRw_clearRw _⟩
  reserved n hn := (h'.reserved n hn).trans (h.reserved n hn)

theorem mono (h : Flags A S m m') (hS : ∀ k j, S k j → S' k j) : Flags A S' m m' :=
  ⟨fun k j hn => h.bits k j fun hs => hn (hS k j hs), h.reserved⟩

/-- Outside `S` the frame and the dirty bit of an entry are what they were. -/
theorem seen (h : Flags A S m m') {k j : ℕ} (hS : ¬S k j) :
    seen (m'.userEntry k j) = seen (m.userEntry k j) := by
  rcases h.bits k j hS with he | ⟨-, he⟩ <;> rw [he]
  exact seen_clearRw _

/-- Operations that leave the mappings alone. -/
theorem of_maps (hmaps : m'.userEntry = m.userEntry)
    (hres : ∀ n, ¬A.Main (n + 256) → m'.memMap n = m.memMap n) : Flags A S m m' :=
  ⟨fun k j _ => Or.inl (by rw [hmaps]), hres⟩

end Flags

/-- The counter of a page of main memory is none of the others. -/
theorem Mem.setMap_reserved {A : Arena} {m : Mem} {f : ℕ} (hf : A.Main f) (c n : ℕ)
    (hn : ¬A.Main (n + 256)) : (m.setMap (mapNr f) c).memMap n = m.memMap n := by
  have hle := hf.le
  change Function.update m.memMap (mapNr f) c n = _
  rw [Function.update_of_ne]
  intro hnf
  rw [mapNr, lowFrame] at hnf
  exact hn ((show n + 256 = f by omega) ▸ hf)

end Linux011.Mm

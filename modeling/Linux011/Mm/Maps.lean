import Mathlib.Data.Finset.Prod
import Mathlib.Order.Interval.Finset.Nat
import Linux011.Lib.Refs
import Linux011.Mm.Memory

/-!
# Who names a frame

What the counters of `mem_map` are supposed to count, without the machine: for
each user directory entry the table it points to, for each user page-table entry
its word, and for each frame its count. `Linux011.Mm.Maps.Ok` is the state of
these three in which the counts are right, and every change the routines of
`mm/memory.c` make to them is one of eight elementary ones, each of which keeps
it. The routines themselves are put together from these eight in
`Linux011.Mm.Routines`.

The invariant holds more than the counts, because the counts alone are not
inductive.

* A table belongs to one directory entry and is not mapped as a page; a page the
  kernel holds is not mapped at all.
* A frame above `LOW_MEM` sits **at one and the same offset** of every slot that
  maps it, hence at most once in each. That is what bounds its count by the
  number of slots.
* An entry that may be written through is **the only one** naming its frame.
-/

namespace Linux011.Mm

/-! ### The frames and the entries that count -/

/-- **Main memory**: the frames `mem_init` hands to paging, `[lo, hi)`, between
`LOW_MEM` and 16 MB. -/
structure Arena where
  lo : ℕ
  hi : ℕ
  /-- Main memory begins at or above `LOW_MEM`. -/
  low_le : 256 ≤ lo
  /-- Its end is not before its beginning. -/
  lo_le : lo ≤ hi
  /-- Its end is at or below 16 MB. -/
  hi_le : hi ≤ 4096

/-- A frame of main memory. -/
def Arena.Main (A : Arena) (f : ℕ) : Prop := A.lo ≤ f ∧ f < A.hi

instance (A : Arena) (f : ℕ) : Decidable (A.Main f) :=
  inferInstanceAs (Decidable (A.lo ≤ f ∧ f < A.hi))

theorem Arena.Main.le {A : Arena} {f : ℕ} (h : A.Main f) : 256 ≤ f := A.low_le.trans h.1

theorem Arena.Main.lt {A : Arena} {f : ℕ} (h : A.Main f) : f < 4096 := h.2.trans_le A.hi_le

theorem Arena.Main.lt_pow {A : Arena} {f : ℕ} (h : A.Main f) : f < 2 ^ 20 := by
  have := h.lt
  omega

/-- The directory entries of the user slots: sixteen for each slot but the
first. -/
@[irreducible] def userDirs : Finset ℕ := Finset.Ico 16 1024

/-- The page-table entries of the user slots. -/
@[irreducible] def userEntries : Finset (ℕ × ℕ) := userDirs ×ˢ Finset.range 1024

theorem mem_userDirs {k : ℕ} : k ∈ userDirs ↔ 16 ≤ k ∧ k < 1024 := by
  rw [userDirs, Finset.mem_Ico]

theorem mem_userEntries {k j : ℕ} : (k, j) ∈ userEntries ↔ k ∈ userDirs ∧ j < 1024 := by
  rw [userEntries, Finset.mem_product, Finset.mem_range]

/-- The user mappings and the counters. -/
@[ext] structure Maps where
  /-- The page table a directory entry points to. -/
  dir : ℕ → Option ℕ
  /-- The page-table entries; `0` where there is no table. -/
  entry : ℕ → ℕ → Word
  /-- The byte of `mem_map` of a frame. -/
  count : ℕ → ℕ

namespace Maps

variable (M : Maps)

/-- The frame a page-table entry names. -/
def pages (c : ℕ × ℕ) : Option ℕ := named (M.entry c.1 c.2)

/-- **The number of present user page-table entries naming `f`.** -/
def entryRefs (f : ℕ) : ℕ := refs userEntries M.pages f

/-- **The number of present user page-directory entries naming `f`.** -/
def dirRefs (f : ℕ) : ℕ := refs userDirs M.dir f

/-- Change one page-table entry. -/
def setEntry (k j : ℕ) (w : Word) : Maps :=
  { M with entry := Function.update M.entry k (Function.update (M.entry k) j w) }

/-- Change one directory entry. -/
def setDir (k : ℕ) (t : Option ℕ) : Maps := { M with dir := Function.update M.dir k t }

/-- Change one counter. -/
def setCount (f c : ℕ) : Maps := { M with count := Function.update M.count f c }

@[simp] theorem setEntry_dir (k j : ℕ) (w : Word) : (M.setEntry k j w).dir = M.dir := rfl

@[simp] theorem setEntry_count (k j : ℕ) (w : Word) : (M.setEntry k j w).count = M.count := rfl

@[simp] theorem setDir_count (k : ℕ) (t : Option ℕ) : (M.setDir k t).count = M.count := rfl

@[simp] theorem setCount_dir (f c : ℕ) : (M.setCount f c).dir = M.dir := rfl

theorem setEntry_entry (k j : ℕ) (w : Word) (k' j' : ℕ) :
    (M.setEntry k j w).entry k' j' = if k' = k ∧ j' = j then w else M.entry k' j' := by
  by_cases hk : k' = k
  · subst hk
    by_cases hj : j' = j <;> simp [setEntry, hj]
  · simp [setEntry, hk]

theorem setDir_dir (k : ℕ) (t : Option ℕ) (k' : ℕ) :
    (M.setDir k t).dir k' = if k' = k then t else M.dir k' := by
  simp [setDir, Function.update_apply]

theorem setCount_count (f c f' : ℕ) :
    (M.setCount f c).count f' = if f' = f then c else M.count f' := by
  simp [setCount, Function.update_apply]

theorem setEntry_setEntry (k j : ℕ) (w w' : Word) :
    (M.setEntry k j w).setEntry k j w' = M.setEntry k j w' := by
  simp [setEntry]

theorem pages_setEntry (k j : ℕ) (w : Word) :
    (M.setEntry k j w).pages = Function.update M.pages (k, j) (named w) := by
  funext ⟨k', j'⟩
  rw [Function.update_apply, pages, setEntry_entry]
  by_cases h : k' = k ∧ j' = j
  · rw [if_pos h, if_pos (Prod.ext h.1 h.2)]
  · rw [if_neg h, if_neg fun he => h (Prod.mk.inj he)]
    rfl

variable {M}

/-- Changing one entry changes the count of the frame it named and of the frame
it names now. -/
theorem entryRefs_setEntry {k j : ℕ} (h : (k, j) ∈ userEntries) (w : Word) (f : ℕ) :
    (M.setEntry k j w).entryRefs f + (if named (M.entry k j) = some f then 1 else 0) =
      M.entryRefs f + (if named w = some f then 1 else 0) := by
  rw [entryRefs, pages_setEntry]
  exact refs_update h (named w) f

/-- Changing one directory entry, likewise. -/
theorem dirRefs_setDir {k : ℕ} (h : k ∈ userDirs) (t : Option ℕ) (f : ℕ) :
    (M.setDir k t).dirRefs f + (if M.dir k = some f then 1 else 0) =
      M.dirRefs f + (if t = some f then 1 else 0) :=
  refs_update h t f

end Maps

/-! ### The invariant -/

/-- **The counts are right**, and what makes that inductive. `own` are the pages
the kernel itself holds. -/
structure Maps.Ok (A : Arena) (own : Finset ℕ) (M : Maps) : Prop where
  /-- Every counter of main memory counts the entries naming its frame. -/
  counted : ∀ f, A.Main f →
    M.count f = M.entryRefs f + M.dirRefs f + if f ∈ own then 1 else 0
  /-- The pages that are not main memory are never free. -/
  reserved : ∀ f, 256 ≤ f → f < 4096 → ¬A.Main f → M.count f ≠ 0
  dir_user : ∀ {k T}, M.dir k = some T → k ∈ userDirs
  entry_user : ∀ {k j f}, named (M.entry k j) = some f → (∃ T, M.dir k = some T) ∧ j < 1024
  /-- Tables live in main memory. -/
  dir_main : ∀ {k T}, M.dir k = some T → A.Main T
  /-- A table belongs to one directory entry. -/
  dir_inj : ∀ {k k' T}, M.dir k = some T → M.dir k' = some T → k = k'
  /-- A table is not mapped as a page, and the kernel has let go of it. -/
  dir_fresh : ∀ {k T}, M.dir k = some T → T ∉ own ∧ ∀ k' j, named (M.entry k' j) ≠ some T
  own_main : ∀ {f}, f ∈ own → A.Main f
  /-- A page the kernel holds is not mapped. -/
  own_fresh : ∀ {f}, f ∈ own → ∀ k j, named (M.entry k j) ≠ some f
  /-- What is mapped is main memory, or the memory below `LOW_MEM`. -/
  entry_main : ∀ {k j f}, named (M.entry k j) = some f → f < 256 ∨ A.Main f
  /-- A frame sits at one offset of every slot that maps it. -/
  place : ∀ {k j k' j' f}, named (M.entry k j) = some f → named (M.entry k' j') = some f →
    256 ≤ f → k % 16 = k' % 16 ∧ j = j'
  /-- A writable entry is the only one naming its frame, which lies above `LOW_MEM`. -/
  rw_only : ∀ {k j f}, named (M.entry k j) = some f → writable (M.entry k j) = true →
    256 ≤ f ∧ ∀ k' j', named (M.entry k' j') = some f → k' = k ∧ j' = j

namespace Maps.Ok

variable {A : Arena} {own : Finset ℕ} {M : Maps} {f k j T : ℕ} {w : Word}

theorem entry_mem (h : M.Ok A own) (he : named (M.entry k j) = some f) : (k, j) ∈ userEntries := by
  obtain ⟨⟨T, hT⟩, hj⟩ := h.entry_user he
  exact mem_userEntries.mpr ⟨h.dir_user hT, hj⟩

/-- An entry that names a frame is counted. -/
theorem entryRefs_pos (h : M.Ok A own) (he : named (M.entry k j) = some f) :
    0 < M.entryRefs f :=
  refs_pos (h.entry_mem he) he

theorem dirRefs_pos (h : M.Ok A own) (hd : M.dir k = some T) : 0 < M.dirRefs T :=
  refs_pos (h.dir_user hd) hd

/-- **A free page is mapped nowhere**, is no table, and nobody holds it. -/
theorem of_count_zero (h : M.Ok A own) (hf : A.Main f) (h0 : M.count f = 0) :
    (∀ k j, named (M.entry k j) ≠ some f) ∧ (∀ k, M.dir k ≠ some f) ∧ f ∉ own := by
  have hc := h.counted f hf
  refine ⟨fun k j he => ?_, fun k hd => ?_, fun ho => ?_⟩
  · have := h.entryRefs_pos he
    omega
  · have := h.dirRefs_pos hd
    omega
  · rw [if_pos ho] at hc
    omega

theorem entryRefs_eq_zero (hn : ∀ k j, named (M.entry k j) ≠ some f) : M.entryRefs f = 0 :=
  refs_eq_zero_iff.mpr fun c _ => hn c.1 c.2

theorem dirRefs_eq_zero (hn : ∀ k, M.dir k ≠ some f) : M.dirRefs f = 0 :=
  refs_eq_zero_iff.mpr fun k _ => hn k

/-- A page the kernel holds has count one. -/
theorem count_own (h : M.Ok A own) (ho : f ∈ own) : M.count f = 1 := by
  rw [h.counted f (h.own_main ho), entryRefs_eq_zero (h.own_fresh ho),
    dirRefs_eq_zero fun k hd => (h.dir_fresh hd).1 ho, if_pos ho]

/-- A table has count one. -/
theorem count_table (h : M.Ok A own) (hd : M.dir k = some T) : M.count T = 1 := by
  rw [h.counted T (h.dir_main hd), entryRefs_eq_zero (h.dir_fresh hd).2,
    if_neg (h.dir_fresh hd).1]
  have := refs_eq_one (t := M.dir) (h.dir_user hd) hd fun k' _ hk' => h.dir_inj hk' hd
  rw [dirRefs, this]

/-- A mapped page is no table and is not held by the kernel: its count is the
number of entries naming it. -/
theorem count_page (h : M.Ok A own) (he : named (M.entry k j) = some f) (hf : A.Main f) :
    M.count f = M.entryRefs f := by
  rw [h.counted f hf, dirRefs_eq_zero fun k' hd => (h.dir_fresh hd).2 k j he,
    if_neg fun ho => h.own_fresh ho k j he, Nat.add_zero]

/-- **A page is mapped at most once by each slot**, so its count is at most the
number of slots. -/
theorem entryRefs_le (h : M.Ok A own) (hf : 256 ≤ f) : M.entryRefs f ≤ 63 := by
  have := refs_le_card (t := M.pages) (I := userEntries) (x := f) (fun c => c.1 / 16)
    (Finset.Ico 1 64) (fun c hc _ => ?_) fun c hc c' hc' hx hx' hp => ?_
  · rwa [Nat.card_Ico] at this
  · obtain ⟨k, j⟩ := c
    have := mem_userDirs.mp (mem_userEntries.mp hc).1
    exact Finset.mem_Ico.mpr ⟨by omega, by omega⟩
  · obtain ⟨k, j⟩ := c
    obtain ⟨k', j'⟩ := c'
    have hpl := h.place hx hx' hf
    refine Prod.ext ?_ hpl.2
    change k = k'
    have : k / 16 = k' / 16 := hp
    omega

/-- **No counter of main memory is near its limit.** -/
theorem count_le (h : M.Ok A own) (hf : A.Main f) : M.count f ≤ 63 := by
  by_cases ho : f ∈ own
  · rw [h.count_own ho]
    omega
  by_cases hd : ∃ k, M.dir k = some f
  · obtain ⟨k, hk⟩ := hd
    rw [h.count_table hk]
    omega
  rw [h.counted f hf, if_neg ho, dirRefs_eq_zero fun k hk => hd ⟨k, hk⟩]
  exact h.entryRefs_le hf.le

/-! ### The eight elementary changes -/

section Changes

variable (h : M.Ok A own)

include h

/-- **A free page is taken**: it becomes a page the kernel holds. -/
theorem alloc (hf : A.Main f) (h0 : M.count f = 0) : (M.setCount f 1).Ok A (insert f own) := by
  obtain ⟨hne, hnd, hno⟩ := h.of_count_zero hf h0
  refine { h with
    counted := fun x hx => ?_
    reserved := fun x hx hx' hxm => ?_
    dir_fresh := fun {k T} hd => ⟨fun ht => ?_, (h.dir_fresh hd).2⟩
    own_main := fun {x} hx => ?_
    own_fresh := fun {x} hx => ?_ }
  · have hc := h.counted x hx
    have he : (M.setCount f 1).entryRefs x = M.entryRefs x := rfl
    have hd : (M.setCount f 1).dirRefs x = M.dirRefs x := rfl
    rw [setCount_count, he, hd]
    by_cases hxf : x = f
    · subst hxf
      rw [if_pos rfl, if_pos (Finset.mem_insert_self _ _), entryRefs_eq_zero hne,
        dirRefs_eq_zero hnd]
    · rw [if_neg hxf, hc]
      simp [hxf]
  · rw [setCount_count, if_neg fun he : x = f => hxm (he ▸ hf)]
    exact h.reserved x hx hx' hxm
  · rcases Finset.mem_insert.mp ht with rfl | ht
    · exact hnd k hd
    · exact (h.dir_fresh hd).1 ht
  · rcases Finset.mem_insert.mp hx with rfl | hx
    · exact hf
    · exact h.own_main hx
  · rcases Finset.mem_insert.mp hx with rfl | hx
    · exact hne
    · exact h.own_fresh hx

/-- **A page the kernel holds is given back.** -/
theorem free (ho : f ∈ own) : (M.setCount f 0).Ok A (own.erase f) := by
  refine { h with
    counted := fun x hx => ?_
    reserved := fun x hx hx' hxm => ?_
    dir_fresh := fun {k T} hd =>
      ⟨fun ht => (h.dir_fresh hd).1 (Finset.mem_of_mem_erase ht), (h.dir_fresh hd).2⟩
    own_main := fun {x} hx => h.own_main (Finset.mem_of_mem_erase hx)
    own_fresh := fun {x} hx => h.own_fresh (Finset.mem_of_mem_erase hx) }
  · have hc := h.counted x hx
    have he : (M.setCount f 0).entryRefs x = M.entryRefs x := rfl
    have hd : (M.setCount f 0).dirRefs x = M.dirRefs x := rfl
    rw [setCount_count, he, hd]
    by_cases hxf : x = f
    · subst hxf
      rw [if_pos rfl, if_neg (Finset.notMem_erase x own), entryRefs_eq_zero (h.own_fresh ho),
        dirRefs_eq_zero fun k hd => (h.dir_fresh hd).1 ho]
    · rw [if_neg hxf, hc]
      simp [hxf]
  · rw [setCount_count, if_neg fun he : x = f => hxm (he ▸ h.own_main ho)]
    exact h.reserved x hx hx' hxm

/-- **A page the kernel holds becomes a table**, still empty. -/
theorem placeTable (ho : f ∈ own) (hk : k ∈ userDirs) (hd : M.dir k = none) :
    (M.setDir k (some f)).Ok A (own.erase f) := by
  have hnd : ∀ k', M.dir k' ≠ some f := fun k' hk' => (h.dir_fresh hk').1 ho
  have hdir : ∀ {k' T}, (M.setDir k (some f)).dir k' = some T →
      (k' = k ∧ T = f) ∨ (k' ≠ k ∧ M.dir k' = some T) := by
    intro k' T hT
    rw [setDir_dir] at hT
    by_cases hkk : k' = k
    · rw [if_pos hkk] at hT
      exact Or.inl ⟨hkk, (Option.some.inj hT).symm⟩
    · rw [if_neg hkk] at hT
      exact Or.inr ⟨hkk, hT⟩
  refine
    { counted := fun x hx => ?_
      reserved := h.reserved
      dir_user := fun {k' T} hT => ?_
      entry_user := fun {k' j x} he => ?_
      dir_main := fun {k' T} hT => ?_
      dir_inj := fun {k' k'' T} hT hT' => ?_
      dir_fresh := fun {k' T} hT => ?_
      own_main := fun {x} hx => h.own_main (Finset.mem_of_mem_erase hx)
      own_fresh := fun {x} hx => h.own_fresh (Finset.mem_of_mem_erase hx)
      entry_main := h.entry_main
      place := h.place
      rw_only := h.rw_only }
  · have hc := h.counted x hx
    have he : (M.setDir k (some f)).entryRefs x = M.entryRefs x := rfl
    have hdr := dirRefs_setDir (M := M) hk (some f) x
    rw [hd, if_neg (by simp)] at hdr
    rw [setDir_count, he, hc]
    by_cases hxf : x = f
    · subst hxf
      rw [if_pos rfl] at hdr
      rw [if_pos ho, if_neg (Finset.notMem_erase x own)]
      omega
    · rw [if_neg fun hs => hxf (Option.some.inj hs).symm] at hdr
      simp only [Finset.mem_erase, ne_eq, hxf, not_false_eq_true, true_and]
      omega
  · rcases hdir hT with ⟨rfl, -⟩ | ⟨-, hT⟩
    · exact hk
    · exact h.dir_user hT
  · obtain ⟨⟨T, hT⟩, hj⟩ := h.entry_user he
    refine ⟨⟨T, ?_⟩, hj⟩
    rw [setDir_dir, if_neg (by rintro rfl; rw [hd] at hT; simp at hT), hT]
  · rcases hdir hT with ⟨-, rfl⟩ | ⟨-, hT⟩
    · exact h.own_main ho
    · exact h.dir_main hT
  · rcases hdir hT with ⟨hk', hTf⟩ | ⟨-, h1⟩ <;> rcases hdir hT' with ⟨hk'', hTf'⟩ | ⟨-, h2⟩
    · rw [hk', hk'']
    · exact absurd (hTf ▸ h2) (hnd _)
    · exact absurd (hTf' ▸ h1) (hnd _)
    · exact h.dir_inj h1 h2
  · rcases hdir hT with ⟨-, rfl⟩ | ⟨-, hT⟩
    · exact ⟨Finset.notMem_erase _ _, h.own_fresh ho⟩
    · exact ⟨fun ht => (h.dir_fresh hT).1 (Finset.mem_of_mem_erase ht), (h.dir_fresh hT).2⟩

/-- **An empty table is given back.** -/
theorem dropTable (hd : M.dir k = some T) (hempty : ∀ j, named (M.entry k j) = none) :
    ((M.setCount T 0).setDir k none).Ok A own := by
  have hdir : ∀ {k' T'}, ((M.setCount T 0).setDir k none).dir k' = some T' →
      k' ≠ k ∧ M.dir k' = some T' := by
    intro k' T' hT'
    rw [setDir_dir] at hT'
    by_cases hkk : k' = k
    · rw [if_pos hkk] at hT'
      simp at hT'
    · rw [if_neg hkk] at hT'
      exact ⟨hkk, hT'⟩
  refine
    { counted := fun x hx => ?_
      reserved := fun x hx hx' hxm => ?_
      dir_user := fun {k' T'} hT' => h.dir_user (hdir hT').2
      entry_user := fun {k' j x} he => ?_
      dir_main := fun {k' T'} hT' => h.dir_main (hdir hT').2
      dir_inj := fun {k' k'' T'} hT' hT'' => h.dir_inj (hdir hT').2 (hdir hT'').2
      dir_fresh := fun {k' T'} hT' => h.dir_fresh (hdir hT').2
      own_main := h.own_main
      own_fresh := h.own_fresh
      entry_main := h.entry_main
      place := h.place
      rw_only := h.rw_only }
  · have hc := h.counted x hx
    have he : ((M.setCount T 0).setDir k none).entryRefs x = M.entryRefs x := rfl
    have hdr := dirRefs_setDir (M := M.setCount T 0) (h.dir_user hd) none x
    have hdr0 : (M.setCount T 0).dirRefs x = M.dirRefs x := rfl
    rw [setCount_dir, hd, hdr0, if_neg (by simp : ¬(none : Option ℕ) = some x)] at hdr
    rw [setDir_count, setCount_count, he]
    by_cases hxT : x = T
    · subst hxT
      have h1 := h.count_table hd
      rw [if_pos rfl] at hdr ⊢
      rw [if_neg (h.dir_fresh hd).1] at hc ⊢
      omega
    · rw [if_neg fun hs => hxT (Option.some.inj hs).symm] at hdr
      rw [if_neg hxT]
      omega
  · rw [setDir_count, setCount_count, if_neg fun he : x = T => hxm (he ▸ h.dir_main hd)]
    exact h.reserved x hx hx' hxm
  · have he' : named (M.entry k' j) = some x := he
    obtain ⟨⟨T', hT'⟩, hj⟩ := h.entry_user he'
    refine ⟨⟨T', ?_⟩, hj⟩
    rw [setDir_dir, if_neg, setCount_dir, hT']
    rintro rfl
    rw [hempty j] at he'
    simp at he'

/-- **Writing one entry**, and with it the counters, in general. The entry may
name a frame `f` if `f` is no table and no page the kernel keeps, sits at this
offset wherever else it is mapped, and is writable nowhere else; and it may be
writable if nothing else names `f`. -/
theorem writeEntry {own' : Finset ℕ} {c : ℕ → ℕ} (hT : M.dir k = some T) (hj : j < 1024)
    (hsub : own' ⊆ own)
    (hcount : ∀ x, A.Main x →
      c x + (if named (M.entry k j) = some x then 1 else 0) + (if x ∈ own then 1 else 0) =
        M.count x + (if named w = some x then 1 else 0) + (if x ∈ own' then 1 else 0))
    (hres : ∀ x, 256 ≤ x → x < 4096 → ¬A.Main x → c x ≠ 0)
    (hmain : ∀ {f}, named w = some f → (f < 256 ∨ A.Main f) ∧ f ∉ own' ∧ ∀ k', M.dir k' ≠ some f)
    (hplace : ∀ {f k' j'}, named w = some f → 256 ≤ f → named (M.entry k' j') = some f →
      k % 16 = k' % 16 ∧ j = j')
    (hro : ∀ {f k' j'}, named w = some f → ¬(k' = k ∧ j' = j) → named (M.entry k' j') = some f →
      writable (M.entry k' j') = false)
    (hrw : ∀ {f}, named w = some f → writable w = true →
      256 ≤ f ∧ ∀ k' j', named (M.entry k' j') = some f → k' = k ∧ j' = j) :
    ({ M with count := c }.setEntry k j w).Ok A own' := by
  have hmem : (k, j) ∈ userEntries := mem_userEntries.mpr ⟨h.dir_user hT, hj⟩
  have hent : ∀ {k' j' x}, named (({ M with count := c }.setEntry k j w).entry k' j') = some x →
      (k' = k ∧ j' = j ∧ named w = some x) ∨
        (¬(k' = k ∧ j' = j) ∧ named (M.entry k' j') = some x) := by
    intro k' j' x hx
    rw [setEntry_entry] at hx
    by_cases hkj : k' = k ∧ j' = j
    · rw [if_pos hkj] at hx
      exact Or.inl ⟨hkj.1, hkj.2, hx⟩
    · rw [if_neg hkj] at hx
      exact Or.inr ⟨hkj, hx⟩
  refine
    { counted := fun x hx => ?_
      reserved := hres
      dir_user := h.dir_user
      entry_user := fun {k' j' x} he => ?_
      dir_main := h.dir_main
      dir_inj := h.dir_inj
      dir_fresh := fun {k' T'} hd => ⟨fun ht => (h.dir_fresh hd).1 (hsub ht), fun k'' j'' he => ?_⟩
      own_main := fun {x} hx => h.own_main (hsub hx)
      own_fresh := fun {x} hx k' j' he => ?_
      entry_main := fun {k' j' x} he => ?_
      place := fun {k' j' k'' j'' x} he he' hx => ?_
      rw_only := fun {k' j' x} he hwr => ?_ }
  · have hc := h.counted x hx
    have hr := entryRefs_setEntry (M := { M with count := c }) hmem w x
    have hx' := hcount x hx
    have he0 : ({ M with count := c } : Maps).entryRefs x = M.entryRefs x := rfl
    have hd0 : ({ M with count := c }.setEntry k j w).dirRefs x = M.dirRefs x := rfl
    rw [he0] at hr
    rw [setEntry_count, hd0]
    dsimp only at hr ⊢
    omega
  · rcases hent he with ⟨rfl, rfl, -⟩ | ⟨-, he⟩
    · exact ⟨⟨T, hT⟩, hj⟩
    · exact h.entry_user he
  · rcases hent he with ⟨-, -, hw⟩ | ⟨-, he⟩
    · exact (hmain hw).2.2 k' hd
    · exact (h.dir_fresh hd).2 k'' j'' he
  · rcases hent he with ⟨-, -, hw⟩ | ⟨-, he⟩
    · exact (hmain hw).2.1 hx
    · exact h.own_fresh (hsub hx) k' j' he
  · rcases hent he with ⟨-, -, hw⟩ | ⟨-, he⟩
    · exact (hmain hw).1
    · exact h.entry_main he
  · rcases hent he with ⟨rfl, rfl, hw⟩ | ⟨-, h₁⟩ <;> rcases hent he' with ⟨rfl, rfl, hw'⟩ | ⟨-, h₂⟩
    · exact ⟨rfl, rfl⟩
    · exact hplace hw hx h₂
    · exact ⟨(hplace hw' hx h₁).1.symm, (hplace hw' hx h₁).2.symm⟩
    · exact h.place h₁ h₂ hx
  · rcases hent he with ⟨rfl, rfl, hw⟩ | ⟨hne, h₁⟩
    · rw [setEntry_entry, if_pos ⟨rfl, rfl⟩] at hwr
      obtain ⟨hx, honly⟩ := hrw hw hwr
      refine ⟨hx, fun k'' j'' he'' => ?_⟩
      rcases hent he'' with ⟨rfl, rfl, -⟩ | ⟨-, h₂⟩
      · exact ⟨rfl, rfl⟩
      · exact honly k'' j'' h₂
    · rw [setEntry_entry, if_neg hne] at hwr
      obtain ⟨hx, honly⟩ := h.rw_only h₁ hwr
      refine ⟨hx, fun k'' j'' he'' => ?_⟩
      rcases hent he'' with ⟨rfl, rfl, hw⟩ | ⟨-, h₂⟩
      · rw [hro hw hne h₁] at hwr
        simp at hwr
      · exact honly k'' j'' h₂

/-- **A page the kernel holds is mapped**, at an entry that names nothing. -/
theorem mapOwned (hT : M.dir k = some T) (hj : j < 1024) (hn : named (M.entry k j) = none)
    (ho : f ∈ own) (hw : named w = some f) : (M.setEntry k j w).Ok A (own.erase f) := by
  have hnew : ∀ {x}, named w = some x → x = f := fun hx => Option.some.inj (hx.symm.trans hw)
  refine h.writeEntry (c := M.count) hT hj (Finset.erase_subset f own) (fun x hx => ?_) h.reserved
    (fun hx => ?_) (fun hx _ he => ?_) (fun hx _ he => ?_) fun hx _ => ?_
  · rw [hn, if_neg (by simp), hw]
    by_cases hxf : x = f
    · subst hxf
      rw [if_pos ho, if_pos rfl, if_neg (Finset.notMem_erase x own)]
    · rw [if_neg fun hs : some f = some x => hxf (Option.some.inj hs).symm]
      simp [hxf]
  · obtain rfl := hnew hx
    exact ⟨Or.inr (h.own_main ho), Finset.notMem_erase _ _, fun k' hd => (h.dir_fresh hd).1 ho⟩
  · exact absurd (hnew hx ▸ he) (h.own_fresh ho _ _)
  · exact absurd (hnew hx ▸ he) (h.own_fresh ho _ _)
  · obtain rfl := hnew hx
    exact ⟨(h.own_main ho).le, fun k' j' he => absurd he (h.own_fresh ho _ _)⟩

/-- **An entry is cleared** and the frame it named loses a reference. -/
theorem unmap (hT : M.dir k = some T) (hj : j < 1024) (he : named (M.entry k j) = some f)
    (hf : A.Main f) : ((M.setCount f (M.count f - 1)).setEntry k j 0#32).Ok A own := by
  refine h.writeEntry hT hj subset_rfl (fun x hx => ?_) (fun x hx hx' hxm => ?_)
    (fun hx => ?_) (fun hx => ?_) (fun hx => ?_) fun hx => ?_
  · have hpos := h.entryRefs_pos he
    rw [← h.count_page he hf] at hpos
    rw [Function.update_apply, he, named_zero]
    by_cases hxf : x = f
    · subst hxf
      simp only [reduceIte, reduceCtorEq]
      omega
    · rw [if_neg fun hs : some f = some x => hxf (Option.some.inj hs).symm, if_neg hxf]
      simp
  · rw [Function.update_apply, if_neg fun he : x = f => hxm (he ▸ hf)]
    exact h.reserved x hx hx' hxm
  all_goals simp at hx

/-- **An entry is cleared** that named nothing, or memory below `LOW_MEM`. -/
theorem unmapLow (hT : M.dir k = some T) (hj : j < 1024)
    (he : ∀ f, named (M.entry k j) = some f → f < 256) : (M.setEntry k j 0#32).Ok A own := by
  refine h.writeEntry (c := M.count) hT hj subset_rfl (fun x hx => ?_) h.reserved
    (fun hx => ?_) (fun hx => ?_) (fun hx => ?_) fun hx => ?_
  · rw [named_zero, if_neg (by simp : ¬(none : Option ℕ) = some x), if_neg]
    intro hs
    have := he x hs
    have := hx.le
    omega
  all_goals simp at hx

/-- **The flags of an entry change.** It may become writable if the count of its
frame says that nothing else names it. -/
theorem setFlags (hw : named w = named (M.entry k j)) (he : named (M.entry k j) = some f)
    (hwr : writable w = true → writable (M.entry k j) = true ∨ (A.Main f ∧ M.count f = 1)) :
    (M.setEntry k j w).Ok A own := by
  obtain ⟨⟨T, hT⟩, hj⟩ := h.entry_user he
  have hnew : ∀ {x}, named w = some x → x = f := fun hx =>
    Option.some.inj (hx.symm.trans (hw.trans he))
  refine h.writeEntry (c := M.count) hT hj subset_rfl (fun x hx => ?_) h.reserved
    (fun hx => ?_) (fun hx hf hx' => ?_) (fun hx hne hx' => ?_) fun hx hwx => ?_
  · rw [hw]
  · obtain rfl := hnew hx
    exact ⟨h.entry_main he, fun ho => h.own_fresh ho k j he, fun k' hd => (h.dir_fresh hd).2 k j he⟩
  · obtain rfl := hnew hx
    exact h.place he hx' hf
  · obtain rfl := hnew hx
    by_contra hcon
    rw [Bool.not_eq_false] at hcon
    have := (h.rw_only hx' hcon).2 k j he
    exact hne ⟨this.1.symm, this.2.symm⟩
  · obtain rfl := hnew hx
    rcases hwr hwx with hwr | ⟨hf, h1⟩
    · exact h.rw_only he hwr
    · refine ⟨hf.le, fun k' j' hx' => ?_⟩
      rw [h.count_page he hf] at h1
      have := eq_of_refs_eq_one h1 (h.entry_mem hx') hx' (h.entry_mem he) he
      exact ⟨congrArg Prod.fst this, congrArg Prod.snd this⟩

/-- **A page is shared**: a second entry, write-protected like the first and at the
same offset of its slot, comes to name it. -/
theorem share {k' T' : ℕ} (he : named (M.entry k j) = some f) (hf : A.Main f)
    (hro : writable (M.entry k j) = false) (hT' : M.dir k' = some T')
    (hn : named (M.entry k' j) = none) (hoff : k' % 16 = k % 16) (hw : named w = some f)
    (hwro : writable w = false) : ((M.setCount f (M.count f + 1)).setEntry k' j w).Ok A own := by
  obtain ⟨-, hj⟩ := h.entry_user he
  have hnew : ∀ {x}, named w = some x → x = f := fun hx => Option.some.inj (hx.symm.trans hw)
  refine h.writeEntry hT' hj subset_rfl (fun x hx => ?_) (fun x hx hx' hxm => ?_)
    (fun hx => ?_) (fun hx hle hx' => ?_) (fun hx hne hx' => ?_) fun hx hwx => ?_
  · rw [Function.update_apply, hn, hw, if_neg (by simp : ¬(none : Option ℕ) = some x)]
    by_cases hxf : x = f
    · subst hxf
      simp
    · rw [if_neg fun hs : some f = some x => hxf (Option.some.inj hs).symm, if_neg hxf]
  · rw [Function.update_apply, if_neg fun he : x = f => hxm (he ▸ hf)]
    exact h.reserved x hx hx' hxm
  · obtain rfl := hnew hx
    exact ⟨Or.inr hf, fun ho => h.own_fresh ho k j he, fun k' hd => (h.dir_fresh hd).2 k j he⟩
  · obtain rfl := hnew hx
    have := h.place he hx' hle
    exact ⟨hoff.trans this.1, this.2⟩
  · obtain rfl := hnew hx
    by_contra hcon
    rw [Bool.not_eq_false] at hcon
    have := (h.rw_only hx' hcon).2 k j he
    rw [← this.1, ← this.2, hro] at hcon
    simp at hcon
  · rw [hwro] at hwx
    simp at hwx

/-- **Memory below `LOW_MEM` is shared**, write-protected and uncounted. -/
theorem shareLow (hT : M.dir k = some T) (hj : j < 1024) (hn : named (M.entry k j) = none)
    (hw : named w = some f) (hf : f < 256) (hwro : writable w = false) :
    (M.setEntry k j w).Ok A own := by
  have hnew : ∀ {x}, named w = some x → x = f := fun hx => Option.some.inj (hx.symm.trans hw)
  refine h.writeEntry (c := M.count) hT hj subset_rfl (fun x hx => ?_) h.reserved
    (fun hx => ?_) (fun hx hf' hx' => ?_) (fun hx hne hx' => ?_) fun hx hwx => ?_
  · have := hx.le
    rw [hn, hw, if_neg (by simp : ¬(none : Option ℕ) = some x),
      if_neg fun hs : some f = some x => by rw [← Option.some.inj hs] at this; omega]
  · obtain rfl := hnew hx
    refine ⟨Or.inl hf, fun ho => ?_, fun k' hd => ?_⟩
    · have := (h.own_main ho).le
      omega
    · have := (h.dir_main hd).le
      omega
  · obtain rfl := hnew hx
    omega
  · obtain rfl := hnew hx
    by_contra hcon
    rw [Bool.not_eq_false] at hcon
    have := (h.rw_only hx' hcon).1
    omega
  · rw [hwro] at hwx
    simp at hwx

end Changes

end Maps.Ok

end Linux011.Mm

import Linux011.Inodes.Iget

/-!
# One copy of an inode

The slots that have a device have different inodes (`Linux011.Inodes.Iget.TableOk`): `iget` gives an
inode to a slot only after a look at all of them, and it does not sleep in between. What has
a reference cannot be taken for an empty slot, as every count is the number of references
outstanding. So all who have a reference to an inode have the same slot
(`Linux011.Inodes.Iget.one_copy`).

Each routine under way knows something about its slots (`Linux011.Inodes.Iget.RoutineOk`), and
knows it still after the others have gone on (`Linux011.Inodes.Iget.Keeps`).

The counts have 16 bits; with one reference more an inode in use is taken for an empty slot. And
calls of `iget` that overlap may return different slots, if a reference that one of them returned
is given back before the other looks (`Linux011.Inodes.Iget.not_oneCopy`).
-/

namespace Linux011.Inodes.Iget

open Relation (ReflTransGen)

variable {M : Mounts} {t t' : Table} {L L' R : ℕ → ℕ} {a k : ℕ × ℕ}
  {i j e : ℕ}

/-! ### Inodes that are mounted on -/

/-- The device and the number of the inode in a slot. -/
def Table.key (t : Table) (i : ℕ) : ℕ × ℕ := ((t.slot i).dev, (t.slot i).num)

/-- **From an inode to the root** of what is mounted on it. -/
def Mounts.Cross (M : Mounts) (k k' : ℕ × ℕ) : Prop :=
  ∃ i sb, (i, k) ∈ M.pins ∧ M.sbOf i = some sb ∧ k' = (M.dev sb, 1)

/-- Nothing is mounted on the inode, or no super block is found. -/
def Mounts.Final (M : Mounts) (k : ℕ × ℕ) : Prop := ∀ i, (i, k) ∈ M.pins → M.sbOf i = none

/-- **What is mounted has a device.** -/
def Mounts.Ok (M : Mounts) : Prop := ∀ sb i, M.imount sb = some i → M.dev sb ≠ 0

theorem Mounts.Ok.dev_ne (hM : M.Ok) {sb : ℕ} (h : M.sbOf i = some sb) : M.dev sb ≠ 0 := by
  have hfound := List.find?_some (p := fun j => decide (M.imount j = some i)) h
  exact hM sb i (of_decide_eq_true hfound)

/-! ### What is kept -/

/-- **The table**, where `L` is the number of references to each slot. -/
structure TableOk (M : Mounts) (t : Table) (L : ℕ → ℕ) : Prop where
  count : ∀ i, (t.slot i).count = L i
  apart : ∀ i j, i < nrInode → j < nrInode → (t.slot i).dev ≠ 0 → t.key j = t.key i → i = j
  pins : ∀ p ∈ M.pins, p.1 < nrInode ∧ 0 < L p.1 ∧ t.key p.1 = p.2 ∧ p.2.1 ≠ 0
  mount : ∀ i, (t.slot i).mount = true ↔ i ∈ M.pins.map Prod.fst
  cleared : ∀ n ∈ t.cleared, n = 0

/-- **The slot has the inode** that `iget` was called for. -/
structure Named (M : Mounts) (t : Table) (a : ℕ × ℕ) (i : ℕ) : Prop where
  lt : i < nrInode
  dev : (t.slot i).dev ≠ 0
  path : ReflTransGen M.Cross a (t.key i)
  final : M.Final (t.key i)

/-- **The slot belongs to the one** who has the reference. -/
structure Vacant (t : Table) (L : ℕ → ℕ) (e : ℕ) : Prop where
  lt : e < nrInode
  dev : (t.slot e).dev = 0
  one : L e = 1

/-- **What a routine knows**, under way for a call of `iget` with the arguments `a`. -/
def RoutineOk (M : Mounts) (t : Table) (L : ℕ → ℕ) (a : ℕ × ℕ) : Routine → Prop
  | .iget dev nr => a = (dev, nr)
  | .getEmpty dev nr i => a = (dev, nr) ∧ dev ≠ 0 ∧ i < nrInode
  | .igetWait dev nr empty i =>
    Vacant t L empty ∧ dev ≠ 0 ∧ i < nrInode ∧ ReflTransGen M.Cross a (dev, nr)
  | .igetCross empty sb =>
    Vacant t L empty ∧ M.dev sb ≠ 0 ∧ ReflTransGen M.Cross a (M.dev sb, 1)
  | .igetPut i => Named M t a i
  | .igetRead i => Named M t a i
  | _ => True

/-- **What a step leaves alone**: the slots that others have references to, `R` of them. -/
structure Keeps (R : ℕ → ℕ) (t : Table) (L : ℕ → ℕ) (t' : Table) (L' : ℕ → ℕ) : Prop where
  named : ∀ i, 0 < R i → (t.slot i).dev ≠ 0 → t'.key i = t.key i
  vacant : ∀ e, 0 < R e → (t.slot e).dev = 0 → L e = 1 → (t'.slot e).dev = 0 ∧ L' e = 1

theorem Named.keeps (h : Named M t a i) (hk : Keeps R t L t' L') (hi : 0 < R i) :
    Named M t' a i := by
  have hkey := hk.named i hi h.dev
  have hdev : (t'.slot i).dev = (t.slot i).dev := congrArg Prod.fst hkey
  exact ⟨h.lt, hdev ▸ h.dev, hkey ▸ h.path, hkey ▸ h.final⟩

theorem Vacant.keeps (h : Vacant t L e) (hk : Keeps R t L t' L') (he : 0 < R e) :
    Vacant t' L' e := by
  obtain ⟨hdev, hone⟩ := hk.vacant e he h.dev h.one
  exact ⟨h.lt, hdev, hone⟩

/-- A routine that others leave alone knows what it knew. -/
theorem RoutineOk.keeps {f : Routine} (h : RoutineOk M t L a f) (hk : Keeps R t L t' L')
    (hf : ∀ i ∈ f.holds, 0 < R i) : RoutineOk M t' L' a f := by
  cases f with
  | igetWait dev nr empty i => exact ⟨h.1.keeps hk (hf _ List.mem_cons_self), h.2⟩
  | igetCross empty sb => exact ⟨h.1.keeps hk (hf _ List.mem_cons_self), h.2⟩
  | igetPut i => exact Named.keeps h hk (hf _ List.mem_cons_self)
  | igetRead i => exact Named.keeps h hk (hf _ List.mem_cons_self)
  | _ => exact h

/-! ### Slots that are written to -/

/-- **Nothing that matters has changed.** -/
structure Same (t t' : Table) : Prop where
  count : ∀ i, (t'.slot i).count = (t.slot i).count
  key : ∀ i, t'.key i = t.key i
  mount : ∀ i, (t'.slot i).mount = (t.slot i).mount
  cleared : t'.cleared = t.cleared

theorem Same.dev_eq (h : Same t t') (i : ℕ) : (t'.slot i).dev = (t.slot i).dev :=
  congrArg Prod.fst (h.key i)

theorem TableOk.same (h : TableOk M t L) (hs : Same t t') : TableOk M t' L := by
  refine ⟨fun i => (hs.count i).trans (h.count i), fun i j hi hj hdev hkey => ?_, fun p hp => ?_,
    fun i => ?_, ?_⟩
  · rw [hs.dev_eq] at hdev
    rw [hs.key, hs.key] at hkey
    exact h.apart i j hi hj hdev hkey
  · rw [hs.key]
    exact h.pins p hp
  · rw [hs.mount]
    exact h.mount i
  · rw [hs.cleared]
    exact h.cleared

theorem Same.keeps (hs : Same t t') : Keeps R t L t' L :=
  ⟨fun i _ _ => hs.key i, fun e _ hdev hone => ⟨(hs.dev_eq e).trans hdev, hone⟩⟩

/-- A store into a slot that leaves its name and its count alone. -/
theorem Same.setSlot (t : Table) (i : ℕ) {f : Slot → Slot}
    (hf : ∀ n, (f n).count = n.count ∧ (f n).dev = n.dev ∧ (f n).num = n.num ∧
      (f n).mount = n.mount) : Same t (t.setSlot i f) := by
  have hslot : ∀ j, ((t.setSlot i f).slot j).count = (t.slot j).count ∧
      ((t.setSlot i f).slot j).dev = (t.slot j).dev ∧
      ((t.setSlot i f).slot j).num = (t.slot j).num ∧
      ((t.setSlot i f).slot j).mount = (t.slot j).mount := by
    intro j
    unfold Table.setSlot
    by_cases hj : j = i
    · rw [hj]
      dsimp only
      rw [Function.update_self]
      exact hf _
    · dsimp only
      rw [Function.update_of_ne hj]
      exact ⟨rfl, rfl, rfl, rfl⟩
  refine ⟨fun j => (hslot j).1, fun j => ?_, fun j => (hslot j).2.2.2, rfl⟩
  exact Prod.ext (hslot j).2.1 (hslot j).2.2.1

theorem Table.Others.same (h : t.Others t') : Same t t' := by
  refine ⟨fun i => ?_, fun i => ?_, fun i => ?_, h.cleared⟩
  · rw [h.slot i]
  · unfold Table.key
    rw [h.slot i]
  · rw [h.slot i]

/-! ### The four steps that matter -/

theorem Table.setSlot_self (t : Table) (i : ℕ) (f : Slot → Slot) :
    (t.setSlot i f).slot i = f (t.slot i) :=
  Function.update_self ..

theorem Table.setSlot_of_ne (t : Table) (f : Slot → Slot) (h : j ≠ i) :
    (t.setSlot i f).slot j = t.slot j :=
  Function.update_of_ne h ..

/-- A count is changed. -/
theorem TableOk.setCount (h : TableOk M t L) (f : Slot → Slot)
    (hf : ∀ n, (f n).dev = n.dev ∧ (f n).num = n.num ∧ (f n).mount = n.mount)
    (hself : (f (t.slot i)).count = L' i)
    (hother : ∀ j, j ≠ i → L' j = L j) (hpins : ∀ p ∈ M.pins, 0 < L' p.1) :
    TableOk M (t.setSlot i f) L' ∧ ∀ j, (t.setSlot i f).key j = t.key j := by
  have hslot : ∀ j, ((t.setSlot i f).slot j).dev = (t.slot j).dev ∧
      ((t.setSlot i f).slot j).num = (t.slot j).num ∧
      ((t.setSlot i f).slot j).mount = (t.slot j).mount := by
    intro j
    by_cases hj : j = i
    · rw [hj, Table.setSlot_self]
      exact hf _
    · rw [Table.setSlot_of_ne t f hj]
      exact ⟨rfl, rfl, rfl⟩
  have hkey : ∀ j, (t.setSlot i f).key j = t.key j := fun j =>
    Prod.ext (hslot j).1 (hslot j).2.1
  refine ⟨⟨fun j => ?_, fun j j' hj hj' hdev hk => ?_, fun p hp => ?_, fun j => ?_, h.cleared⟩,
    hkey⟩
  · by_cases hj : j = i
    · rw [hj, Table.setSlot_self, hself]
    · rw [Table.setSlot_of_ne t f hj, hother j hj]
      exact h.count j
  · rw [(hslot j).1] at hdev
    rw [hkey, hkey] at hk
    exact h.apart j j' hj hj' hdev hk
  · rw [hkey]
    exact ⟨(h.pins p hp).1, hpins p hp, (h.pins p hp).2.2⟩
  · rw [(hslot j).2.2]
    exact h.mount j

/-- **A reference more**, to an inode that has a device. -/
theorem TableOk.incCount (h : TableOk M t L) (hL : L' = fun j => L j + if j = i then 1 else 0)
    (hdev : (t.slot i).dev ≠ 0) (hfit : L i + 1 ≤ 0xffff) :
    TableOk M (t.incCount i) L' ∧ (∀ j, (t.incCount i).key j = t.key j) ∧
      Keeps R t L (t.incCount i) L' := by
  subst hL
  have hself : ((t.slot i).count + 1) % 0x10000 = L i + if i = i then 1 else 0 := by
    rw [h.count i, if_pos rfl]
    omega
  have hother : ∀ j, j ≠ i → (L j + if j = i then 1 else 0) = L j := by
    intro j hj
    rw [if_neg hj, Nat.add_zero]
  have hpins : ∀ p ∈ M.pins, 0 < L p.1 + if p.1 = i then 1 else 0 := fun p hp =>
    Nat.lt_of_lt_of_le (h.pins p hp).2.1 (Nat.le_add_right _ _)
  obtain ⟨hok, hkey⟩ := h.setCount (fun n => { n with count := (n.count + 1) % 0x10000 })
    (fun _ => ⟨rfl, rfl, rfl⟩) hself hother hpins
  refine ⟨hok, hkey, fun j _ _ => hkey j, fun e _ hedev hone => ⟨?_, ?_⟩⟩
  · exact (congrArg Prod.fst (hkey e)).trans hedev
  · have hne : e ≠ i := by
      rintro rfl
      exact hdev hedev
    simp only [if_neg hne, Nat.add_zero]
    exact hone

/-- **A reference less**; others have `R` of them. -/
theorem TableOk.decCount (h : TableOk M t L) (hL : ∀ j, L j = R j + if j = i then 1 else 0)
    (hpins : ∀ p ∈ M.pins, 0 < R p.1) {f : Slot → Slot}
    (hf : ∀ n, (f n).dev = n.dev ∧ (f n).num = n.num ∧ (f n).mount = n.mount)
    (hcount : (f (t.slot i)).count = (t.slot i).count - 1) :
    TableOk M (t.setSlot i f) R ∧ Keeps R t L (t.setSlot i f) R := by
  have hself := hL i
  rw [if_pos rfl] at hself
  have hone : (f (t.slot i)).count = R i := by
    rw [hcount, h.count]
    omega
  have hother : ∀ j, j ≠ i → R j = L j := by
    intro j hj
    rw [hL j, if_neg hj, Nat.add_zero]
  obtain ⟨hok, hkey⟩ := h.setCount f hf hone hother hpins
  refine ⟨hok, fun j _ _ => hkey j, fun e he hedev hone => ⟨?_, ?_⟩⟩
  · exact (congrArg Prod.fst (hkey e)).trans hedev
  · have hLe := hL e
    split at hLe <;> omega

/-- **An empty slot is cleared.** -/
theorem TableOk.clear (h : TableOk M t L) (hzero : (t.slot i).count = 0)
    (hL : L' = fun j => L j + if j = i then 1 else 0) (hR : ∀ j, R j ≤ L j) :
    TableOk M (t.clear i) L' ∧ Keeps R t L (t.clear i) L' := by
  subst hL
  have hLi : L i = 0 := (h.count i).symm.trans hzero
  have hne : ∀ j, 0 < L j → j ≠ i := by
    rintro j hj rfl
    omega
  have hself : (t.clear i).slot i = { Slot.zero with count := 1 } := Function.update_self ..
  have hother : ∀ j, j ≠ i → (t.clear i).slot j = t.slot j := fun j hj =>
    Function.update_of_ne hj ..
  have hkey : ∀ j, j ≠ i → (t.clear i).key j = t.key j := by
    intro j hj
    unfold Table.key
    rw [hother j hj]
  have hpin : ∀ p ∈ M.pins, p.1 ≠ i := fun p hp => hne _ (h.pins p hp).2.1
  refine ⟨⟨fun j => ?_, fun j j' hj hj' hdev hk => ?_, fun p hp => ?_, fun j => ?_, ?_⟩,
    fun j hj _ => ?_, fun e he hedev hone => ?_⟩
  · by_cases hj : j = i
    · rw [hj, hself]
      simp only [if_true, hLi]
    · rw [hother j hj, h.count]
      simp only [if_neg hj, Nat.add_zero]
  · have hji : j ≠ i := by
      rintro rfl
      rw [hself] at hdev
      exact hdev rfl
    rw [hother j hji] at hdev
    rw [hkey j hji] at hk
    have hji' : j' ≠ i := by
      rintro rfl
      refine hdev ((congrArg Prod.fst hk).symm.trans ?_)
      exact congrArg (fun n : Slot => n.dev) hself
    rw [hkey j' hji'] at hk
    exact h.apart j j' hj hj' hdev hk
  · rw [hkey _ (hpin p hp)]
    simp only [if_neg (hpin p hp), Nat.add_zero]
    exact h.pins p hp
  · by_cases hj : j = i
    · rw [hj, hself]
      refine ⟨fun hm => absurd hm Bool.false_ne_true, fun hm => ?_⟩
      obtain ⟨p, hp, hpi⟩ := List.mem_map.mp hm
      exact absurd hpi (hpin p hp)
    · rw [hother j hj]
      exact h.mount j
  · intro n hn
    rcases List.mem_cons.mp hn with rfl | hn
    · exact hzero
    · exact h.cleared n hn
  · exact hkey j (hne j (Nat.lt_of_lt_of_le hj (hR j)))
  · have hei := hne e (Nat.lt_of_lt_of_le he (hR e))
    rw [hother e hei]
    simp only [if_neg hei, Nat.add_zero]
    exact ⟨hedev, hone⟩

/-- **An empty slot is given an inode** that no slot has. -/
theorem TableOk.assign (h : TableOk M t L) (he : Vacant t L e) {dev nr : ℕ}
    (hnone : ∀ j, j < nrInode → t.key j ≠ (dev, nr)) (hR : R e = 0) :
    TableOk M (t.setSlot e fun n => { n with dev := dev, num := nr }) L ∧
      Keeps R t L (t.setSlot e fun n => { n with dev := dev, num := nr }) L := by
  obtain ⟨u, hu⟩ : ∃ u, u = t.setSlot e fun n => { n with dev := dev, num := nr } := ⟨_, rfl⟩
  rw [← hu]
  have hself : u.slot e = { t.slot e with dev := dev, num := nr } := by
    rw [hu]
    exact Table.setSlot_self ..
  have hother : ∀ j, j ≠ e → u.slot j = t.slot j := by
    intro j hj
    rw [hu]
    exact Table.setSlot_of_ne t _ hj
  have hkey : ∀ j, j ≠ e → u.key j = t.key j := by
    intro j hj
    unfold Table.key
    rw [hother j hj]
  have hkeye : u.key e = (dev, nr) := by
    unfold Table.key
    rw [hself]
  have hpin : ∀ p ∈ M.pins, p.1 ≠ e := by
    intro p hp hpe
    obtain ⟨-, -, hk, hdev⟩ := h.pins p hp
    rw [hpe] at hk
    exact hdev ((congrArg Prod.fst hk).symm.trans he.dev)
  refine ⟨⟨fun j => ?_, fun j j' hj hj' hdev hk => ?_, fun p hp => ?_, fun j => ?_, ?_⟩,
    fun j hj _ => ?_, fun e' he' hedev hone => ?_⟩
  · by_cases hj : j = e
    · rw [hj, hself]
      exact h.count e
    · rw [hother j hj]
      exact h.count j
  · by_cases hje : j = e
    · by_cases hje' : j' = e
      · rw [hje, hje']
      · rw [hje, hkeye, hkey j' hje'] at hk
        exact absurd hk (hnone j' hj')
    · by_cases hje' : j' = e
      · rw [hje', hkeye, hkey j hje] at hk
        exact absurd hk.symm (hnone j hj)
      · rw [hother j hje] at hdev
        rw [hkey j hje, hkey j' hje'] at hk
        exact h.apart j j' hj hj' hdev hk
  · rw [hkey _ (hpin p hp)]
    exact h.pins p hp
  · by_cases hj : j = e
    · rw [hj, hself]
      exact h.mount e
    · rw [hother j hj]
      exact h.mount j
  · rw [hu]
    exact h.cleared
  · refine hkey j ?_
    rintro rfl
    omega
  · have hne : e' ≠ e := by
      rintro rfl
      omega
    rw [hother e' hne]
    exact ⟨hedev, hone⟩

/-! ### A routine goes on -/

/-- **A routine has gone on**: `refs` are the references that it has now, as the routines `fs`. -/
structure Went (M : Mounts) (R : ℕ → ℕ) (a : ℕ × ℕ) (t : Table) (L : ℕ → ℕ) (t' : Table)
    (refs : List ℕ) (fs : List Routine) : Prop where
  ok : TableOk M t' fun j => refs.count j + R j
  keeps : Keeps R t L t' fun j => refs.count j + R j
  routines : ∀ g ∈ fs, RoutineOk M t' (fun j => refs.count j + R j) a g

variable {refs : List ℕ} {f : Routine} {fs : List Routine} {io : Option DInode}

theorem count_one (i j : ℕ) : [i].count j = if j = i then 1 else 0 := by
  rw [List.count_singleton]
  by_cases h : j = i
  · rw [if_pos h, if_pos (beq_iff_eq.mpr h.symm)]
  · rw [if_neg h, if_neg fun hi => h (beq_iff_eq.mp hi).symm]

/-- It has the references it had. -/
theorem Went.same (h : TableOk M t fun j => refs.count j + R j) (hs : Same t t')
    (hfs : ∀ g ∈ fs, RoutineOk M t' (fun j => refs.count j + R j) a g) :
    Went M R a t (fun j => refs.count j + R j) t' refs fs :=
  ⟨h.same hs, hs.keeps, hfs⟩

theorem Went.one {g : Routine} (h : TableOk M t fun j => refs.count j + R j) (hs : Same t t')
    (hg : RoutineOk M t' (fun j => refs.count j + R j) a g) :
    Went M R a t (fun j => refs.count j + R j) t' refs [g] := by
  refine Went.same h hs fun g' hg' => ?_
  obtain rfl := List.mem_singleton.mp hg'
  exact hg

theorem Went.two {g g' : Routine} (h : TableOk M t fun j => refs.count j + R j) (hs : Same t t')
    (hg : RoutineOk M t' (fun j => refs.count j + R j) a g)
    (hg' : RoutineOk M t' (fun j => refs.count j + R j) a g') :
    Went M R a t (fun j => refs.count j + R j) t' refs [g, g'] := by
  refine Went.same h hs fun c hc => ?_
  rcases List.mem_cons.mp hc with rfl | hc
  · exact hg
  · obtain rfl := List.mem_singleton.mp hc
    exact hg'

theorem Same.refl (t : Table) : Same t t := ⟨fun _ => rfl, fun _ => rfl, fun _ => rfl, rfl⟩

/-- **`get_empty_inode`** settles on a slot of the table. -/
theorem lookEmpty_lt (n last : ℕ) (o : Option ℕ) (ho : ∀ i, o = some i → i < nrInode) :
    ∀ i, (t.lookEmpty n last o).2 = some i → i < nrInode := by
  induction n generalizing last o with
  | zero => exact ho
  | succ n ih =>
    have hlt : (if nrInode ≤ last + 1 then 0 else last + 1) < nrInode := by
      split
      · decide
      · omega
    have hsome : ∀ i, some (if nrInode ≤ last + 1 then 0 else last + 1) = some i →
        i < nrInode := by
      intro i hi
      rw [← Option.some.inj hi]
      exact hlt
    unfold Table.lookEmpty
    dsimp only
    by_cases hcount : (t.slot (if nrInode ≤ last + 1 then 0 else last + 1)).count = 0
    · rw [if_pos hcount]
      by_cases hclean : (t.slot (if nrInode ≤ last + 1 then 0 else last + 1)).dirt = false ∧
          (t.slot (if nrInode ≤ last + 1 then 0 else last + 1)).lock = false
      · rw [if_pos hclean]
        exact hsome
      · rw [if_neg hclean]
        exact ih _ _ hsome
    · rw [if_neg hcount]
      exact ih _ _ ho

theorem getEmptyInode_ok {dev nr : ℕ} (h : TableOk M t fun j => [].count j + R j)
    (ha : a = (dev, nr)) (hdev : dev ≠ 0) (hgo : getEmptyInode t dev nr = .go t' fs) :
    Went M R a t (fun j => [].count j + R j) t' (fs.flatMap Routine.holds) fs := by
  unfold getEmptyInode at hgo
  have hlt := lookEmpty_lt (t := t) nrInode t.last none fun i hi => by cases hi
  rcases hlook : t.lookEmpty nrInode t.last none with ⟨last, _ | i⟩
  · rw [hlook] at hgo
    cases hgo
  · rw [hlook] at hgo hlt
    cases hgo
    exact Went.one h ⟨fun _ => rfl, fun _ => rfl, fun _ => rfl, rfl⟩ ⟨ha, hdev, hlt i rfl⟩

theorem Table.find_some {dev nr : ℕ} (h : t.find dev nr = some i) : i < nrInode := by
  have hmem := List.mem_of_find?_eq_some h
  exact List.mem_range.mp hmem

theorem Table.find_none {dev nr : ℕ} (h : t.find dev nr = none) :
    ∀ j, j < nrInode → t.key j ≠ (dev, nr) := by
  intro j hj hk
  have hnot := List.find?_eq_none.mp h j (List.mem_range.mpr hj)
  exact hnot (decide_eq_true ⟨congrArg Prod.fst hk, congrArg Prod.snd hk⟩)

/-- **The loop of `iget`**, which sleeps at a slot that has the inode, or takes the empty one. -/
theorem igetLoop_ok {dev nr : ℕ} (h : TableOk M t fun j => [e].count j + R j)
    (he : Vacant t (fun j => [e].count j + R j) e) (hdev : dev ≠ 0)
    (hpath : ReflTransGen M.Cross a (dev, nr)) (hgo : igetLoop t dev nr e = .go t' fs) :
    Went M R a t (fun j => [e].count j + R j) t' (fs.flatMap Routine.holds) fs := by
  unfold igetLoop at hgo
  rcases hfind : t.find dev nr with _ | i
  · rw [hfind] at hgo
    cases hgo
    have hR : R e = 0 := by
      have hone := he.one
      rw [count_one, if_pos rfl] at hone
      omega
    obtain ⟨hok, hkeeps⟩ := h.assign he (Table.find_none hfind) hR
    refine ⟨hok, hkeeps, fun g hg => ?_⟩
    rcases List.mem_cons.mp hg with rfl | hg
    · trivial
    obtain rfl := List.mem_singleton.mp hg
    have hkey : (t.setSlot e fun n => { n with dev := dev, num := nr }).key e = (dev, nr) := by
      unfold Table.key
      rw [Table.setSlot_self]
    have hedev : ((t.setSlot e fun n => { n with dev := dev, num := nr }).slot e).dev = dev :=
      congrArg Prod.fst hkey
    refine ⟨he.lt, ?_, ?_, ?_⟩
    · rw [hedev]
      exact hdev
    · rw [hkey]
      exact hpath
    · -- what is mounted on is in the table
      rw [hkey]
      intro i hi
      obtain ⟨hlt, -, hk, -⟩ := h.pins _ hi
      exact absurd hk (Table.find_none hfind i hlt)
  · rw [hfind] at hgo
    cases hgo
    exact Went.one h (Same.refl t) ⟨he, hdev, Table.find_some hfind, hpath⟩

theorem Keeps.trans {u : Table} {U : ℕ → ℕ} (h : Keeps R t L u U) (h' : Keeps R u U t' L') :
    Keeps R t L t' L' := by
  refine ⟨fun i hi hdev => ?_, fun e he hdev hone => ?_⟩
  · have hkey := h.named i hi hdev
    have hudev : (u.slot i).dev ≠ 0 := by
      rw [show (u.slot i).dev = (t.slot i).dev from congrArg Prod.fst hkey]
      exact hdev
    exact (h'.named i hi hudev).trans hkey
  · obtain ⟨hudev, huone⟩ := h.vacant e he hdev hone
    exact h'.vacant e he hudev huone

/-- **An empty slot is taken.** -/
theorem claim_ok {dev nr : ℕ} (h : TableOk M t fun j => [].count j + R j) (hi : i < nrInode)
    (hzero : (t.slot i).count = 0) (hdev : dev ≠ 0) (hpath : ReflTransGen M.Cross a (dev, nr))
    (hgo : igetLoop (t.clear i) dev nr i = .go t' fs) :
    Went M R a t (fun j => [].count j + R j) t' (fs.flatMap Routine.holds) fs := by
  have hL : (fun j => [i].count j + R j) = fun j => [].count j + R j + if j = i then 1 else 0 := by
    funext j
    rw [count_one, List.count_nil]
    omega
  obtain ⟨hok, hkeeps⟩ := h.clear (R := R) hzero hL fun j => Nat.le_add_left _ _
  have hone : [i].count i + R i = 1 := by
    have hRi := h.count i
    rw [hzero, List.count_nil] at hRi
    rw [count_one, if_pos rfl]
    omega
  have hclear : ((t.clear i).slot i).dev = 0 := by
    have hslot : (t.clear i).slot i = { Slot.zero with count := 1 } := Function.update_self ..
    rw [hslot]
    rfl
  have hwent := igetLoop_ok hok ⟨hi, hclear, hone⟩ hdev hpath hgo
  exact ⟨hwent.ok, hkeeps.trans hwent.keeps, hwent.routines⟩

/-- A count goes up. -/
theorem inc_ok (h : TableOk M t fun j => [e].count j + R j)
    (he : Vacant t (fun j => [e].count j + R j) e) (hdev : (t.slot i).dev ≠ 0)
    (hrefs : ∀ j, refs.count j = [e].count j + if j = i then 1 else 0)
    (hfit : refs.count i + R i ≤ 0xffff)
    (hfs : ∀ g ∈ fs, ∀ L', Vacant (t.incCount i) L' e → (t.incCount i).key i = t.key i →
      RoutineOk M (t.incCount i) L' a g) :
    Went M R a t (fun j => [e].count j + R j) (t.incCount i) refs fs := by
  have hL : (fun j => refs.count j + R j) =
      fun j => [e].count j + R j + if j = i then 1 else 0 := by
    funext j
    rw [hrefs]
    omega
  rw [hrefs, if_pos rfl] at hfit
  obtain ⟨hok, hkey, hkeeps⟩ :=
    h.incCount (R := fun j => [e].count j + R j) hL hdev (by omega)
  have hpos : 0 < [e].count e + R e := by
    rw [he.one]
    exact Nat.one_pos
  refine ⟨hok, ⟨fun j hj => hkeeps.named j ?_, fun j hj => hkeeps.vacant j ?_⟩, fun g hg => ?_⟩
  · exact Nat.lt_of_lt_of_le hj (Nat.le_add_left _ _)
  · exact Nat.lt_of_lt_of_le hj (Nat.le_add_left _ _)
  · exact hfs g hg _ (he.keeps hkeeps hpos) (hkey i)

/-- **A slot with the inode is found**, and its count goes up. -/
theorem found_ok (hM : M.Ok) {dev nr : ℕ} (h : TableOk M t fun j => [e].count j + R j)
    (he : Vacant t (fun j => [e].count j + R j) e) (hdev : dev ≠ 0) (hi : i < nrInode)
    (hpath : ReflTransGen M.Cross a (dev, nr)) (hhas : t.Has dev nr i)
    (hgo : (if (t.slot i).mount then
        match M.sbOf i with
        | none => .go (t.incCount i) [.iput e, .igetPut i]
        | some sb => .go (t.incCount i) [.iput i, .igetCross e sb]
      else .go (t.incCount i) [.iput e, .igetPut i]) = Turn.go t' fs)
    (hfit : ∀ j, (fs.flatMap Routine.holds).count j + R j ≤ 0xffff) :
    Went M R a t (fun j => [e].count j + R j) t' (fs.flatMap Routine.holds) fs := by
  have hkey : t.key i = (dev, nr) := Prod.ext hhas.1 hhas.2
  have hidev : (t.slot i).dev ≠ 0 := hhas.1 ▸ hdev
  have hmount := h.mount i
  -- a mounted-on inode with this name is the one in this slot
  have hpin : ∀ i', (i', (dev, nr)) ∈ M.pins → i' = i := by
    intro i' hi'
    obtain ⟨hlt, -, hk, -⟩ := h.pins _ hi'
    exact (h.apart i i' hi hlt hidev (hk.trans hkey.symm)).symm
  -- the inode is returned where nothing is mounted on it, or no super block is found
  have hreturn : M.Final (dev, nr) → t' = t.incCount i → fs = [.iput e, .igetPut i] →
      Went M R a t (fun j => [e].count j + R j) t' (fs.flatMap Routine.holds) fs := by
    rintro hfinal rfl rfl
    refine inc_ok h he hidev (fun j => ?_) (hfit i) fun g hg L' _ hk => ?_
    · rw [← count_one, ← List.count_append]
      rfl
    · rcases List.mem_cons.mp hg with rfl | hg
      · trivial
      obtain rfl := List.mem_singleton.mp hg
      rw [hkey] at hk
      refine ⟨hi, ?_, hk ▸ hpath, hk ▸ hfinal⟩
      rw [show ((t.incCount i).slot i).dev = dev from congrArg Prod.fst hk]
      exact hdev
  split at hgo
  · next hm =>
    rcases hsb : M.sbOf i with _ | sb
    · rw [hsb] at hgo
      cases hgo
      refine hreturn (fun i' hi' => ?_) rfl rfl
      rw [hpin i' hi']
      exact hsb
    · rw [hsb] at hgo
      cases hgo
      refine inc_ok h he hidev (fun j => ?_) (hfit i) fun g hg L' hv _ => ?_
      · rw [← count_one, ← List.count_append]
        exact List.Perm.count_eq (List.Perm.swap _ _ []) j
      · rcases List.mem_cons.mp hg with rfl | hg
        · trivial
        obtain rfl := List.mem_singleton.mp hg
        obtain ⟨p, hp, hpi⟩ := List.mem_map.mp (hmount.mp hm)
        have hpk : p.2 = (dev, nr) := by
          rw [← (h.pins p hp).2.2.1, hpi]
          exact hkey
        have hcross : M.Cross (dev, nr) (M.dev sb, 1) := by
          refine ⟨i, sb, ?_, hsb, rfl⟩
          rw [← hpi, ← hpk]
          exact hp
        exact ⟨hv, hM.dev_ne hsb, hpath.tail hcross⟩
  · next hm =>
    cases hgo
    refine hreturn (fun i' hi' => absurd (hmount.mpr ?_) hm) rfl rfl
    exact List.mem_map.mpr ⟨_, hi', hpin i' hi'⟩

/-- **A reference is given back.** -/
theorem dec_ok (h : TableOk M t fun j => [i].count j + R j) (hpins : ∀ p ∈ M.pins, 0 < R p.1)
    {f : Slot → Slot}
    (hf : ∀ n, (f n).dev = n.dev ∧ (f n).num = n.num ∧ (f n).mount = n.mount)
    (hcount : (f (t.slot i)).count = (t.slot i).count - 1) :
    Went M R a t (fun j => [i].count j + R j) (t.setSlot i f) [] [] := by
  have hR : (fun j => [].count j + R j) = R := by
    funext j
    rw [List.count_nil, Nat.zero_add]
  have hL : ∀ j, [i].count j + R j = R j + if j = i then 1 else 0 := by
    intro j
    rw [count_one, Nat.add_comm]
  obtain ⟨hok, hkeeps⟩ := h.decCount hL hpins hf hcount
  refine ⟨?_, ?_, fun g hg => absurd hg List.not_mem_nil⟩
  · rw [hR]
    exact hok
  · rw [hR]
    exact hkeeps

theorem decCount_ok (h : TableOk M t fun j => [i].count j + R j)
    (hpins : ∀ p ∈ M.pins, 0 < R p.1) (hfits : ∀ j, [i].count j + R j ≤ 0xffff) :
    Went M R a t (fun j => [i].count j + R j) (t.decCount i) [] [] := by
  refine dec_ok h hpins (fun _ => ⟨rfl, rfl, rfl⟩) ?_
  have hfit := hfits i
  rw [← h.count i] at hfit
  have hpos := h.count i
  rw [count_one, if_pos rfl] at hpos
  dsimp only
  omega

/-- **`iput`, from `repeat` on.** -/
theorem iputLoop_ok (h : TableOk M t fun j => [i].count j + R j)
    (hpins : ∀ p ∈ M.pins, 0 < R p.1) (hfits : ∀ j, [i].count j + R j ≤ 0xffff)
    (hgo : iputLoop t i = .go t' fs) :
    Went M R a t (fun j => [i].count j + R j) t' (fs.flatMap Routine.holds) fs := by
  unfold iputLoop at hgo
  split at hgo
  · cases hgo
    exact decCount_ok h hpins hfits
  split at hgo
  · cases hgo
  split at hgo
  · cases hgo
    exact Went.two h (Same.refl t) trivial trivial
  · cases hgo
    exact decCount_ok h hpins hfits

/-- **A step of a routine.** -/
theorem Routine.step_ok (hM : M.Ok) (h : TableOk M t fun j => f.holds.count j + R j)
    (hpins : ∀ p ∈ M.pins, 0 < R p.1) (hfits : ∀ j, f.holds.count j + R j ≤ 0xffff)
    (hf : RoutineOk M t (fun j => f.holds.count j + R j) a f) (hres : f.result = none)
    (hgo : f.step M t io = .go t' fs)
    (hfits' : ∀ j, (fs.flatMap Routine.holds).count j + R j ≤ 0xffff) :
    Went M R a t (fun j => f.holds.count j + R j) t' (fs.flatMap Routine.holds) fs := by
  unfold Routine.step at hgo
  cases f with
  | iget dev nr =>
    dsimp only at hgo
    split at hgo
    · cases hgo
    · next hdev => exact getEmptyInode_ok h hf hdev hgo
  | getEmpty dev nr i =>
    obtain ⟨ha, hdev, hi⟩ := hf
    dsimp only at hgo
    split at hgo
    · cases hgo
    split at hgo
    · cases hgo
      exact Went.two h (Same.refl t) trivial ⟨ha, hdev, hi⟩
    split at hgo
    · exact getEmptyInode_ok h ha hdev hgo
    · next hzero =>
      exact claim_ok h hi (not_not.mp hzero) hdev (ha ▸ .refl) hgo
  | igetWait dev nr empty i =>
    obtain ⟨hv, hdev, hi, hpath⟩ := hf
    dsimp only at hgo
    split at hgo
    · cases hgo
    split at hgo
    · next hhas => exact found_ok hM h hv hdev hi hpath hhas hgo hfits'
    · exact igetLoop_ok h hv hdev hpath hgo
  | igetCross empty sb =>
    obtain ⟨hv, hdev, hpath⟩ := hf
    exact igetLoop_ok h hv hdev hpath hgo
  | igetPut i => cases hres
  | igetRead i => cases hres
  | iput i =>
    dsimp only at hgo
    split at hgo
    · cases hgo
    split at hgo
    · cases hgo
    split at hgo
    · split at hgo
      · cases hgo
        exact decCount_ok h hpins hfits
      · next hcount =>
        cases hgo
        have hzero : ((t.slot i).count + 0xffff) % 0x10000 = 0 := by
          have hself := not_not.mp hcount
          unfold Table.decCount at hself
          rwa [Table.setSlot_self] at hself
        have hfit := hfits i
        have hcounti : (t.slot i).count = [i].count i + R i := h.count i
        refine dec_ok h hpins (fun _ => ⟨rfl, rfl, rfl⟩) ?_
        change 0 = (t.slot i).count - 1
        change [i].count i + R i ≤ 0xffff at hfit
        omega
    split at hgo
    · cases hgo
      exact decCount_ok h hpins hfits
    split at hgo
    · cases hgo
      exact Went.two h (Same.refl t) trivial trivial
    · exact iputLoop_ok h hpins hfits hgo
  | iputRepeat i =>
    dsimp only at hgo
    split at hgo
    · cases hgo
    · exact iputLoop_ok h hpins hfits hgo
  | readInode i =>
    dsimp only at hgo
    split at hgo
    · cases hgo
    · cases hgo
      exact Went.one h (Same.setSlot t i fun _ => ⟨rfl, rfl, rfl, rfl⟩) trivial
  | readBread i =>
    dsimp only at hgo
    split at hgo
    · cases hgo
    · cases hgo
      exact Went.one h (Same.setSlot t i fun _ => ⟨rfl, rfl, rfl, rfl⟩) trivial
  | readDone i =>
    cases hgo
    exact Went.same h (Same.setSlot t i fun _ => ⟨rfl, rfl, rfl, rfl⟩)
      fun g hg => absurd hg List.not_mem_nil
  | writeInode i =>
    dsimp only at hgo
    split at hgo
    · cases hgo
    split at hgo
    · cases hgo
      exact Went.same h (Same.refl t) fun g hg => absurd hg List.not_mem_nil
    · cases hgo
      exact Went.one h (Same.setSlot t i fun _ => ⟨rfl, rfl, rfl, rfl⟩) trivial
  | writeBread i =>
    dsimp only at hgo
    split at hgo
    · cases hgo
    · cases hgo
      exact Went.one h (Same.setSlot t i fun _ => ⟨rfl, rfl, rfl, rfl⟩) trivial
  | writeDone i =>
    cases hgo
    exact Went.same h (Same.setSlot t i fun _ => ⟨rfl, rfl, rfl, rfl⟩)
      fun g hg => absurd hg List.not_mem_nil
  | syncDev =>
    cases hgo
    exact Went.same h (Same.refl t) fun g hg => absurd hg List.not_mem_nil

/-! ### All of them -/

variable {s s' : State} {c : Call} {l₁ l₂ : List Call} {st : List Routine}

/-- **There are not too many references** for 16 bits. -/
def State.Fits (M : Mounts) (s : State) : Prop := ∀ i, (s.held M).count i ≤ 0xffff

/-- **What is kept.** -/
structure Inv (M : Mounts) (s : State) : Prop where
  fits : s.Fits M
  table : TableOk M s.table fun j => (s.held M).count j
  refs : ∀ r ∈ s.refs, Named M s.table (r.dev, r.nr) r.slot
  calls : ∀ c ∈ s.calls, ∀ f ∈ c.stack,
    RoutineOk M s.table (fun j => (s.held M).count j) c.args f

/-- The references of all but the routine `f`. -/
def State.rest (M : Mounts) (s : State) (l₁ l₂ : List Call) (st : List Routine) : List ℕ :=
  M.pins.map Prod.fst ++ (s.refs.map Reference.slot ++
    ((l₁.flatMap fun c => c.stack.flatMap Routine.holds) ++ (st.flatMap Routine.holds ++
      l₂.flatMap fun c => c.stack.flatMap Routine.holds)))

theorem held_count (hc : s.calls = l₁ ++ c :: l₂) (hf : c.stack = fs ++ st) (j : ℕ) :
    (s.held M).count j = (fs.flatMap Routine.holds).count j + (s.rest M l₁ l₂ st).count j := by
  unfold State.held State.rest
  rw [hc]
  simp only [List.flatMap_append, List.flatMap_cons, hf, List.count_append]
  omega

theorem rest_pins {p : ℕ × ℕ × ℕ} (hp : p ∈ M.pins) : 0 < (s.rest M l₁ l₂ st).count p.1 :=
  List.count_pos_iff.mpr (List.mem_append_left _ (List.mem_map_of_mem hp))

theorem rest_refs {r : Reference} (hr : r ∈ s.refs) :
    0 < (s.rest M l₁ l₂ st).count r.slot :=
  List.count_pos_iff.mpr (List.mem_append_right _ (List.mem_append_left _
    (List.mem_map_of_mem hr)))

/-- A routine of another call, or further down. -/
theorem rest_holds {g : Routine} (hg : (∃ c ∈ l₁, g ∈ c.stack) ∨ g ∈ st ∨ ∃ c ∈ l₂, g ∈ c.stack) :
    ∀ i ∈ g.holds, 0 < (s.rest M l₁ l₂ st).count i := by
  intro i hi
  refine List.count_pos_iff.mpr (List.mem_append_right _ (List.mem_append_right _ ?_))
  rcases hg with ⟨c, hc, hg⟩ | hg | ⟨c, hc, hg⟩
  · exact List.mem_append_left _ (List.mem_flatMap.mpr ⟨c, hc, List.mem_flatMap.mpr ⟨g, hg, hi⟩⟩)
  · exact List.mem_append_right _ (List.mem_append_left _ (List.mem_flatMap.mpr ⟨g, hg, hi⟩))
  · exact List.mem_append_right _ (List.mem_append_right _
      (List.mem_flatMap.mpr ⟨c, hc, List.mem_flatMap.mpr ⟨g, hg, hi⟩⟩))

/-- **A call goes on.** -/
theorem Inv.run (hM : M.Ok) (h : Inv M s) (hc : s.calls = l₁ ++ c :: l₂) (hf : c.stack = f :: st)
    (hgo : f.step M s.table io = .go t fs) (hfits : (s.after t l₁ c l₂ (fs ++ st) none).Fits M)
    (hres : f.result = none) : Inv M (s.after t l₁ c l₂ (fs ++ st) none) := by
  have hL : (fun j => (s.held M).count j) =
      fun j => f.holds.count j + (s.rest M l₁ l₂ st).count j := by
    funext j
    rw [held_count hc (show c.stack = [f] ++ st from hf), List.flatMap_singleton]
  have hL' : (fun j => ((s.after t l₁ c l₂ (fs ++ st) none).held M).count j) =
      fun j => (fs.flatMap Routine.holds).count j + (s.rest M l₁ l₂ st).count j := by
    funext j
    exact held_count (s := s.after t l₁ c l₂ (fs ++ st) none) rfl rfl j
  have hmem : c ∈ s.calls := by
    rw [hc]
    exact List.mem_append_right _ List.mem_cons_self
  have htable := h.table
  have hknown := h.calls c hmem f (hf ▸ List.mem_cons_self)
  rw [hL] at htable hknown
  have hwent := Routine.step_ok hM htable (fun p hp => rest_pins hp)
    (fun j => by rw [← congrFun hL j]; exact h.fits j) hknown hres hgo
    (fun j => by rw [← congrFun hL' j]; exact hfits j)
  have hkeeps := hwent.keeps
  rw [← hL, ← hL'] at hkeeps
  have hothers : ∀ c' ∈ s.calls, ∀ g ∈ c'.stack,
      ((∃ c ∈ l₁, g ∈ c.stack) ∨ g ∈ st ∨ ∃ c ∈ l₂, g ∈ c.stack) →
      RoutineOk M t (fun j => ((s.after t l₁ c l₂ (fs ++ st) none).held M).count j) c'.args g :=
    fun c' hc' g hg hrest => (h.calls c' hc' g hg).keeps hkeeps (rest_holds hrest)
  refine ⟨hfits, ?_, fun r hr => ?_, fun c' hc' g hg => ?_⟩
  · rw [hL']
    exact hwent.ok
  · exact (h.refs r hr).keeps hkeeps (rest_refs hr)
  · rcases List.mem_append.mp hc' with hc' | hc'
    · refine hothers c' ?_ g hg (Or.inl ⟨c', hc', hg⟩)
      rw [hc]
      exact List.mem_append_left _ hc'
    rcases List.mem_cons.mp hc' with rfl | hc'
    · rcases List.mem_append.mp hg with hg | hg
      · rw [hL']
        exact hwent.routines g hg
      · exact hothers c hmem g (hf ▸ List.mem_cons_of_mem _ hg) (Or.inr (Or.inl hg))
    · refine hothers c' ?_ g hg (Or.inr (Or.inr ⟨c', hc', hg⟩))
      rw [hc]
      exact List.mem_append_right _ (List.mem_cons_of_mem _ hc')

theorem held_holds (hc : c ∈ s.calls) (hf : f ∈ c.stack) :
    ∀ i ∈ f.holds, 0 < (s.held M).count i := fun _ hi =>
  List.count_pos_iff.mpr (List.mem_append_right _ (List.mem_append_right _
    (List.mem_flatMap.mpr ⟨c, hc, List.mem_flatMap.mpr ⟨f, hf, hi⟩⟩)))

/-- Where the references are as many as they were, and nothing that matters has changed. -/
theorem Inv.same (h : Inv M s) (hs : Same s.table s'.table)
    (hheld : ∀ j, (s'.held M).count j = (s.held M).count j)
    (hrefs : ∀ r ∈ s'.refs, r ∈ s.refs ∨ Named M s.table (r.dev, r.nr) r.slot)
    (hcalls : ∀ c ∈ s'.calls, ∀ f ∈ c.stack,
      RoutineOk M s'.table (fun j => (s.held M).count j) c.args f) : Inv M s' := by
  have hL : (fun j => (s'.held M).count j) = fun j => (s.held M).count j := funext hheld
  refine ⟨fun j => (hheld j).trans_le (h.fits j), ?_, fun r hr => ?_, ?_⟩
  · rw [hL]
    exact h.table.same hs
  · have hnamed : Named M s.table (r.dev, r.nr) r.slot := (hrefs r hr).elim (h.refs r) id
    exact hnamed.keeps (hs.keeps (R := fun _ => 1) (L := fun _ => 0)) Nat.one_pos
  · rw [hL]
    exact hcalls

/-- What a routine knows stays, if nothing that matters changes. -/
theorem Inv.known (h : Inv M s) (hs : Same s.table t) (hc : c ∈ s.calls) (hf : f ∈ c.stack) :
    RoutineOk M t (fun j => (s.held M).count j) c.args f :=
  (h.calls c hc f hf).keeps hs.keeps (held_holds (M := M) hc hf)

/-- **`iget` returns.** -/
theorem Inv.ret (h : Inv M s) (hc : s.calls = l₁ ++ c :: l₂) (hf : c.stack = f :: st)
    (hgo : f.step M s.table io = .go t fs) (hres : f.result = some i) :
    Inv M (s.after t l₁ c l₂ (fs ++ st) (some i)) := by
  have hmem : c ∈ s.calls := by
    rw [hc]
    exact List.mem_append_right _ List.mem_cons_self
  have hknown := h.calls c hmem f (hf ▸ List.mem_cons_self)
  -- the two routines that return something
  have hplain : t = s.table ∧ fs = [] ∧ f.holds = [i] ∧
      Named M s.table c.args i := by
    cases f with
    | igetPut j =>
      cases hgo
      cases hres
      exact ⟨rfl, rfl, rfl, hknown⟩
    | igetRead j =>
      cases hgo
      cases hres
      exact ⟨rfl, rfl, rfl, hknown⟩
    | _ => cases hres
  obtain ⟨rfl, rfl, hholds, hnamed⟩ := hplain
  refine h.same (Same.refl _) (fun j => ?_) (fun r hr => ?_) fun c' hc' g hg => ?_
  · rw [held_count hc (show c.stack = [f] ++ st from hf), List.flatMap_singleton, hholds]
    unfold State.held State.rest State.after
    simp only [List.flatMap_append, List.flatMap_cons, List.nil_append, List.map_cons,
      List.count_append, List.count_cons, List.count_nil]
    omega
  · rcases List.mem_cons.mp hr with rfl | hr
    · exact Or.inr hnamed
    · exact Or.inl hr
  · have hold : c' ∈ s.calls → RoutineOk M s.table (fun j => (s.held M).count j) c'.args g :=
      fun hc'' => h.known (Same.refl _) hc'' hg
    rcases List.mem_append.mp hc' with hc' | hc'
    · refine hold ?_
      rw [hc]
      exact List.mem_append_left _ hc'
    rcases List.mem_cons.mp hc' with rfl | hc'
    · have hst : g ∈ c.stack := by
        rw [hf]
        exact List.mem_cons_of_mem _ hg
      have hkeep := h.known (Same.refl s.table) hmem hst
      exact hkeep
    · refine hold ?_
      rw [hc]
      exact List.mem_append_right _ (List.mem_cons_of_mem _ hc')

/-- **A step keeps it**, if there are not too many references then. -/
theorem Inv.step (hM : M.Ok) (h : Inv M s) (hs : Step M s s') (hfits : s'.Fits M) : Inv M s' := by
  cases hs with
  | iget dev nr =>
    refine h.same (Same.refl _) (fun j => ?_) (fun r hr => Or.inl hr) fun c hc f hf => ?_
    · unfold State.held
      simp only [List.flatMap_cons, Routine.holds, List.flatMap_nil, List.nil_append]
    · rcases List.mem_cons.mp hc with rfl | hc
      · obtain rfl := List.mem_singleton.mp hf
        rfl
      · exact h.known (Same.refl _) hc hf
  | @iput r l₁ l₂ hr =>
    refine h.same (Same.refl _) (fun j => ?_) (fun r' hr' => Or.inl ?_) fun c hc f hf => ?_
    · unfold State.held
      rw [hr]
      simp only [List.flatMap_cons, Routine.holds, List.flatMap_nil, List.append_nil,
        List.map_append, List.map_cons, List.count_append, List.count_cons, List.count_nil]
      omega
    · rw [hr]
      rcases List.mem_append.mp hr' with hr' | hr'
      · exact List.mem_append_left _ hr'
      · exact List.mem_append_right _ (List.mem_cons_of_mem _ hr')
    · rcases List.mem_cons.mp hc with rfl | hc
      · obtain rfl := List.mem_singleton.mp hf
        trivial
      · exact h.known (Same.refl _) hc hf
  | @run c l₁ l₂ f st fs t io hc hf hgo =>
    rcases hres : f.result with _ | i
    · rw [hres] at hfits
      exact h.run hM hc hf hgo hfits hres
    · exact h.ret hc hf hgo hres
  | @others t ht =>
    exact h.same ht.same (fun j => rfl) (fun r hr => Or.inl hr)
      fun c hc f hf => h.known ht.same hc hf

/-- **The table is in order**, and no call is under way. -/
structure Start (M : Mounts) (s : State) : Prop where
  table : TableOk M s.table fun j => (s.held M).count j
  fits : s.Fits M
  refs : ∀ r ∈ s.refs, Named M s.table (r.dev, r.nr) r.slot
  calls : s.calls = []
  returns : s.returns = []

/-- From an inode there is one way across the mounts. -/
theorem TableOk.cross_unique (h : TableOk M t L) : Relator.RightUnique M.Cross := by
  rintro k k₁ k₂ ⟨i₁, sb₁, hp₁, hsb₁, rfl⟩ ⟨i₂, sb₂, hp₂, hsb₂, rfl⟩
  obtain ⟨hlt₁, -, hk₁, hdev₁⟩ := h.pins _ hp₁
  obtain ⟨hlt₂, -, hk₂, -⟩ := h.pins _ hp₂
  dsimp only at hk₁ hk₂ hdev₁ hlt₁ hlt₂
  have hdev : (t.slot i₁).dev ≠ 0 := by
    rw [show (t.slot i₁).dev = k.1 from congrArg Prod.fst hk₁]
    exact hdev₁
  obtain rfl := h.apart i₁ i₂ hlt₁ hlt₂ hdev (hk₂.trans hk₁.symm)
  rw [hsb₁] at hsb₂
  rw [Option.some.inj hsb₂]

/-- There is nothing to cross to from where nothing is mounted. -/
theorem Mounts.Final.eq (h : M.Final a) (hp : ReflTransGen M.Cross a k) : k = a := by
  rcases hp.cases_head with heq | ⟨k', ⟨i, sb, hi, hsb, -⟩, -⟩
  · exact heq.symm
  · rw [h i hi] at hsb
    cases hsb

/-- **One slot for all** who called `iget` for the inode. -/
theorem TableOk.named_unique (h : TableOk M t L) (hi : Named M t a i) (hj : Named M t a j) :
    i = j := by
  refine h.apart i j hi.lt hj.lt hi.dev ?_
  rcases ReflTransGen.total_of_right_unique h.cross_unique hi.path hj.path with hp | hp
  · exact hi.final.eq hp
  · exact (hj.final.eq hp).symm

/-- **One copy of an inode.** In every run with at most 65535 references to a slot, no two slots
have one inode; all the references from one call of `iget` or another for an inode that are
outstanding are to one slot; every count is the number of references; and `get_empty_inode` has
cleared no slot that was in use. -/
theorem one_copy (hM : M.Ok)
    (h : Reachable (Start M) (fun s s' => Step M s s' ∧ s'.Fits M) s) :
    (∀ i j, i < nrInode → j < nrInode → (s.table.slot i).dev ≠ 0 →
      (s.table.slot j).dev = (s.table.slot i).dev → (s.table.slot j).num = (s.table.slot i).num →
      i = j) ∧
    (∀ r ∈ s.refs, ∀ r' ∈ s.refs, r'.dev = r.dev → r'.nr = r.nr → r'.slot = r.slot) ∧
    (∀ i, (s.table.slot i).count = (s.held M).count i) ∧
    ∀ n ∈ s.table.cleared, n = 0 := by
  have hstart : ∀ s, Start M s → Inv M s := by
    intro s hs
    refine ⟨hs.fits, hs.table, hs.refs, ?_⟩
    rw [hs.calls]
    exact fun c hc => absurd hc List.not_mem_nil
  have hinv : Inv M s := h.inv hstart fun s s' hs hstep => hs.step hM hstep.1 hstep.2
  refine ⟨fun i j hi hj hdev hsame hnum => ?_, fun r hr r' hr' hdev hnr => ?_,
    hinv.table.count, hinv.table.cleared⟩
  · exact hinv.table.apart i j hi hj hdev (Prod.ext hsame hnum)
  · have hnamed := hinv.refs r' hr'
    rw [hdev, hnr] at hnamed
    exact hinv.table.named_unique hnamed (hinv.refs r hr)

end Linux011.Inodes.Iget

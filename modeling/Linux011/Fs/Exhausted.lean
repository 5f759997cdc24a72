import Linux011.Fs.InCore

/-!
# No free inodes

`get_empty_inode` panics when all entries of the inode table are in use. Its callers are prepared
for a NULL, which it never returns; and there are `NR_FILE` files and `NR_TASKS` tasks for
`NR_INODE` entries, so that the calls come to the panic well within the limits.

How many entries that are not in use a call needs can be told before it begins
(`Linux011.Fs.InCore.Act.needs`), from what is on the disks and from the table: one for a pipe and
for a lookup that finds an entry, and for a new file one more, if nobody else has the directory in
core. For a lookup gives back one inode before it takes the next (`Linux011.Fs.InCore.Kept`).
-/

namespace Linux011.Fs.InCore

/-! ### What a call needs -/

/-- A name is found in a directory, and the inode is taken. -/
def enters (d : Disk) (t : Fs.Task) (dir : Id) (name : List UInt8) : Bool :=
  match Fs.findEntry d t dir name with
  | .ok (dir, some _) => dir.dev ≠ 0
  | _ => false

/-- So it is with the first name of a path, in a directory with its first letters read. -/
def walkEnters (d : Disk) (t : Fs.Task) (dir : Id) : List UInt8 → List UInt8 → Bool
  | _, [] => false
  | name, c :: rest =>
    if c = slash then enters d t dir name else walkEnters d t dir (name ++ [c]) rest

/-- `get_dir` takes an inode. -/
def pathEnters (d : Disk) (t : Fs.Task) : List UInt8 → Bool
  | [] => false
  | c :: rest =>
    if c = slash then passable d t t.root && walkEnters d t t.root [] rest
    else passable d t t.pwd && walkEnters d t t.pwd [] (c :: rest)

/-- What `namei` needs. -/
def nameiNeeds (d : Disk) (t : Fs.Task) (path : Path) : ℕ :=
  if pathEnters d t path.1 then 1
  else
    match Fs.dirNamei d t path with
    | .ok (some (dir, name)) => if enters d t dir name then 1 else 0
    | _ => 0

/-- **Somebody has the inode in core**, and it is not there a second time. -/
def World.Held (w : World) (id : Id) : Prop :=
  id.dev ≠ 0 ∧ (∃ i < nrInode, (w.inode i).id = id) ∧
    ∀ i < nrInode, (w.inode i).id = id → (w.inode i).count ≠ 0

instance (w : World) (id : Id) : Decidable (w.Held id) :=
  inferInstanceAs (Decidable (_ ∧ _ ∧ _))

/-- The directory in which `open_namei` makes a file. -/
def makesIn (d : Disk) (t : Fs.Task) (path : Path) (flag : BitVec 32) : Option Id :=
  match Fs.dirNamei d t path with
  | .ok (some (dir, name)) =>
    match Fs.findEntry d t dir name with
    | .ok (dir, none) =>
      if name ≠ [] ∧ flag &&& oCreat ≠ 0#32 ∧ permission t dir (d.inode dir) mayWrite = true then
        some dir
      else none
    | _ => none
  | _ => none

/-- What `open_namei` needs; with `O_EXCL`, what is found is not taken. -/
def openNeeds (w : World) (t : Task) (path : Path) (flag : BitVec 32) : ℕ :=
  match makesIn w.disk (w.view t) path flag with
  | some dir => if w.Held dir then 1 else 2
  | none =>
    if flag &&& oExcl ≠ 0#32 then if pathEnters w.disk (w.view t) path.1 then 1 else 0
    else nameiNeeds w.disk (w.view t) path

/-- **The entries a call needs** that are not in use. -/
def Act.needs (w : World) (t : Task) : Act → ℕ
  | .open path flag _ _ _ =>
    if t.emptyFd.isSome ∧ w.emptyFile.isSome then openNeeds w t path (openFlag flag) else 0
  | .creat path _ _ _ =>
    if t.emptyFd.isSome ∧ w.emptyFile.isSome then
      openNeeds w t path (openFlag (oCreat ||| oTrunc))
    else 0
  | .pipe _ => if 2 ≤ w.emptyFiles.length ∧ 2 ≤ t.emptyFds.length then 1 else 0
  | .chdir path => nameiNeeds w.disk (w.view t) path
  | .fork _ _ _ => 0
  | .close _ => 0
  | .dup _ => 0
  | .dup2 _ _ => 0
  | .dupfd _ _ => 0

/-- The entries that are not in use. -/
def World.free (w : World) : ℕ := (List.range nrInode).countP fun i => (w.inode i).count = 0

/-- **There is room for a call.** -/
def Room (w : World) (p : ℕ) (a : Act) : Prop := ∀ t, w.task p = some t → a.needs w t ≤ w.free

/-- **Before each of the calls there is room for it.** -/
def Roomy : List (ℕ × Act) → World → Prop
  | [], _ => True
  | (p, a) :: rest, w => Room w p a ∧ ∀ r w', perform p a w = .ok r w' → Roomy rest w'

variable {w w₀ w' : World} {t : Task} {i j dir e : ℕ} {id : Id} {l : List ℕ} {path : Path}
  {name rest : List UInt8}

/-- What a call ends with, if not with this panic. -/
def Else (e : Halt) (_ : World) : Prop := e ≠ .panic "No free inodes in mem"

theorem free_pos : 0 < w.free ↔ ∃ i < nrInode, (w.inode i).count = 0 := by
  rw [World.free, List.countP_pos_iff]
  constructor
  · rintro ⟨i, hi, hc⟩
    exact ⟨i, List.mem_range.mp hi, of_decide_eq_true hc⟩
  · rintro ⟨i, hi, hc⟩
    exact ⟨i, List.mem_range.mpr hi, decide_eq_true hc⟩

/-- Of two entries one is another. -/
theorem free_ne (h : 2 ≤ w.free) (dir : ℕ) : ∃ i < nrInode, i ≠ dir ∧ (w.inode i).count = 0 := by
  by_contra hne
  have hsub : ∀ i ∈ (List.range nrInode).filter fun i => (w.inode i).count = 0, i = dir := by
    intro i hi
    by_contra hd
    obtain ⟨hi, hc⟩ := List.mem_filter.mp hi
    exact hne ⟨i, List.mem_range.mp hi, hd, of_decide_eq_true hc⟩
  rw [World.free, List.countP_eq_length_filter] at h
  have hnodup : ((List.range nrInode).filter fun i => (w.inode i).count = 0).Nodup :=
    List.nodup_range.filter _
  rcases hl : (List.range nrInode).filter fun i => (w.inode i).count = 0 with _ | ⟨a, _ | ⟨b, m⟩⟩
  · simp [hl] at h
  · simp [hl] at h
  · rw [hl] at hsub hnodup
    have ha : a = dir := hsub a (by simp)
    have hb : b = dir := hsub b (by simp)
    simp [ha, hb] at hnodup

/-! ### The table during a call -/

/-- **What becomes of the table**, as long as the call has these inodes and no others: what is in
use stays as it was, and nothing comes in a second time. -/
structure Kept (w₀ w : World) (l : List ℕ) : Prop where
  disk : w.disk = w₀.disk
  count : ∀ i, (w.inode i).count = (w₀.inode i).count + l.count i
  id : ∀ i, (w₀.inode i).count ≠ 0 → (w.inode i).id = (w₀.inode i).id
  fresh : ∀ i < nrInode, (w₀.inode i).count = 0 → ¬w₀.Held (w.inode i).id

theorem Kept.refl (w : World) : Kept w w [] := by
  constructor
  · rfl
  · intro i
    rfl
  · intro i _
    rfl
  · intro i hi hc hh
    exact hh.2.2 i hi rfl hc

theorem inode_setInode (w : World) (i : ℕ) (g : MInode → MInode) (j : ℕ) :
    (w.setInode i g).inode j = if j = i then g (w.inode i) else w.inode j :=
  Function.update_apply w.inode i _ j

/-- An entry is changed that this allows. -/
theorem Kept.set {l' : List ℕ} (h : Kept w₀ w l) {g : MInode → MInode}
    (hc : (g (w.inode i)).count = (w₀.inode i).count + l'.count i)
    (hl : ∀ j, j ≠ i → l'.count j = l.count j)
    (hid : (g (w.inode i)).id = (w.inode i).id ∨
      (w₀.inode i).count = 0 ∧ ¬w₀.Held (g (w.inode i)).id) : Kept w₀ (w.setInode i g) l' := by
  constructor
  · exact h.disk
  · intro j
    rw [inode_setInode]
    split
    · next hj =>
      rw [hj]
      exact hc
    · next hj =>
      rw [h.count, hl j hj]
  · intro j hj
    rw [inode_setInode]
    split
    · next hji =>
      subst hji
      rcases hid with hid | hid
      · rw [hid]
        exact h.id j hj
      · exact absurd hid.1 hj
    · exact h.id j hj
  · intro j hj hz
    rw [inode_setInode]
    split
    · next hji =>
      subst hji
      rcases hid with hid | hid
      · rw [hid]
        exact h.fresh j hj hz
      · exact hid.2
    · exact h.fresh j hj hz

theorem Kept.inc (h : Kept w₀ w l) (i : ℕ) : Kept w₀ (w.inc i) (i :: l) := by
  refine h.set ?_ (fun j hj => ?_) (Or.inl rfl)
  · have := h.count i
    rw [List.count_cons_self]
    change (w.inode i).count + 1 = _
    omega
  · exact List.count_cons_of_ne hj.symm

theorem Kept.dec (h : Kept w₀ w (i :: l)) : Kept w₀ (w.dec i) l := by
  refine h.set ?_ (fun j hj => ?_) (Or.inl rfl)
  · have := h.count i
    rw [List.count_cons_self] at this
    change (w.inode i).count - 1 = _
    omega
  · exact (List.count_cons_of_ne hj.symm).symm

/-- A mark is set or taken away. -/
theorem Kept.mark (h : Kept w₀ w l) (i : ℕ) (b : Bool) :
    Kept w₀ (w.setInode i fun n => { n with dirt := b }) l :=
  h.set (h.count i) (fun _ _ => rfl) (Or.inl rfl)

/-- What nobody else has is cleared. -/
theorem Kept.clear (h : Kept w₀ w (i :: l)) (hc : (w.inode i).count = 1) :
    Kept w₀ (w.setInode i fun _ => .zero) l := by
  have hcount := h.count i
  rw [List.count_cons_self, hc] at hcount
  refine h.set ?_ (fun j hj => (List.count_cons_of_ne hj.symm).symm) (Or.inr ⟨by omega, ?_⟩)
  · change 0 = _
    omega
  · exact fun hh => hh.1 rfl

/-- The root and the directory of the task are in use. -/
structure Based (w₀ : World) (t : Task) : Prop where
  root : (w₀.inode t.root).count ≠ 0
  pwd : (w₀.inode t.pwd).count ≠ 0

theorem Kept.view (h : Kept w₀ w l) (hb : Based w₀ t) : w.view t = w₀.view t := by
  rw [World.view, World.view, h.id _ hb.root, h.id _ hb.pwd]

/-- The order does not matter. -/
theorem Kept.perm {l' : List ℕ} (h : Kept w₀ w l) (hl : l.Perm l') : Kept w₀ w l' :=
  ⟨h.disk, fun i => by rw [h.count, hl.count_eq], h.id, h.fresh⟩

/-! ### `fs/inode.c` -/

theorem wp_writeInode (h : Kept w₀ w l) :
    wp (writeInode i) (fun _ w' => Kept w₀ w' l ∧ ∀ k, (w'.inode k).id = (w.inode k).id) Else
      w := by
  rw [writeInode, wp_bind, wp_get, wp_ite, wp_ite]
  refine ⟨fun _ => ⟨h, fun _ => rfl⟩, fun _ => ⟨fun _ => ?_, fun _ => ⟨h.mark i false, ?_⟩⟩⟩
  · rw [wp_throw, Else]
    simp
  · intro k
    rw [inode_setInode]
    split
    · next hk => rw [hk]
    · rfl

theorem wp_syncInodes (h : Kept w₀ w l) :
    wp syncInodes (fun _ w' => Kept w₀ w' l ∧ ∀ k, (w'.inode k).id = (w.inode k).id) Else w := by
  refine wp_forFrom (fun _ w' => Kept w₀ w' l ∧ ∀ k, (w'.inode k).id = (w.inode k).id)
    ⟨h, fun _ => rfl⟩ fun k w' _ _ hw' => ?_
  rw [wp_bind, wp_get, wp_ite]
  refine ⟨fun _ => ?_, fun _ => hw'⟩
  exact wp_post (wp_writeInode hw'.1) fun _ w₁ hw₁ => ⟨hw₁.1, fun k => (hw₁.2 k).trans (hw'.2 k)⟩

/-- **`iput`**: an inode is given back. -/
theorem wp_iput (h : Kept w₀ w (i :: l)) :
    wp (iput i) (fun _ w' => Kept w₀ w' l ∧ ∀ k, k ≠ i → (w'.inode k).id = (w.inode k).id) Else
      w := by
  have hother (w : World) (g : MInode → MInode) (k : ℕ) (hk : k ≠ i) :
      ((w.setInode i g).inode k).id = (w.inode k).id := by
    rw [inode_setInode, if_neg hk]
  have hcount := h.count i
  rw [List.count_cons_self] at hcount
  rw [iput, wp_bind, wp_get, wp_ite]
  refine ⟨fun hzero => absurd hzero (by omega), fun _ => ?_⟩
  rw [wp_ite, wp_ite, wp_ite]
  refine ⟨fun _ => ⟨fun _ => ⟨h.dec, hother w _⟩, fun hone => ⟨?_, hother w _⟩⟩,
    fun _ => ⟨fun _ => ⟨h.dec, hother w _⟩, fun _ => ?_⟩⟩
  · refine h.set ?_ (fun j hj => (List.count_cons_of_ne hj.symm).symm) (Or.inl rfl)
    change 0 = _
    omega
  · have hrest (w' : World) (h' : Kept w₀ w' (i :: l))
        (hw' : ∀ k, (w'.inode k).id = (w.inode k).id) :
        wp (do
          let w ← get
          if 1 < (w.inode i).count then set (w.dec i)
          else if (w.node i).nlinks = 0 then set (w.setInode i fun _ => .zero)
          else do
            writeInode i
            modify fun w => w.dec i)
          (fun _ w' => Kept w₀ w' l ∧ ∀ k, k ≠ i → (w'.inode k).id = (w.inode k).id) Else w' := by
      rw [wp_bind, wp_get, wp_ite, wp_ite]
      refine ⟨fun _ => ⟨h'.dec, fun k hk => (hother w' _ k hk).trans (hw' k)⟩, fun hone =>
        ⟨fun _ => ⟨h'.clear ?_, fun k hk => (hother w' _ k hk).trans (hw' k)⟩, fun _ => ?_⟩⟩
      · have := h'.count i
        rw [List.count_cons_self] at this
        omega
      · rw [wp_bind]
        refine wp_post (wp_writeInode h') fun _ w₁ hw₁ => ⟨hw₁.1.dec, fun k hk => ?_⟩
        exact (hother w₁ _ k hk).trans ((hw₁.2 k).trans (hw' k))
    rw [wp_bind, wp_ite]
    constructor
    · intro _
      exact wp_post (wp_syncInodes h) fun _ w' hw' => hrest w' hw'.1 hw'.2
    · intro _
      exact hrest w h fun _ => rfl

/-- Whatever `iput` does, it does not come to the panic. -/
theorem iput_else (w : World) (i : ℕ) : wp (iput i) (fun _ _ => True) Else w := by
  by_cases hc : (w.inode i).count = 0
  · rw [iput, wp_bind, wp_get, if_pos hc, wp_throw, Else]
    simp
  · have hk : Kept (w.dec i) w [i] := by
      have hupd (j : ℕ) : (w.dec i).inode j =
          if j = i then { w.inode i with count := (w.inode i).count - 1 } else w.inode j :=
        Function.update_apply w.inode i _ j
      have hid (j : ℕ) : ((w.dec i).inode j).id = (w.inode j).id := by
        rw [hupd]
        split
        · next hj => rw [hj]
        · rfl
      constructor
      · rfl
      · intro j
        rw [hupd]
        split
        · next hj =>
          rw [hj, List.count_cons_self, List.count_nil]
          change _ = (w.inode i).count - 1 + 1
          omega
        · next hj => rw [List.count_cons_of_ne (Ne.symm hj), List.count_nil, Nat.add_zero]
      · exact fun j _ => (hid j).symm
      · intro j hj hz hh
        exact hh.2.2 j hj (hid j) hz
    exact wp_post (wp_iput hk) fun _ _ _ => trivial

/-! ### An empty inode -/

theorem nextInode_lt (last : ℕ) : nextInode last < nrInode := by
  rw [nextInode]
  split
  · decide
  · omega

theorem nextInode_eq {last : ℕ} (hlast : last < nrInode) :
    nextInode last = (last + 1) % nrInode := by
  rw [nextInode]
  split
  · have hend : last + 1 = nrInode := by omega
    rw [hend, Nat.mod_self]
  · exact (Nat.mod_eq_of_lt (by omega)).symm

/-- What has been found is not lost again. -/
theorem findEmpty_isSome (n last j : ℕ) : (findEmpty w n last (some j)).2 ≠ none := by
  induction n generalizing last j with
  | zero => exact Option.some_ne_none j
  | succ n ih =>
    rw [findEmpty]
    split
    · split
      · exact Option.some_ne_none _
      · exact ih _ _
    · exact ih _ _

/-- What `get_empty_inode` finds is not in use. -/
theorem findEmpty_free {n last : ℕ} {r : Option ℕ}
    (hr : ∀ i, r = some i → i < nrInode ∧ (w.inode i).count = 0) (i : ℕ)
    (hi : (findEmpty w n last r).2 = some i) : i < nrInode ∧ (w.inode i).count = 0 := by
  induction n generalizing last r with
  | zero => exact hr i hi
  | succ n ih =>
    rw [findEmpty] at hi
    split at hi
    · next hz =>
      have hsome : ∀ i, some (nextInode last) = some i → i < nrInode ∧ (w.inode i).count = 0 := by
        intro i hi
        obtain rfl := Option.some.inj hi
        exact ⟨nextInode_lt last, hz⟩
      split at hi
      · exact hsome i hi
      · exact ih hsome hi
    · exact ih hr hi

/-- **It looks at the entries one after another**, round the table. -/
theorem findEmpty_none {n last : ℕ} (h : (findEmpty w n last none).2 = none) (k : ℕ)
    (hk : k < n) : (w.inode ((nextInode last + k) % nrInode)).count ≠ 0 := by
  induction n generalizing last k with
  | zero => exact absurd hk (Nat.not_lt_zero k)
  | succ n ih =>
    have hlt := nextInode_lt last
    rw [findEmpty] at h
    split at h
    · split at h
      · exact absurd h (Option.some_ne_none _)
      · exact absurd h (findEmpty_isSome n _ _)
    · next hz =>
      rcases k with _ | k
      · rwa [Nat.add_zero, Nat.mod_eq_of_lt hlt]
      · have := ih h k (by omega)
        rwa [nextInode_eq hlt, Nat.mod_add_mod, Nat.add_assoc, Nat.add_comm 1 k] at this

/-- **The search finds what there is.** -/
theorem findEmpty_table (hf : 0 < w.free) :
    ∃ i, (findEmpty w nrInode w.last none).2 = some i ∧ i < nrInode ∧ (w.inode i).count = 0 := by
  rcases hr : (findEmpty w nrInode w.last none).2 with _ | i
  · obtain ⟨i, hi, hc⟩ := free_pos.mp hf
    have hlt := nextInode_lt w.last
    have hk := findEmpty_none hr ((i + nrInode - nextInode w.last) % nrInode)
      (Nat.mod_lt _ (by decide))
    have hround :
        (nextInode w.last + (i + nrInode - nextInode w.last) % nrInode) % nrInode = i := by
      rw [Nat.add_mod_mod]
      have : nextInode w.last + (i + nrInode - nextInode w.last) = i + nrInode := by omega
      rw [this, Nat.add_mod_right, Nat.mod_eq_of_lt hi]
    rw [hround] at hk
    exact absurd hc hk
  · exact ⟨i, rfl, findEmpty_free (fun j hj => absurd hj (by simp)) i hr⟩

/-- **`get_empty_inode`**, as long as there is one. -/
theorem wp_getEmptyInode (h : Kept w₀ w l) (hf : 0 < w.free) :
    wp getEmptyInode (fun i w' => Kept w₀ w' (i :: l) ∧ i < nrInode ∧ (w'.inode i).id = ⟨0, 0⟩ ∧
      (w₀.inode i).count = 0) Else w := by
  obtain ⟨i, hi, hlt, hc⟩ := findEmpty_table hf
  have hlast : Kept w₀ { w with last := (findEmpty w nrInode w.last none).1 } l :=
    ⟨h.disk, h.count, h.id, h.fresh⟩
  rw [getEmptyInode, wp_bind, wp_get, wp_bind, wp_set, hi]
  dsimp only
  rw [wp_bind]
  refine wp_post (wp_writeInode hlast) fun _ w' hw' => ?_
  replace hw' := hw'.1
  have hcount := hw'.count i
  have hold := h.count i
  rw [wp_bind, wp_get, wp_ite]
  refine ⟨fun _ => ?_, fun _ => ?_⟩
  · rw [wp_throw, Else]
    simp
  · rw [wp_bind, wp_set, wp_pure]
    refine ⟨hw'.set ?_ (fun j hj => List.count_cons_of_ne hj.symm)
      (Or.inr ⟨by omega, fun hh => hh.1 rfl⟩), hlt, ?_, by omega⟩
    · rw [List.count_cons_self]
      change 1 = _
      omega
    · exact congrArg MInode.id (Function.update_self i _ w'.inode)

/-! ### `iget` -/

theorem find_some {j : ℕ} (h : w.find id = some j) : j < nrInode ∧ (w.inode j).id = id := by
  have hp := List.find?_some h
  exact ⟨List.mem_range.mp (List.mem_of_find?_eq_some h), of_decide_eq_true hp⟩

theorem find_none (h : w.find id = none) (i : ℕ) (hi : i < nrInode) : (w.inode i).id ≠ id := by
  have := List.find?_eq_none.mp h i (List.mem_range.mpr hi)
  exact fun he => this (decide_eq_true he)

/-- What somebody has is found. -/
theorem Kept.not_held (h : Kept w₀ w l) (hf : w.find id = none) : ¬w₀.Held id := by
  rintro ⟨-, ⟨i, hi, hid⟩, hall⟩
  have := h.id i (hall i hi hid)
  exact find_none hf i hi (this.trans hid)

/-- **The loop of `iget`** has one inode in the end, the one that is asked for. -/
theorem wp_igetLoop {n : ℕ} (h : Kept w₀ w [e]) (he : e < nrInode) (hid : (w.inode e).id = ⟨0, 0⟩)
    (hne : id ≠ ⟨0, 0⟩) (hz : (w₀.inode e).count = 0) :
    wp (igetLoop e n id) (fun i w' => Kept w₀ w' [i] ∧ igetFrom w₀.disk n id = .ok (w'.inode i).id)
      Else w := by
  induction n generalizing w id with
  | zero =>
    rw [igetLoop, wp_throw, Else]
    simp
  | succ n ih =>
    rw [igetLoop, wp_bind, wp_get]
    rcases hf : w.find id with _ | j
    · dsimp only
      rw [wp_ite, wp_throw, wp_bind, wp_set, wp_bind]
      refine ⟨fun _ => (by simp [Else]), fun hm => ?_⟩
      have hk : Kept w₀ (w.setInode e fun n => { n with id := id }) [e] :=
        h.set (h.count e) (fun _ _ => rfl) (Or.inr ⟨hz, h.not_held hf⟩)
      have hid' : ((w.setInode e fun n => { n with id := id }).inode e).id = id := by
        rw [inode_setInode, if_pos rfl]
      rw [readInode, wp_bind, wp_get, wp_ite, wp_throw, wp_pure]
      refine ⟨fun _ => (by simp [Else]), fun _ => ⟨hk, ?_⟩⟩
      rw [igetFrom, hid', if_neg (by rwa [← h.disk])]
      rfl
    · dsimp only
      obtain ⟨hj, hjid⟩ := find_some hf
      have hje : j ≠ e := by
        rintro rfl
        exact hne (hjid.symm.trans hid)
      have hinc : Kept w₀ (w.inc j) [j, e] := h.inc j
      have hids (k : ℕ) : ((w.inc j).inode k).id = (w.inode k).id := by
        rw [World.inc, inode_setInode]
        split
        · next hk => rw [hk]
        · rfl
      have hback (hp : igetFrom w₀.disk (n + 1) id = .ok id) :
          wp (do
            iput e
            pure j) (fun i w' => Kept w₀ w' [i] ∧
              igetFrom w₀.disk (n + 1) id = .ok (w'.inode i).id) Else (w.inc j) := by
        rw [wp_bind]
        refine wp_post (wp_iput (hinc.perm (List.Perm.swap e j []))) fun _ w' hw' => ?_
        rw [wp_pure, hw'.2 j hje, hids, hjid]
        exact ⟨hw'.1, hp⟩
      rw [wp_bind, wp_set, wp_ite, World.node, hjid]
      constructor
      · intro hm
        rcases hmo : mountedOn w.disk id with _ | k
        · dsimp only
          refine hback ?_
          rw [igetFrom, if_pos (by rwa [← h.disk]), ← h.disk, hmo]
          rfl
        · dsimp only
          rw [wp_bind]
          refine wp_post (wp_iput hinc) fun _ w' hw' => ?_
          have hstep : igetFrom w₀.disk (n + 1) id =
              igetFrom w₀.disk n ⟨(w.disk.super k).dev, rootIno⟩ := by
            rw [igetFrom, if_pos (by rwa [← h.disk]), ← h.disk, hmo]
          rw [hstep]
          refine ih hw'.1 ?_ ?_
          · rw [hw'.2 e hje.symm, hids, hid]
          · simp [rootIno]
      · intro hm
        refine hback ?_
        rw [igetFrom, if_neg (by rwa [← h.disk])]
        rfl

theorem Kept.free (h : Kept w₀ w []) : w.free = w₀.free := by
  rw [World.free, World.free]
  congr 1
  ext i
  rw [h.count, List.count_nil, Nat.add_zero]

/-- **`iget`**, as long as there is an entry, or no device. -/
theorem wp_iget (h : Kept w₀ w []) (hf : id.dev ≠ 0 → 0 < w₀.free) :
    wp (iget id) (fun i w' => Kept w₀ w' [i] ∧ Fs.iget w₀.disk id = .ok (w'.inode i).id ∧
      0 < w₀.free) Else w := by
  rw [iget, wp_ite, wp_throw, wp_bind]
  refine ⟨fun _ => (by simp [Else]), fun hd => ?_⟩
  refine wp_post (wp_getEmptyInode h (by rw [h.free]; exact hf hd)) fun e w' he => ?_
  have hne : id ≠ ⟨0, 0⟩ := fun h0 => hd (congrArg Id.dev h0)
  rw [Fs.iget, if_neg hd]
  refine wp_post (wp_igetLoop he.1 he.2.1 he.2.2.1 hne he.2.2.2) fun i w₁ h₁ => ?_
  exact ⟨h₁.1, h₁.2, hf hd⟩

/-! ### Paths -/

/-- What a lookup has in the end: an inode, or nothing. -/
def Has (w₀ : World) (P : Id → Prop) (r : Option ℕ) (w' : World) : Prop :=
  match r with
  | none => Kept w₀ w' []
  | some i => Kept w₀ w' [i] ∧ P (w'.inode i).id

/-- **`find_entry`** has a directory in the end, the same or the one it has been exchanged for. -/
theorem wp_findEntry (hb : Based w₀ t) (h : Kept w₀ w [dir]) :
    wp (findEntry t dir name) (fun r w' => Kept w₀ w' [r.1] ∧
      Fs.findEntry w₀.disk (w₀.view t) (w.inode dir).id name = .ok ((w'.inode r.1).id, r.2)) Else
      w := by
  have hroot : (w.inode t.root).id = (w₀.view t).root := h.id _ hb.root
  rw [findEntry, wp_bind, wp_get, Fs.findEntry, ← h.disk]
  dsimp only
  split
  · exact ⟨h, rfl⟩
  · split
    · rw [hroot]
      split
      · exact ⟨h, rfl⟩
      · split
        · rcases getSuper w.disk (w.inode dir).id.dev with _ | sb
          · simp [wp_throw, Else]
          · dsimp only
            rcases hm : sb.imount with _ | mount
            · exact ⟨h, rfl⟩
            · dsimp only
              rw [wp_bind]
              refine wp_post (wp_iput h) fun _ w' hw' => ?_
              rw [wp_bind, wp_get]
              rcases hf : w'.find mount with _ | j
              · simp [wp_throw, Else]
              · have hj : ((w'.inc j).inode j).id = mount := by
                  rw [World.inc, inode_setInode, if_pos rfl]
                  exact (find_some hf).2
                have hd : w'.disk = w.disk := hw'.1.disk.trans h.disk.symm
                dsimp only
                rw [wp_bind, wp_set, wp_pure]
                refine ⟨hw'.1.inc j, ?_⟩
                have hnode : w'.node j = w.disk.inode mount := by
                  rw [World.node, (find_some hf).2, hd]
                rw [hj, hnode]
                rfl
        · exact ⟨h, rfl⟩
    · exact ⟨h, rfl⟩

/-- **The directory is given back, and the inode of the entry taken**: it may have its place. -/
theorem wp_enter (h : Kept w₀ w [dir]) (hf : (w.inode dir).id.dev ≠ 0 → 0 < w₀.free) :
    wp (enter dir e) (fun i w' => Kept w₀ w' [i] ∧ Fs.iget w₀.disk
      ⟨(w.inode dir).id.dev, dirIno (w₀.disk.inode (w.inode dir).id) e⟩ = .ok (w'.inode i).id ∧
      0 < w₀.free) Else w := by
  rw [enter, wp_bind, wp_get, wp_bind, ← h.disk]
  refine wp_post (wp_iput h) fun _ w' hw' => ?_
  rw [h.disk, World.node, h.disk]
  exact wp_iget hw'.1 hf

theorem wp_enterable (hb : Based w₀ t) (h : Kept w₀ w [i]) :
    wp (enterable t i) (fun b w' => if b then w' = w ∧
        passable w₀.disk (w₀.view t) (w.inode i).id = true else Kept w₀ w' []) Else w := by
  rw [enterable, wp_bind, wp_get, h.disk, h.view hb, wp_ite, wp_pure, wp_bind]
  refine ⟨fun hp => ?_, fun _ => wp_post (wp_iput h) fun _ w' hw' => ?_⟩
  · rw [if_pos rfl]
    exact ⟨rfl, hp⟩
  · rw [wp_pure, if_neg Bool.false_ne_true]
    exact hw'.1

/-- **The loop of `get_dir`.** It begins with the place it needs, or it ends before. -/
theorem wp_walk (hb : Based w₀ t) (h : Kept w₀ w [i])
    (hf : walkEnters w₀.disk (w₀.view t) (w.inode i).id name rest = true → 0 < w₀.free) :
    wp (walk t i name rest) (Has w₀ fun id =>
      Fs.walk w₀.disk (w₀.view t) (w.inode i).id name rest = .ok (some id)) Else w := by
  induction rest generalizing w i name with
  | nil =>
    rw [walk, wp_pure]
    exact ⟨h, rfl⟩
  | cons c rest ih =>
    rw [walk, wp_ite]
    rw [walkEnters] at hf
    constructor
    · intro hc
      rw [if_pos hc] at hf
      rw [wp_bind]
      refine wp_post (wp_findEntry hb h) fun r w₁ h₁ => ?_
      obtain ⟨dir, _ | e⟩ := r
      · dsimp only
        rw [wp_bind]
        exact wp_post (wp_iput h₁.1) fun _ w₂ h₂ => h₂.1
      · dsimp only at h₁ ⊢
        rw [enters, h₁.2] at hf
        rw [wp_bind]
        have hfree (hd : (w₁.inode dir).id.dev ≠ 0) : 0 < w₀.free := hf (decide_eq_true hd)
        refine wp_post (wp_enter h₁.1 hfree) fun j w₂ h₂ => ?_
        rw [wp_bind]
        refine wp_post (wp_enterable hb h₂.1) fun b w₃ h₃ => ?_
        cases b with
        | false => exact h₃
        | true =>
          obtain ⟨rfl, hp⟩ := h₃
          have hw : Fs.walk w₀.disk (w₀.view t) (w.inode i).id name (c :: rest) =
              Fs.walk w₀.disk (w₀.view t) (w₃.inode j).id [] rest := by
            rw [Fs.walk, if_pos hc, h₁.2]
            change (Fs.iget w₀.disk _ >>= _) = _
            rw [h₂.2.1]
            change (if _ then _ else _) = _
            rw [if_pos hp]
          rw [hw]
          exact ih h₂.1 fun _ => h₂.2.2
    · intro hc
      rw [if_neg hc] at hf
      have hw : Fs.walk w₀.disk (w₀.view t) (w.inode i).id name (c :: rest) =
          Fs.walk w₀.disk (w₀.view t) (w.inode i).id (name ++ [c]) rest := by
        rw [Fs.walk, if_neg hc]
      rw [hw]
      exact ih h hf

theorem wp_start (hb : Based w₀ t) (h : Kept w₀ w []) {id : Id} (hid : (w.inode i).id = id)
    (hf : (passable w₀.disk (w₀.view t) id && walkEnters w₀.disk (w₀.view t) id [] rest) = true →
      0 < w₀.free) :
    wp (start t i rest) (Has w₀ fun id' =>
      (if passable w₀.disk (w₀.view t) id then Fs.walk w₀.disk (w₀.view t) id [] rest
        else pure none) = .ok (some id')) Else w := by
  have hinc : ((w.inc i).inode i).id = id := by
    rw [World.inc, inode_setInode, if_pos rfl]
    exact hid
  rw [start, wp_bind, wp_modify, wp_bind]
  refine wp_post (wp_enterable hb (h.inc i)) fun b w₁ h₁ => ?_
  cases b with
  | false => exact h₁
  | true =>
    obtain ⟨rfl, hp⟩ := h₁
    rw [hinc] at hp
    rw [if_pos hp]
    have hneeds (hw : walkEnters w₀.disk (w₀.view t) ((w.inc i).inode i).id [] rest = true) :
        0 < w₀.free := by
      rw [hinc] at hw
      exact hf (by rw [hp, hw]; rfl)
    have hwalk := wp_walk hb (h.inc i) hneeds
    rwa [hinc] at hwalk

/-- **`get_dir`** -/
theorem wp_getDir {path : List UInt8} (h : Kept w₀ w [])
    (hf : pathEnters w₀.disk (w₀.view t) path = true → 0 < w₀.free) :
    wp (getDir t path) (fun r w' => Based w₀ t ∧
      Has w₀ (fun id => Fs.getDir w₀.disk (w₀.view t) path = .ok (some id)) r w') Else w := by
  rw [getDir.eq_def, wp_bind, wp_get, wp_ite, wp_throw, wp_ite, wp_throw]
  refine ⟨fun _ => (by simp [Else]), fun hroot => ⟨fun _ => (by simp [Else]), fun hpwd => ?_⟩⟩
  rw [h.count, List.count_nil] at hroot hpwd
  have hb : Based w₀ t := ⟨hroot, hpwd⟩
  cases path with
  | nil => exact ⟨hb, h⟩
  | cons c rest =>
    rw [pathEnters] at hf
    rw [Fs.getDir]
    dsimp only
    split
    · next hc =>
      rw [if_pos hc] at hf
      exact wp_post (wp_start hb h (h.id _ hb.root) hf) fun r w' h' => ⟨hb, h'⟩
    · next hc =>
      rw [if_neg hc] at hf
      exact wp_post (wp_start hb h (h.id _ hb.pwd) hf) fun r w' h' => ⟨hb, h'⟩

/-- What `dir_namei` has in the end. -/
def HasDir (w₀ : World) (t : Task) (path : Path) (r : Option (ℕ × List UInt8)) (w' : World) :
    Prop :=
  match r with
  | none => Kept w₀ w' []
  | some (dir, name) => Based w₀ t ∧ Kept w₀ w' [dir] ∧
    Fs.dirNamei w₀.disk (w₀.view t) path = .ok (some ((w'.inode dir).id, name))

/-- **`dir_namei`** -/
theorem wp_dirNamei (h : Kept w₀ w [])
    (hf : pathEnters w₀.disk (w₀.view t) path.1 = true → 0 < w₀.free) :
    wp (dirNamei t path) (HasDir w₀ t path) Else w := by
  rw [dirNamei, wp_bind]
  refine wp_post (wp_getDir h hf) fun r w' h' => ?_
  cases r with
  | none => exact h'.2
  | some dir =>
    dsimp only
    rw [wp_pure]
    refine ⟨h'.1, h'.2.1, ?_⟩
    rw [Fs.dirNamei, h'.2.2]
    rfl

/-- **`namei`** -/
theorem wp_namei (h : Kept w₀ w []) (hf : nameiNeeds w₀.disk (w₀.view t) path ≤ w₀.free) :
    wp (namei t path) (fun _ _ => True) Else w := by
  rw [nameiNeeds] at hf
  have hpath (hp : pathEnters w₀.disk (w₀.view t) path.1 = true) : 0 < w₀.free := by
    rw [if_pos hp] at hf
    exact hf
  rw [namei, wp_bind]
  refine wp_post (wp_dirNamei h hpath) fun r w₁ h₁ => ?_
  obtain _ | ⟨dir, name⟩ := r
  · trivial
  · dsimp only
    rw [wp_ite, wp_pure, wp_bind]
    refine ⟨fun _ => trivial, fun _ => ?_⟩
    refine wp_post (wp_findEntry h₁.1 h₁.2.1) fun r w₂ h₂ => ?_
    obtain ⟨dir', _ | e⟩ := r
    · dsimp only
      rw [wp_bind]
      exact wp_post (wp_iput h₂.1) fun _ _ _ => trivial
    · dsimp only
      rw [wp_bind]
      refine wp_post (wp_enter h₂.1 fun hd => ?_) fun _ _ _ => trivial
      by_cases hp : pathEnters w₀.disk (w₀.view t) path.1 = true
      · exact hpath hp
      · rw [if_neg hp, h₁.2.2] at hf
        dsimp only at hf
        rw [enters, h₂.2] at hf
        dsimp only at hf
        rw [if_pos (decide_eq_true hd)] at hf
        exact hf

/-! ### Open -/

theorem openNeeds_path {flag : BitVec 32} (h : openNeeds w t path flag ≤ w.free)
    (hp : pathEnters w.disk (w.view t) path.1 = true) : 0 < w.free := by
  rw [openNeeds, if_pos hp] at h
  split at h
  · split at h <;> omega
  · split at h
    · exact h
    · rwa [nameiNeeds, if_pos hp] at h

/-- **With a directory in hand**: it is somebody else's as well, or there is another entry. -/
theorem Kept.another (h : Kept w₀ w [dir])
    (hf : (if w₀.Held (w.inode dir).id then 1 else 2) ≤ w₀.free) : 0 < w.free := by
  obtain ⟨i, hi, hne, hc⟩ : ∃ i < nrInode, i ≠ dir ∧ (w₀.inode i).count = 0 := by
    split at hf
    · next hheld =>
      obtain ⟨i, hi, hc⟩ := free_pos.mp hf
      refine ⟨i, hi, ?_, hc⟩
      rintro rfl
      exact h.fresh i hi hc hheld
    · exact free_ne hf dir
  refine free_pos.mpr ⟨i, hi, ?_⟩
  rw [h.count, hc, List.count_cons_of_ne hne.symm, List.count_nil]

theorem wp_newInode {dev : ℕ} {fresh : ℕ → Option ℕ} (h : Kept w₀ w l) (hf : 0 < w.free) :
    wp (newInode dev fresh) (fun _ _ => True) Else w := by
  rw [newInode, wp_bind]
  refine wp_post (wp_getEmptyInode h hf) fun i w' _ => ?_
  rw [wp_bind, wp_get, wp_ite, wp_throw]
  refine ⟨fun _ => (by simp [Else]), fun _ => ?_⟩
  rcases fresh dev with _ | num
  · dsimp only
    rw [wp_bind]
    exact wp_post (iput_else w' i) fun _ _ _ => trivial
  · trivial

/-- **A file is made**, with an entry for it. -/
theorem wp_make {mode : BitVec 32} {fresh : ℕ → Option ℕ} {room : Bool} (h : Kept w₀ w l)
    (hf : 0 < w.free) : wp (make t dir name mode fresh room) (fun _ _ => True) Else w := by
  rw [make, wp_bind, wp_get, wp_bind]
  refine wp_post (wp_newInode h hf) fun r w₁ _ => ?_
  rcases r with _ | i
  · dsimp only
    rw [wp_bind]
    exact wp_post (iput_else w₁ dir) fun _ _ _ => trivial
  · dsimp only
    rw [wp_bind, wp_modify, wp_ite, wp_bind, wp_modify, wp_bind, wp_bind, wp_modify, wp_bind]
    refine ⟨fun _ => wp_post (iput_else _ dir) fun _ _ _ => trivial, fun _ => ?_⟩
    refine wp_post (iput_else _ i) fun _ w₂ _ => ?_
    rw [wp_bind]
    exact wp_post (iput_else w₂ dir) fun _ _ _ => trivial

/-- **`open_namei`**, with the entries it needs. -/
theorem wp_openNamei {flag mode : BitVec 32} {fresh : ℕ → Option ℕ} {room : Bool}
    (hf : openNeeds w t path (openFlag flag) ≤ w.free) :
    wp (openNamei t path flag mode fresh room) (fun _ _ => True) Else w := by
  rw [openNamei, wp_bind]
  refine wp_post (wp_dirNamei (Kept.refl w) (openNeeds_path hf)) fun r w₁ h₁ => ?_
  obtain _ | ⟨dir, name⟩ := r
  · trivial
  · obtain ⟨hb, hk, hdir⟩ := h₁
    dsimp only
    rw [wp_ite, wp_ite, wp_pure, wp_bind]
    refine ⟨fun _ => ⟨fun _ => trivial, fun _ => ?_⟩, fun hname => ?_⟩
    · exact wp_post (wp_iput hk) fun _ _ _ => trivial
    · rw [wp_bind]
      refine wp_post (wp_findEntry hb hk) fun r w₂ h₂ => ?_
      obtain ⟨dir', _ | e⟩ := r
      · dsimp only
        rw [wp_bind, wp_get, wp_ite, wp_bind]
        refine ⟨fun _ => wp_post (wp_iput h₂.1) fun _ _ _ => trivial, fun hcreat => ?_⟩
        rw [wp_ite, wp_bind]
        refine ⟨fun hperm => ?_, fun _ => wp_post (wp_iput h₂.1) fun _ _ _ => trivial⟩
        -- the file is made in the directory that the lookup comes to
        rw [h₂.1.view hb, World.node, h₂.1.disk] at hperm
        have hmakes : makesIn w.disk (w.view t) path (openFlag flag) = some (w₂.inode dir').id := by
          rw [makesIn, hdir]
          dsimp only
          rw [h₂.2]
          exact if_pos ⟨hname, hcreat, hperm⟩
        rw [openNeeds, hmakes] at hf
        exact wp_make h₂.1 (h₂.1.another hf)
      · dsimp only at h₂ ⊢
        have hnone : makesIn w.disk (w.view t) path (openFlag flag) = none := by
          rw [makesIn, hdir]
          dsimp only
          rw [h₂.2]
        rw [wp_ite, wp_bind]
        refine ⟨fun _ => wp_post (wp_iput h₂.1) fun _ _ _ => trivial, fun hexcl => ?_⟩
        rw [wp_bind]
        refine wp_post (wp_enter h₂.1 fun hd => ?_) fun i w₃ h₃ => ?_
        · rw [openNeeds, hnone] at hf
          dsimp only at hf
          rw [if_neg hexcl, nameiNeeds] at hf
          split at hf
          · exact hf
          · rw [hdir] at hf
            dsimp only at hf
            rw [enters, h₂.2] at hf
            dsimp only at hf
            rwa [if_pos (decide_eq_true hd)] at hf
        · rw [wp_bind, wp_get, wp_ite, wp_bind]
          exact ⟨fun _ => wp_post (wp_iput h₃.1) fun _ _ _ => trivial, fun _ => trivial⟩

/-! ### The calls -/

theorem wp_sysOpen {p : ℕ} {flag mode : BitVec 32} {fresh : ℕ → Option ℕ} {room : Bool}
    (hf : (if t.emptyFd.isSome ∧ w.emptyFile.isSome then openNeeds w t path (openFlag flag)
      else 0) ≤ w.free) :
    wp (sysOpen p t path flag mode fresh room) (fun _ _ => True) Else w := by
  rw [sysOpen, wp_bind, wp_get]
  dsimp only
  rcases hfd : t.emptyFd with _ | fd
  · trivial
  · dsimp only
    rw [wp_bind, wp_modify]
    rcases hfile : w.emptyFile with _ | f
    · trivial
    · dsimp only
      rw [hfd, hfile, if_pos ⟨rfl, rfl⟩] at hf
      rw [wp_bind, wp_modify, wp_bind]
      refine wp_post (wp_openNamei ?_) fun r w₁ _ => ?_
      · exact hf
      · rcases r with err | i
        · trivial
        · dsimp only
          rw [wp_bind, wp_get, wp_ite, wp_bind]
          refine ⟨fun _ => wp_post (iput_else w₁ i) fun _ _ _ => trivial, fun _ => trivial⟩

theorem wp_sysPipe {p : ℕ} {page : Bool}
    (hf : (if 2 ≤ w.emptyFiles.length ∧ 2 ≤ t.emptyFds.length then 1 else 0) ≤ w.free) :
    wp (sysPipe p t page) (fun _ _ => True) Else w := by
  rw [sysPipe, wp_bind, wp_get]
  rcases hfiles : w.emptyFiles with _ | ⟨f, _ | ⟨g, files⟩⟩
  · trivial
  · trivial
  · rcases hfds : t.emptyFds with _ | ⟨fd, _ | ⟨gd, fds⟩⟩
    · trivial
    · trivial
    · dsimp only
      rw [hfiles, hfds, if_pos ⟨by simp, by simp⟩] at hf
      rw [wp_bind, wp_modify, wp_bind, wp_modify, wp_bind, getPipeInode, wp_bind]
      refine wp_post (wp_getEmptyInode (Kept.refl _) ?_) fun i w₁ _ => ?_
      · exact hf
      · rw [wp_ite]
        exact ⟨fun _ => trivial, fun _ => trivial⟩

theorem wp_sysChdir {p : ℕ} (hf : nameiNeeds w.disk (w.view t) path ≤ w.free) :
    wp (sysChdir p t path) (fun _ _ => True) Else w := by
  rw [sysChdir, wp_bind]
  refine wp_post (wp_namei (Kept.refl w) hf) fun r w₁ _ => ?_
  rcases r with _ | i
  · trivial
  · dsimp only
    rw [wp_bind, wp_get, wp_ite, wp_bind, wp_bind]
    exact ⟨fun _ => wp_post (iput_else w₁ t.pwd) fun _ _ _ => trivial,
      fun _ => wp_post (iput_else w₁ i) fun _ _ _ => trivial⟩

theorem wp_sysFork {pid : ℕ} {page copied : Bool} :
    wp (sysFork t pid page copied) (fun _ _ => True) Else w := by
  rw [sysFork, wp_bind, wp_get]
  split
  · trivial
  · rw [wp_ite, wp_bind, wp_modify, wp_bind]
    refine ⟨fun _ => trivial, fun _ => ?_⟩
    refine wp_post (wp_forFrom (fun _ _ => True) trivial ?_) fun _ _ _ => trivial
    exact fun _ _ _ _ _ => trivial

theorem wp_sysClose {p fd : ℕ} : wp (sysClose p t fd) (fun _ _ => True) Else w := by
  rw [sysClose, wp_ite, wp_pure, wp_bind, wp_modify]
  refine ⟨fun _ => trivial, fun _ => ?_⟩
  rcases t.filp fd with _ | f
  · trivial
  · dsimp only
    rw [wp_bind, wp_modify, wp_bind, wp_get, wp_ite, wp_throw, wp_bind, wp_modify, wp_bind, wp_ite]
    refine ⟨fun _ => (by simp [Else]), fun _ => ⟨fun _ => ?_, fun _ => trivial⟩⟩
    exact wp_post (iput_else _ _) fun _ _ _ => trivial

theorem wp_dupfd {p fd arg : ℕ} : wp (dupfd p fd arg) (fun _ _ => True) Else w := by
  rw [dupfd, wp_bind, wp_get]
  split
  · trivial
  · split
    · trivial
    · rw [wp_ite]
      refine ⟨fun _ => trivial, fun _ => ?_⟩
      split
      · trivial
      · trivial

/-- **A call that has room** does not come to the panic. -/
theorem wp_perform {p : ℕ} {a : Act} (hr : Room w p a) :
    wp (perform p a) (fun _ _ => True) Else w := by
  rw [perform, wp_bind, wp_get]
  rcases ht : w.task p with _ | t
  · trivial
  · have hf := hr t ht
    dsimp only
    cases a with
    | «open» path flag mode fresh room => exact wp_sysOpen hf
    | creat path mode fresh room => exact wp_sysOpen hf
    | pipe page => exact wp_sysPipe hf
    | chdir path => exact wp_sysChdir hf
    | fork pid page copied => exact wp_sysFork
    | close fd => exact wp_sysClose
    | dup fd => exact wp_dupfd
    | dup2 oldfd newfd =>
      rw [Act.run, sysDup2, wp_bind]
      exact wp_post wp_sysClose fun _ _ _ => wp_dupfd
    | dupfd fd arg =>
      rw [Act.run, sysFcntl]
      split
      · trivial
      · exact wp_dupfd

/-- **Inodes do not run out** as long as there is room before every call. -/
theorem calls_roomy (l : List (ℕ × Act)) (w : World) (h : Roomy l w) (w' : World) :
    calls l w ≠ .error (.panic "No free inodes in mem") w' := by
  have hrun : wp (calls l) (fun _ _ => True) Else w := by
    induction l generalizing w with
    | nil => trivial
    | cons c rest ih =>
      obtain ⟨p, a⟩ := c
      rw [calls, wp_bind]
      have hone := wp_perform h.1
      cases hp : perform p a w with
      | error e w₁ => exact (wp_iff_of_error hp).mpr (wp_error hone hp)
      | ok r w₁ =>
        refine (wp_iff_of_ok hp).mpr ?_
        rw [wp_bind]
        exact wp_post (ih w₁ (h.2 r w₁ hp)) fun _ _ _ => trivial
  intro he
  exact wp_error hrun he rfl

/-! ### Within the limits -/

/-- A directory with nothing but the entries '.' and '..'. -/
def rootDir : Inode where
  mode := 0x41ED#16
  uid := 0
  gid := 0
  nlinks := 2
  size := 32
  zone _ := .good
  data x := if x = 0 ∨ x = 16 then 1 else if x = 2 ∨ x = 18 ∨ x = 19 then 46 else 0
  mount := false

/-- Task 1 after `mount_root`: nothing is open, and nothing is in core but the root. -/
def boot : World where
  disk := ⟨fun _ => rootDir, fun k => if k = 0 then ⟨0x301, some ⟨0x301, 1⟩⟩ else ⟨0, none⟩⟩
  rdev _ := 0
  inode i := if i = 0 then ⟨⟨0x301, 1⟩, 4, false, false⟩ else .zero
  last := 0
  file _ := ⟨0, 0⟩
  task p := if p = 1 then some ⟨0, 0, 0#32, true, -1, 0, 0, none, fun _ => none, 0#32⟩ else none

/-- **Four tasks make 31 pipes.** Three children of task 1 are numbers 0, 2 and 3. -/
def pipes : List (ℕ × Act) :=
  [2, 3, 4].map (fun pid => (1, .fork pid true true)) ++
    (List.replicate 10 (1, .pipe true) ++ List.replicate 10 (2, .pipe true) ++
      List.replicate 10 (3, .pipe true) ++ [(4, .pipe true)])

/-- What a call comes to: it is not the panic, and nothing has failed. -/
def allWell : EStateM.Result Halt World (List ℤ) → Bool
  | .ok rs _ => rs.all fun r => 0 ≤ r
  | .error _ _ => false

/-- It is the panic. -/
def noInodes : EStateM.Result Halt World (List ℤ) → Bool
  | .error (.panic message) _ => message == "No free inodes in mem"
  | _ => false

theorem eq_of_noInodes {r : EStateM.Result Halt World (List ℤ)} (h : noInodes r = true) :
    ∃ w, r = .error (.panic "No free inodes in mem") w := by
  rcases r with ⟨rs, w⟩ | ⟨⟨message⟩ | _ | _ | _, w⟩
  · cases h
  · exact ⟨w, by rw [eq_of_beq h]⟩
  · cases h
  · cases h
  · cases h

/-- The first pipe of task 1 finds 31 entries. -/
theorem calls_roomy_boot :
    calls [(1, .pipe true)] boot ≠ .error (.panic "No free inodes in mem") boot := by
  refine calls_roomy [(1, .pipe true)] boot ⟨fun t _ => ?_, fun _ _ _ => trivial⟩ boot
  have hfree : boot.free = 31 := by decide
  rw [hfree, Act.needs]
  split <;> omega

/-- **Inodes run out** while there are tasks, files and descriptors left: the root and 31 pipes
leave none of 32 entries, with 62 files of 64. -/
theorem not_calls_inCore : allWell (calls pipes boot) = true ∧
    ¬∀ l w, calls l boot ≠ .error (.panic "No free inodes in mem") w := by
  constructor
  · decide +kernel
  · intro h
    have hp : noInodes (calls (pipes ++ [(4, .pipe true)]) boot) = true := by decide +kernel
    obtain ⟨w, hw⟩ := eq_of_noInodes hp
    exact h _ w hw

end Linux011.Fs.InCore

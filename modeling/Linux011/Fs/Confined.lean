import Linux011.Fs.Namei
import Linux011.Lib.Run

/-!
# Nobody gets out of his root

A task sees the tree from `current->root` down, and what is mounted in it:
`Linux011.Fs.Inside`. Going down stays inside, by definition. Going up, a lookup meets `..`
in three places. In the root of the task it is taken for `.`; in the root of a mounted file
system the directory is exchanged for the mount point, which is inside as well and has its
parent inside; anywhere else the parent is the directory one has come down from, for it is
a tree. So a lookup that begins inside ends inside (`Linux011.Fs.lookup_confined`).
-/

namespace Linux011.Fs

variable {d : Disk} {t : Task} {id id' m : Id} {i j len entries : ℕ} {name path rest : List UInt8}
  {n : Inode}

/-! ### The tree -/

/-- The name of an entry is `.` -/
def IsDot (n : Inode) (i : ℕ) : Prop := dirName n i 0 = 46 ∧ dirName n i 1 = 0

/-- The name of an entry is `..` -/
def IsDotdot (n : Inode) (i : ℕ) : Prop :=
  dirName n i 0 = 46 ∧ dirName n i 1 = 46 ∧ dirName n i 2 = 0

/-- The directory above. -/
def parent (d : Disk) (id : Id) : Id := ⟨id.dev, dirIno (d.inode id) 1⟩

/-- An entry that leads down. -/
def Lists (n : Inode) (i : ℕ) : Prop :=
  2 ≤ i ∧ i < n.size / 16 ∧ n.zone (i / 64) = .good ∧ dirIno n i ≠ 0

/-- **The directories are trees**: each begins with `.` and `..`, and a directory that is
listed in another one has that one as its `..` and is not the root of its device. -/
structure IsTree (d : Disk) : Prop where
  dot : ∀ id, isDir (d.inode id) = true → IsDot (d.inode id) 0 ∧ dirIno (d.inode id) 0 = id.num
  dotdot : ∀ id, isDir (d.inode id) = true →
    IsDotdot (d.inode id) 1 ∧ dirIno (d.inode id) 1 ≠ 0
  up : ∀ id i, isDir (d.inode id) = true → Lists (d.inode id) i →
    isDir (d.inode ⟨id.dev, dirIno (d.inode id) i⟩) = true →
      parent d ⟨id.dev, dirIno (d.inode id) i⟩ = id ∧ dirIno (d.inode id) i ≠ rootIno

/-- **What `sys_mount` and `mount_root` make of the table of super blocks**: a device has
one of them, and is mounted on a directory that is no root itself, but for the root file
system, whose mount point is its own root. -/
structure MountsOk (d : Disk) : Prop where
  one : ∀ i j, i < 8 → j < 8 → (d.super i).dev = (d.super j).dev → (d.super i).dev ≠ 0 → i = j
  point : ∀ i m, i < 8 → (d.super i).imount = some m → (d.super i).dev ≠ 0 ∧
    isDir (d.inode m) = true ∧ (m.num ≠ rootIno ∨ m = ⟨(d.super i).dev, rootIno⟩)

/-- Nothing is mounted on the directory. -/
def Uncovered (d : Disk) (id : Id) : Prop :=
  ∀ i, i < 8 → (d.super i).imount = some id → id = ⟨(d.super i).dev, rootIno⟩

/-- **The subtree of a directory**, with what is mounted in it. -/
inductive Inside (d : Disk) (root : Id) : Id → Prop
  | root : Inside d root root
  | entry {id : Id} {i : ℕ} (h : Inside d root id) (hd : isDir (d.inode id) = true)
      (hi : Lists (d.inode id) i) : Inside d root ⟨id.dev, dirIno (d.inode id) i⟩
  | mounted {m : Id} {i : ℕ} (h : Inside d root m) (hi : i < 8)
      (hm : (d.super i).imount = some m) (hr : m.num ≠ rootIno) :
      Inside d root ⟨(d.super i).dev, rootIno⟩

/-! ### Up -/

/-- The parent of a directory inside is inside, unless it is a root. -/
theorem Inside.parent {root : Id} (h : Inside d root id) (ht : IsTree d)
    (hd : isDir (d.inode id) = true) (hne : id ≠ root) (hr : id.num ≠ rootIno) :
    Inside d root (parent d id) := by
  cases h with
  | root => exact absurd rfl hne
  | entry h hd' hi =>
    rw [(ht.up _ _ hd' hi hd).1]
    exact h
  | mounted => exact absurd rfl hr

/-- **The mount point** of the root of a file system that is inside. -/
theorem Inside.mountPoint {root : Id} (h : Inside d root id) (ht : IsTree d)
    (hd : isDir (d.inode id) = true) (hne : id ≠ root) (hr : id.num = rootIno) :
    ∃ i m, i < 8 ∧ id.dev = (d.super i).dev ∧ (d.super i).imount = some m ∧
      m.num ≠ rootIno ∧ Inside d root m := by
  cases h with
  | root => exact absurd rfl hne
  | entry h hd' hi => exact absurd hr (ht.up _ _ hd' hi hd).2
  | mounted h hi hm hnum => exact ⟨_, _, hi, rfl, hm, hnum, h⟩

/-- The super block of a device. -/
theorem getSuper_eq (hm : MountsOk d) (hi : i < 8) (hdev : (d.super i).dev ≠ 0) :
    getSuper d (d.super i).dev = some (d.super i) := by
  unfold getSuper
  rw [if_neg hdev]
  have hsome : ((List.range 8).find? fun j => (d.super j).dev = (d.super i).dev).isSome := by
    rw [List.find?_isSome]
    exact ⟨i, List.mem_range.mpr hi, by simp⟩
  obtain ⟨j, hj⟩ := Option.isSome_iff_exists.mp hsome
  have hlt := List.mem_range.mp (List.mem_of_find?_eq_some hj)
  have heq : (d.super j).dev = (d.super i).dev := by simpa using List.find?_some hj
  rw [hj, Option.map_some, hm.one j i hlt hi heq (heq ▸ hdev)]

/-! ### Names -/

theorem isMatch_iff : isMatch len name n i = true ↔ dirIno n i ≠ 0 ∧ len ≤ 14 ∧
    (len < 14 → dirName n i len = 0) ∧ ∀ j, j < len → name.getD j 0 = dirName n i j := by
  unfold isMatch
  split
  · next h =>
    rw [Bool.false_eq_true, false_iff]
    rintro ⟨h1, h2, -⟩
    rcases h with h | h
    · exact h1 h
    · omega
  · next h =>
    rw [not_or] at h
    split
    · next h' =>
      rw [Bool.false_eq_true, false_iff]
      rintro ⟨-, -, h1, -⟩
      exact h'.2 (h1 h'.1)
    · next h' =>
      rw [List.all_eq_true]
      constructor
      · intro hall
        refine ⟨h.1, by omega, fun hlt => ?_, fun j hj => ?_⟩
        · by_contra hne
          exact h' ⟨hlt, hne⟩
        · exact beq_iff_eq.mp (hall j (List.mem_range.mpr hj))
      · rintro ⟨-, -, -, hall⟩ j hj
        exact beq_iff_eq.mpr (hall j (List.mem_range.mp hj))

/-- Only `..` is found as `..` -/
theorem eq_dotdot (h : isMatch (min name.length 14) name n i = true) (hd : IsDotdot n i)
    (h0 : (0 : UInt8) ∉ name) (hne : name ≠ []) : name = dotdot := by
  obtain ⟨-, -, hend, hall⟩ := isMatch_iff.mp h
  obtain ⟨hd0, hd1, hd2⟩ := hd
  match name, hne with
  | [a], _ =>
    have := hend (by simp)
    rw [show min [a].length 14 = 1 from rfl, hd1] at this
    cases this
  | [a, b], _ =>
    have ha := hall 0 (by simp)
    have hb := hall 1 (by simp)
    rw [hd0] at ha
    rw [hd1] at hb
    rw [dotdot, show a = 46 from ha, show b = 46 from hb]
  | a :: b :: c :: rest, _ =>
    have hc := hall 2 (by simp)
    rw [hd2] at hc
    exact absurd (show c = 0 from hc) fun hc => h0 (by simp [hc])

/-- A search for a name of two letters does not find `.` -/
theorem not_match_dot (hd : IsDot n i) : isMatch 2 dotdot n i = false := by
  rw [Bool.eq_false_iff]
  intro h
  obtain ⟨-, -, -, hall⟩ := isMatch_iff.mp h
  have h1 := hall 1 (by omega)
  rw [hd.2] at h1
  cases h1

/-- The faked `.` does not find `..` -/
theorem not_match_fake (hd : IsDotdot n i) : isMatch 1 name n i = false := by
  rw [Bool.eq_false_iff]
  intro h
  obtain ⟨-, -, hend, -⟩ := isMatch_iff.mp h
  have h1 := hend (by omega)
  rw [hd.2.1] at h1
  cases h1

theorem match_dotdot (hd : IsDotdot n i) (hi : dirIno n i ≠ 0) : isMatch 2 dotdot n i = true := by
  refine isMatch_iff.mpr ⟨hi, by omega, fun _ => hd.2.2, fun j hj => ?_⟩
  match j, hj with
  | 0, _ => exact hd.1.symm
  | 1, _ => exact hd.2.1.symm

/-- **What the loop finds** is the first entry that matches. -/
theorem scan_some (h : scan entries len name n = some i) :
    i < entries ∧ n.zone 0 = .good ∧ n.zone (i / 64) = .good ∧ isMatch len name n i = true ∧
      ∀ j, j < i → n.zone (j / 64) = .good → isMatch len name n j = false := by
  unfold scan at h
  split at h
  · next h0 =>
    obtain ⟨hi, hlt, hfirst⟩ := List.find?_range_eq_some.mp h
    have hlt := List.mem_range.mp hlt
    rw [decide_eq_true_eq] at hi
    refine ⟨hlt, h0, hi.1, hi.2, fun j hj hz => ?_⟩
    have := hfirst j hj
    simpa [hz] using this
  · cases h

/-! ### Lookups -/

/-- What the loop finds without going up. -/
theorem Inside.scan {root : Id} (h : Inside d root id) (ht : IsTree d)
    (hd : isDir (d.inode id) = true)
    (hs : scan ((d.inode id).size / 16) len name (d.inode id) = some i) (hi : i ≠ 1) :
    Inside d root ⟨id.dev, dirIno (d.inode id) i⟩ := by
  obtain ⟨hlt, -, hz, hmat, -⟩ := scan_some hs
  by_cases h0 : i = 0
  · rw [h0, (ht.dot id hd).2]
    exact h
  · exact .entry h hd ⟨by omega, hlt, hz, (isMatch_iff.mp hmat).1⟩

/-- A search for `..` finds the second entry. -/
theorem scan_dotdot (ht : IsTree d) (hd : isDir (d.inode id) = true)
    (hs : Fs.scan entries 2 dotdot (d.inode id) = some i) : i = 1 := by
  obtain ⟨-, hz0, -, hmat, hfirst⟩ := scan_some hs
  have hdot := ht.dotdot id hd
  by_contra hi
  rcases Nat.lt_or_gt_of_ne hi with h0 | h2
  · obtain rfl : i = 0 := by omega
    rw [not_match_dot (ht.dot id hd).1] at hmat
    cases hmat
  · have := hfirst 1 h2 hz0
    rw [match_dotdot hdot.1 hdot.2] at this
    cases this

/-- **`find_entry`** does not leave the subtree of the root. -/
theorem Inside.findEntry {dir : Id} (h : Inside d t.root id) (ht : IsTree d) (hm : MountsOk d)
    (hu : Uncovered d t.root) (hd : isDir (d.inode id) = true) (h0 : (0 : UInt8) ∉ name)
    (hf : findEntry d t id name = .ok (dir, some i)) :
    Inside d t.root ⟨dir.dev, dirIno (d.inode dir) i⟩ := by
  unfold Fs.findEntry at hf
  dsimp only at hf
  split at hf
  · cases hf
  · next hlen =>
    split at hf
    · next hname =>
      subst hname
      split at hf
      · -- '..' is taken for '.'
        next hroot =>
        obtain ⟨rfl, hs⟩ := Prod.mk.inj (Except.ok.inj hf)
        refine h.scan ht hd hs ?_
        rintro rfl
        have := (scan_some hs).2.2.2.1
        rw [not_match_fake (ht.dotdot id hd).1] at this
        cases this
      · next hroot =>
        split at hf
        · -- the directory is exchanged for the mount point
          next hnum =>
          obtain ⟨k, m, hk, hdev, hmount, hmnum, hin⟩ := h.mountPoint ht hd hroot hnum
          obtain ⟨hdev0, hmd, -⟩ := hm.point k m hk hmount
          rw [hdev, getSuper_eq hm hk hdev0] at hf
          dsimp only at hf
          rw [hmount, Option.getD_some] at hf
          obtain ⟨rfl, hs⟩ := Prod.mk.inj (Except.ok.inj hf)
          rw [scan_dotdot ht hmd hs]
          refine hin.parent ht hmd ?_ hmnum
          rintro rfl
          exact hmnum (congrArg Id.num (hu k hk hmount))
        · next hnum =>
          obtain ⟨rfl, hs⟩ := Prod.mk.inj (Except.ok.inj hf)
          rw [scan_dotdot ht hd hs]
          exact h.parent ht hd hroot hnum
    · next hname =>
      obtain ⟨rfl, hs⟩ := Prod.mk.inj (Except.ok.inj hf)
      refine h.scan ht hd hs ?_
      rintro rfl
      refine hname (eq_dotdot (scan_some hs).2.2.2.1 (ht.dotdot id hd).1 h0 ?_)
      rintro rfl
      exact hlen rfl

/-- **`iget`** goes down where something is mounted. -/
theorem Inside.igetFrom {root : Id} {n : ℕ} (h : Inside d root id) (hm : MountsOk d)
    (hg : igetFrom d n id = .ok id') : Inside d root id' := by
  induction n generalizing id with
  | zero => cases hg
  | succ n ih =>
    unfold Fs.igetFrom at hg
    split at hg
    · split at hg
      · obtain rfl := Except.ok.inj hg
        exact h
      · next i hi =>
        have hlt := List.mem_range.mp (List.mem_of_find?_eq_some hi)
        have hmount : (d.super i).imount = some id := by simpa using List.find?_some hi
        refine ih ?_ hg
        rcases (hm.point i id hlt hmount).2.2 with hnum | heq
        · exact .mounted h hlt hmount hnum
        · exact heq ▸ h
    · obtain rfl := Except.ok.inj hg
      exact h

theorem Inside.iget {root : Id} (h : Inside d root id) (hm : MountsOk d)
    (hg : iget d id = .ok id') : Inside d root id' := by
  unfold Fs.iget at hg
  split at hg
  · cases hg
  · exact h.igetFrom hm hg

/-- **The loop of `get_dir`** stays inside. -/
theorem Inside.walk (h : Inside d t.root id) (ht : IsTree d) (hm : MountsOk d)
    (hu : Uncovered d t.root) (hd : isDir (d.inode id) = true) (h0 : (0 : UInt8) ∉ name)
    (h0' : (0 : UInt8) ∉ rest) (hw : walk d t id name rest = .ok (some id')) :
    Inside d t.root id' := by
  induction rest generalizing id name with
  | nil =>
    obtain rfl := Option.some.inj (Except.ok.inj hw)
    exact h
  | cons c rest ih =>
    rw [List.mem_cons, not_or] at h0'
    unfold Fs.walk at hw
    split at hw
    · -- a name has been read
      obtain ⟨⟨dir, r⟩, hf, hw⟩ := bind_eq_ok hw
      cases r with
      | none => cases hw
      | some i =>
        obtain ⟨id₁, hg, hw⟩ := bind_eq_ok hw
        have h₁ := (h.findEntry ht hm hu hd h0 hf).iget hm hg
        split at hw
        · next hp => exact ih h₁ (isDir_of_passable hp) (by simp) h0'.2 hw
        · cases hw
    · refine ih h hd ?_ h0'.2 hw
      rw [List.mem_append, List.mem_singleton, not_or]
      exact ⟨h0, h0'.1⟩

theorem Inside.getDir (ht : IsTree d) (hm : MountsOk d) (hu : Uncovered d t.root)
    (hp : Inside d t.root t.pwd) (h0 : (0 : UInt8) ∉ path)
    (hg : getDir d t path = .ok (some id)) : Inside d t.root id := by
  unfold Fs.getDir at hg
  split at hg
  · cases hg
  · rw [List.mem_cons, not_or] at h0
    split at hg <;> split at hg
    · next hpass =>
      exact Inside.root.walk ht hm hu (isDir_of_passable hpass) (by simp) h0.2 hg
    · cases hg
    · next hpass =>
      refine hp.walk ht hm hu (isDir_of_passable hpass) (by simp) ?_ hg
      rw [List.mem_cons, not_or]
      exact h0
    · cases hg

theorem not_mem_basename (h0 : (0 : UInt8) ∉ name) (h0' : (0 : UInt8) ∉ rest) :
    (0 : UInt8) ∉ basename name rest := by
  induction rest generalizing name with
  | nil => exact h0
  | cons c rest ih =>
    rw [List.mem_cons, not_or] at h0'
    unfold basename
    split
    · exact ih (by simp) h0'.2
    · refine ih ?_ h0'.2
      rw [List.mem_append, List.mem_singleton, not_or]
      exact ⟨h0, h0'.1⟩

/-- **`dir_namei`** -/
theorem Inside.dirNamei {path : Path} (ht : IsTree d) (hm : MountsOk d) (hu : Uncovered d t.root)
    (hp : Inside d t.root t.pwd) (hn : dirNamei d t path = .ok (some (id, name))) :
    Inside d t.root id :=
  Inside.getDir ht hm hu hp path.2 (dirNamei_isDir hn).2.2

/-- **`namei`** -/
theorem Inside.namei {path : Path} (ht : IsTree d) (hm : MountsOk d) (hu : Uncovered d t.root)
    (hp : Inside d t.root t.pwd) (hn : namei d t path = .ok (some id)) : Inside d t.root id := by
  obtain ⟨r, hd, hn⟩ := bind_eq_ok hn
  match r with
  | none => cases hn
  | some (dir, name) =>
    have hin := Inside.dirNamei ht hm hu hp hd
    obtain ⟨hdir, rfl, -⟩ := dirNamei_isDir hd
    dsimp only at hn
    split at hn
    · obtain rfl := Option.some.inj (Except.ok.inj hn)
      exact hin
    · obtain ⟨⟨dir', r⟩, hf, hn⟩ := bind_eq_ok hn
      cases r with
      | none => cases hn
      | some i =>
        have h0 := not_mem_basename (List.not_mem_nil) path.2
        have hin' := hin.findEntry ht hm hu hdir h0 hf
        dsimp only at hn
        cases hg : Fs.iget d ⟨dir'.dev, dirIno (d.inode dir') i⟩ with
        | error e =>
          rw [hg] at hn
          cases hn
        | ok id₁ =>
          rw [hg] at hn
          obtain rfl := Option.some.inj (Except.ok.inj hn)
          exact hin'.iget hm hg

/-- **A `chdir`** that returns. -/
def Chdir (d : Disk) (t t' : Task) : Prop := ∃ path v, sysChdir d t path = .ok (v, t')

theorem Inside.chdir {t' : Task} (ht : IsTree d) (hm : MountsOk d) (hu : Uncovered d t.root)
    (hp : Inside d t.root t.pwd) (hc : Chdir d t t') :
    t'.root = t.root ∧ Inside d t.root t'.pwd := by
  obtain ⟨path, v, hs⟩ := hc
  obtain ⟨r, hn, hs⟩ := bind_eq_ok hs
  cases r with
  | none =>
    obtain ⟨-, rfl⟩ := Prod.mk.inj (Except.ok.inj hs)
    exact ⟨rfl, hp⟩
  | some id =>
    dsimp only at hs
    split at hs
    · obtain ⟨-, rfl⟩ := Prod.mk.inj (Except.ok.inj hs)
      exact ⟨rfl, .namei ht hm hu hp hn⟩
    · obtain ⟨-, rfl⟩ := Prod.mk.inj (Except.ok.inj hs)
      exact ⟨rfl, hp⟩

/-- **Nobody gets out of his root**: where the root of a task is not covered by a mount and
its working directory is inside, lookups return what is inside, and so the working
directory stays there. -/
theorem lookup_confined (ht : IsTree d) (hm : MountsOk d) (hu : Uncovered d t.root)
    (hp : Inside d t.root t.pwd) :
    (∀ path dir name, dirNamei d t path = .ok (some (dir, name)) → Inside d t.root dir) ∧
    (∀ path id, namei d t path = .ok (some id) → Inside d t.root id) ∧
    ∀ t', Relation.ReflTransGen (Chdir d) t t' → t'.root = t.root ∧ Inside d t.root t'.pwd := by
  refine ⟨fun path dir name hn => Inside.dirNamei ht hm hu hp hn,
    fun path id hn => .namei ht hm hu hp hn, fun t' hr => ?_⟩
  induction hr with
  | refl => exact ⟨rfl, hp⟩
  | tail _ hc ih =>
    obtain ⟨hroot, hpwd⟩ := ih
    obtain ⟨hroot', hpwd'⟩ := Inside.chdir ht hm (hroot ▸ hu) (hroot ▸ hpwd) hc
    exact ⟨hroot'.trans hroot, hroot ▸ hpwd'⟩

/-- A directory with the given entries. -/
def directory (entries : List (ℕ × List UInt8)) (mount : Bool) : Inode where
  mode := 0x41ED#16
  uid := 0
  gid := 0
  nlinks := 2
  size := 16 * entries.length
  zone _ := .good
  data x :=
    let e := entries.getD (x / 16) (0, [])
    if x % 16 = 0 then UInt8.ofNat e.1 else if x % 16 = 1 then UInt8.ofNat (e.1 / 256)
    else e.2.getD (x % 16 - 2) 0
  mount := mount

/-- Two file systems: the second is mounted on the directory `a` of the first. -/
def twoDisks : Disk where
  inode id :=
    if id = ⟨1, 1⟩ then directory [(1, [46]), (1, dotdot), (2, [97])] false
    else if id = ⟨1, 2⟩ then directory [(2, [46]), (1, dotdot)] true
    else if id = ⟨2, 1⟩ then directory [(1, [46]), (1, dotdot)] false
    else { directory [] false with mode := 0x81A4#16 }
  super i := if i = 0 then ⟨1, some ⟨1, 1⟩⟩ else if i = 1 then ⟨2, some ⟨1, 2⟩⟩ else ⟨0, none⟩

theorem twoDisks_isDir (h : isDir (twoDisks.inode id) = true) :
    id = ⟨1, 1⟩ ∨ id = ⟨1, 2⟩ ∨ id = ⟨2, 1⟩ := by
  by_contra hne
  rw [not_or, not_or] at hne
  have hother : twoDisks.inode id = { directory [] false with mode := 0x81A4#16 } := by
    unfold twoDisks
    dsimp only
    rw [if_neg hne.1, if_neg hne.2.1, if_neg hne.2.2]
  rw [hother] at h
  exact absurd h (by decide)

/-- A task in the second file system goes up, and does not get out of the first. -/
theorem lookup_confined_mounted :
    namei twoDisks ⟨1, 1, ⟨1, 1⟩, ⟨2, 1⟩⟩ ⟨dotdot, by decide⟩ = .ok (some ⟨1, 1⟩) ∧
      Inside twoDisks ⟨1, 1⟩ ⟨1, 1⟩ := by
  have ht : IsTree twoDisks := by
    refine ⟨fun id hd => ?_, fun id hd => ?_, fun id i hd hl hd' => ?_⟩
    · rcases twoDisks_isDir hd with rfl | rfl | rfl <;> exact ⟨⟨by decide, by decide⟩, by decide⟩
    · rcases twoDisks_isDir hd with rfl | rfl | rfl <;>
        exact ⟨⟨by decide, by decide, by decide⟩, by decide⟩
    · obtain ⟨h2, hlt, -⟩ := hl
      rcases twoDisks_isDir hd with rfl | rfl | rfl
      · obtain rfl : i = 2 := by
          have : i < 48 / 16 := hlt
          omega
        exact ⟨by decide, by decide⟩
      · have : i < 32 / 16 := hlt
        omega
      · have : i < 32 / 16 := hlt
        omega
  have hm : MountsOk twoDisks := by
    refine ⟨fun i j _ _ h h0 => ?_, fun i m _ h => ?_⟩
    · match i, j with
      | 0, 0 => rfl
      | 1, 1 => rfl
      | 0, 1 => cases h
      | 1, 0 => cases h
      | 0, _ + 2 => cases h
      | 1, _ + 2 => cases h
      | _ + 2, _ => exact absurd rfl h0
    · match i with
      | 0 =>
        obtain rfl := Option.some.inj h
        exact ⟨by decide, by decide, Or.inr rfl⟩
      | 1 =>
        obtain rfl := Option.some.inj h
        exact ⟨by decide, by decide, Or.inl (by decide)⟩
      | _ + 2 => cases h
  have hu : Uncovered twoDisks ⟨1, 1⟩ := by
    intro i _ h
    match i with
    | 0 => rfl
    | 1 => cases h
    | _ + 2 => cases h
  have ha : Inside twoDisks ⟨1, 1⟩ ⟨1, 2⟩ :=
    .entry (i := 2) .root (by decide) ⟨by decide, by decide, by decide, by decide⟩
  have hp : Inside twoDisks ⟨1, 1⟩ ⟨2, 1⟩ := .mounted (i := 1) ha (by decide) rfl (by decide)
  have hup : namei twoDisks ⟨1, 1, ⟨1, 1⟩, ⟨2, 1⟩⟩ ⟨dotdot, by decide⟩ = .ok (some ⟨1, 1⟩) := rfl
  exact ⟨hup, (lookup_confined (t := ⟨1, 1, ⟨1, 1⟩, ⟨2, 1⟩⟩) ht hm hu hp).2.1 _ _ hup⟩

end Linux011.Fs

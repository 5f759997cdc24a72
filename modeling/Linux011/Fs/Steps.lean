import Linux011.Fs.Entries

/-!
# Steps between tidy file systems

What the calls on names do to inodes, one inode at a time: an inode is taken, it changes its links
or its mode, a file grows or is cut, an inode is given back (`Linux011.Fs.Names.Tidy.file`,
`Linux011.Fs.Names.Tidy.relink`), and a directory that is empty goes
(`Linux011.Fs.Names.Gone.buried`). Each of these leaves the file systems tidy, with other links
owed.
-/

namespace Linux011.Fs.Names

open Bmap (State Place Spot Sound)
open Directory (Pointer Dir slot)

variable {s s' u : Kernel} {id a dir up : Id} {k : ℕ × ℕ}
  {i j m num b o dev : ℕ} {t : State} {owed owed' : Id → ℕ} {out out' : Set Id}
  {f : Inode → Inode} {n : Inode}

/-! ### What is held -/

/-- **Inodes that stay held**: those of the task, the roots of the devices, and what they are
mounted on. -/
def Kernel.Pinned (s : Kernel) (x : Id) : Prop :=
  x = s.task.root ∨ x = s.task.pwd ∨
    ∃ dev sb, s.getSuper dev = some sb ∧ (x = ⟨dev, rootIno⟩ ∨ sb.imount = some x)

theorem Tidy.pinned (h : Tidy owed out s) {x : Id} (hx : s.Pinned x) : s.iCount x ≠ 0 := by
  rcases hx with rfl | rfl | ⟨dev, sb, hsb, rfl | hm⟩
  · exact h.root.2
  · exact h.pwd.2
  · exact h.top dev sb hsb
  · exact h.covered dev sb x hsb hm

/-- **Other counts, and another task**: what is free is not held, and what has to be held is. -/
theorem Tidy.anew (h : Tidy owed out s) {c : Id → ℕ} {t : Task} {m : BitVec 32}
    (hfree : ∀ a, ¬s.Allocated a → c a = 0)
    (hheld : ∀ x, Kernel.Pinned { s with iCount := c, task := t, umask := m } x → c x ≠ 0) :
    Tidy owed out { s with iCount := c, task := t, umask := m } := by
  have hentry : ∀ a i n, Kernel.Entry { s with iCount := c, task := t, umask := m } a i n ↔
      s.Entry a i n := fun a i n => ⟨fun h => ⟨h.alloc, h.isDir, h.lt, h.ino, h.ne⟩,
    fun h => ⟨h.alloc, h.isDir, h.lt, h.ino, h.ne⟩⟩
  have hstored : ∀ {a}, Kernel.Stored { s with iCount := c, task := t, umask := m } a →
      s.Stored a := fun h => ⟨h.alloc, h.stored⟩
  have halloc : ∀ a, c a ≠ 0 → s.Allocated a := fun a hne => not_not.mp fun hno => hne (hfree a hno)
  exact { h with
    dir := fun a ha hd => by
      obtain ⟨hdir, htwo, hdots, hlinks, hentry⟩ := h.dir a ha hd
      exact ⟨hdir, htwo, hdots, hlinks, fun i hi hne =>
        ⟨(hentry i hi hne).alloc, (hentry i hi hne).links⟩⟩
    mount := fun a i ha hm hi => by
      obtain ⟨hnamed, hno⟩ := h.mount a i ha hm hi
      exact ⟨⟨hnamed.alloc, hnamed.links⟩, hno⟩
    root := ⟨halloc _ (hheld _ (Or.inl rfl)), hheld _ (Or.inl rfl)⟩
    pwd := ⟨halloc _ (hheld _ (Or.inr (Or.inl rfl))), hheld _ (Or.inr (Or.inl rfl))⟩
    unheld := hfree
    used := fun a ha => h.used a (hstored ha)
    apart := fun a b ha hb => h.apart a b (hstored ha) (hstored hb)
    marked := fun k hk => by
      obtain ⟨a, hdev, ⟨halloc, hkind⟩, hrest⟩ := h.marked k hk
      exact ⟨a, hdev, ⟨halloc, hkind⟩, hrest⟩
    legible := fun a ha => h.legible a (hstored ha)
    family := h.family.of_entries hentry (fun _ => Iff.rfl) fun _ => rfl
    top := fun dev sb hsb => hheld _ (Or.inr (Or.inr ⟨dev, sb, hsb, Or.inl rfl⟩))
    covered := fun dev sb a hsb hm => hheld a (Or.inr (Or.inr ⟨dev, sb, hsb, Or.inr hm⟩))
    links := fun a ha => by
      rw [← h.links a ha, names_congr hentry] }

/-- Other counts. -/
theorem Tidy.recount (h : Tidy owed out s) {c : Id → ℕ} (hfree : ∀ a, ¬s.Allocated a → c a = 0)
    (hheld : ∀ x, s.Pinned x → c x ≠ 0) : Tidy owed out { s with iCount := c } :=
  h.anew (t := s.task) (m := s.umask) hfree hheld

/-- One reference more. -/
theorem Tidy.hold (h : Tidy owed out s) (ha : s.Allocated id) : Tidy owed out (s.hold id) := by
  refine h.recount (fun a hno => ?_) fun a ha => ?_
  · rw [Function.update_of_ne]
    · exact h.unheld a hno
    · rintro rfl
      exact hno ha
  · have hne := h.pinned ha
    have hle := iCount_hold s id a
    rw [Kernel.hold] at hle
    dsimp only at hle
    omega

/-! ### Inodes that are no directories -/

/-- **The books of an inode that is no directory** are right. -/
structure Plain (id : Id) (owed : Id → ℕ) (s s' : Kernel) : Prop where
  old : s.Allocated id → isDir (s.disk.inode id) = false
  new : s'.Allocated id → isDir (s'.disk.inode id) = false
  mount : s'.Allocated id → (s'.inode id).mount = true →
    s.Allocated id ∧ (s.inode id).mount = true
  held : s.Allocated id → s.iCount id ≠ 0 → s'.Allocated id ∧ s'.iCount id ≠ 0
  unheld : ¬s'.Allocated id → s'.iCount id = 0
  zones : s'.Stored id → Distinct (s'.file id) ∧ s'.Inside id ∧
    ∀ p : Spot, p.Ok → (s'.file id).at p ≠ 0 → s'.readable id.dev ((s'.file id).at p) = true
  named : ¬s'.Allocated id → s.names id = ∅
  links : s'.Allocated id →
    (s.names id).encard + owed id = ((s'.inode id).nlinks.toNat : ℕ∞)

/-- **An inode that is no directory** changes no entry. -/
theorem Tidy.file (h : Tidy owed out s) (hb : Beside id s s') (hp : Plain id owed' s s')
    (howed : ∀ a ≠ id, owed' a = owed a) : Tidy owed' out s' := by
  have hentry : ∀ a i n, s'.Entry a i n ↔ s.Entry a i n := by
    intro a i n
    by_cases hne : a = id
    · subst hne
      exact iff_of_false (fun he => Bool.noConfusion (he.isDir.symm.trans (hp.new he.alloc)))
        fun he => Bool.noConfusion (he.isDir.symm.trans (hp.old he.alloc))
    · exact hb.entry_iff h hne
  have hkind : ∀ a, s'.Allocated a ∧ isDir (s'.disk.inode a) = true ↔
      s.Allocated a ∧ isDir (s.disk.inode a) = true := by
    intro a
    by_cases hne : a = id
    · subst hne
      exact iff_of_false (fun hd => Bool.noConfusion (hd.2.symm.trans (hp.new hd.1)))
        fun hd => Bool.noConfusion (hd.2.symm.trans (hp.old hd.1))
    · constructor
      · rintro ⟨ha, hd⟩
        have ha' := (hb.alloc a hne).mp ha
        exact ⟨ha', (hb.same a hne ha').isDir_eq ▸ hd⟩
      · rintro ⟨ha, hd⟩
        exact ⟨(hb.alloc a hne).mpr ha, (hb.same a hne ha).isDir_eq.trans hd⟩
  refine h.beside hb ⟨fun ha hd => ?_, hp.mount, hp.held, fun ha _ hd => ?_, hp.unheld, hp.zones,
    fun hno => ?_, fun a ha => ?_, h.family.of_entries hentry hkind hb.getSuper⟩
  · exact Bool.noConfusion (hd.symm.trans (hp.new ha))
  · exact Bool.noConfusion (hd.symm.trans (hp.old ha))
  · rw [names_congr hentry]
    exact hp.named hno
  · rw [names_congr hentry]
    by_cases hne : a = id
    · subst hne
      exact hp.links ha
    · have ha' := (hb.alloc a hne).mp ha
      rw [howed a hne, (hb.same a hne ha').inode]
      exact h.links a ha'

/-- **A new inode**: one link is owed. -/
theorem Fresh.tidy (h : Fresh s dev (.some id) u) (ht : Tidy owed out s) :
    Tidy (Function.update owed id 1) out u := by
  obtain ⟨-, hfree, hinodes, hinode⟩ := h.some id rfl
  have halloc : u.Allocated id := by
    rw [Kernel.Allocated, hinodes]
    exact Set.mem_insert ..
  have hself : u.inode id = { Inode.zero with
      uid := s.task.euid, gid := s.task.egid, nlinks := 1 } := by
    rw [hinode, Function.update_self]
  have hmode : (u.disk.inode id).mode = 0 := congrArg Inode.mode hself
  refine ht.file (h.beside rfl ht.toStowed) ⟨fun ha => absurd ha hfree, fun _ => ?_,
    fun _ hm => ?_, fun ha => absurd ha hfree, fun hno => absurd halloc hno, fun hs => ?_,
    fun hno => absurd halloc hno, fun _ => ?_⟩ fun a hne => Function.update_of_ne hne ..
  · rw [isDir, hmode]
    rfl
  · exact Bool.noConfusion (hm.symm.trans (congrArg Inode.mount hself))
  · have hstored := hs.stored
    rw [isStored, isReg, isDir, hmode] at hstored
    cases hstored
  · rw [ht.names_eq_empty hfree, hself, Set.encard_empty, Function.update_self]
    rfl

/-- **A file grows.** -/
theorem Swells.tidy (h : Swells id s u t) (ht : Tidy owed out s) (hs : s.Stored id)
    (hno : isDir (s.disk.inode id) = false) (hsound : Sound t) : Tidy owed out u := by
  have hmode : (u.inode id).mode = (s.inode id).mode := by
    rw [h.inode, Function.update_self]
  have hmount : (u.inode id).mount = (s.inode id).mount := by
    rw [h.inode, Function.update_self]
  have halloc : u.Allocated id := by
    rw [Kernel.Allocated, h.inodes]
    exact hs.alloc
  rw [← h.file] at hsound
  refine ht.file (h.beside ht.toStowed hs) ⟨fun _ => hno, fun _ => ?_, fun _ hm => ⟨hs.alloc, ?_⟩,
    fun _ hc => ⟨halloc, ?_⟩, fun hno => absurd halloc hno,
    fun _ => ⟨hsound.inj, h.inside (ht.used id hs), hsound.readable⟩,
    fun hno => absurd halloc hno, fun _ => ?_⟩ fun _ _ => rfl
  · exact (isDir_congr hmode).trans hno
  · rw [← hmount]
    exact hm
  · rw [h.iCount]
    exact hc
  · rw [h.nlinks]
    exact ht.links id hs.alloc

/-- **A file is cut.** -/
theorem Cut.tidy (h : Cut id s u) (ht : Tidy owed out s) (ha : s.Allocated id)
    (hno : isDir (s.disk.inode id) = false) : Tidy owed out u := by
  have halloc : u.Allocated id := by
    rw [Kernel.Allocated, h.inodes]
    exact ha
  have hat : u.Stored id → ∀ p : Spot, p.Ok → (u.file id).at p = 0 :=
    fun hs p hp => at_eq_zero (h.empty hs) hp
  refine ht.file h.toBeside ⟨fun _ => hno, fun _ => ?_, fun _ hm => ⟨ha, ?_⟩,
    fun _ hc => ⟨halloc, ?_⟩, fun hno => absurd halloc hno, fun hs => ⟨?_, ?_, ?_⟩,
    fun hno => absurd halloc hno, fun _ => ?_⟩ fun _ _ => rfl
  · exact (isDir_congr h.mode).trans hno
  · rw [← h.mount]
    exact hm
  · rw [h.counts]
    exact hc
  · exact fun p q hp _ hne => absurd (hat hs p hp) hne
  · exact fun p hp hne => absurd (hat hs p hp) hne
  · exact fun p hp hne => absurd (hat hs p hp) hne
  · rw [h.nlinks]
    exact ht.links id ha

/-- **A file goes**, that nothing names and nobody holds. -/
theorem Gone.tidy (h : Gone id s u) (ht : Tidy owed out s) (ha : s.Allocated id)
    (hno : isDir (s.disk.inode id) = false) (hcount : s.iCount id = 0)
    (hlinks : (s.inode id).nlinks = 0) : Tidy (Function.update owed id 0) out u := by
  have hnone : s.names id = ∅ := by
    have hnames := ht.links id ha
    rw [hlinks] at hnames
    have hzero := (add_eq_zero.mp (hnames.trans (by rfl))).1
    rwa [Set.encard_eq_zero] at hzero
  exact ht.file h.toBeside ⟨fun _ => hno, fun ha => absurd ha h.free, fun ha => absurd ha h.free,
    fun _ hc => absurd hcount hc, fun _ => h.count, fun hs => absurd hs.alloc h.free,
    fun _ => hnone, fun ha => absurd ha h.free⟩ fun a hne => Function.update_of_ne hne ..

/-! ### Inodes that change -/

/-- The links that there are, and those that are owed: the number changes by what is owed. -/
theorem links_add {c : ℕ∞} {o l l' : ℕ} (hold : c + o = l) (h : o + l' = m + l) :
    c + m = (l' : ℕ∞) := by
  cases c with
  | top => cases hold
  | coe c =>
    norm_cast at hold ⊢
    omega

/-- **A new inode gets its mode**, and has no zones, or is a device. -/
theorem Tidy.retype (h : Tidy owed out s) (ha : s.Allocated id)
    (hzone : ∀ k < 9, (s.inode id).zone k = 0) (hno : isDir (s.disk.inode id) = false)
    (hno' : isDir ((s.setInode id f).disk.inode id) = false)
    (hzone' : isStored ((s.setInode id f).disk.inode id) = true → ∀ k < 9,
      (f (s.inode id)).zone k = 0)
    (hmount : (f (s.inode id)).mount = (s.inode id).mount)
    (hlinks : owed id + (f (s.inode id)).nlinks.toNat = m + (s.inode id).nlinks.toNat) :
    Tidy (Function.update owed id m) out (s.setInode id f) := by
  have hempty : (s.setInode id f).Stored id → ∀ k < 9, ((s.setInode id f).inode id).zone k = 0 := by
    intro hs k hk
    rw [setInode_self]
    exact hzone' hs.stored k hk
  have hat : (s.setInode id f).Stored id → ∀ p : Spot, p.Ok →
      ((s.setInode id f).file id).at p = 0 := fun hs p hp => at_eq_zero (hempty hs) hp
  have hbeside : Beside id s (s.setInode id f) := h.toStowed.setInode fun k =>
    iff_of_false (not_hangs hempty) (not_hangs fun _ => hzone)
  refine h.file hbeside ⟨fun _ => hno, fun _ => hno', fun _ hm => ⟨ha, ?_⟩, fun _ hc => ⟨ha, hc⟩,
    fun hno => absurd ha hno, fun hs => ⟨?_, ?_, ?_⟩, fun hno => absurd ha hno, fun _ => ?_⟩
    fun a hne => Function.update_of_ne hne ..
  · rw [setInode_self, hmount] at hm
    exact hm
  · exact fun p q hp _ hne => absurd (hat hs p hp) hne
  · exact fun p hp hne => absurd (hat hs p hp) hne
  · exact fun p hp hne => absurd (hat hs p hp) hne
  · rw [setInode_self, Function.update_self]
    exact links_add (h.links id ha) hlinks

/-- **Nothing but the links of an inode**, its owner and its mode among those of its kind. -/
structure Relinks (f : Inode → Inode) (n : Inode) : Prop where
  mode : (f n).mode = n.mode
  zone : (f n).zone = n.zone
  size : (f n).size = n.size
  mount : (f n).mount = n.mount

theorem Relinks.file (h : Relinks f (s.inode id)) (a : Id) :
    (s.setInode id f).file a = s.file a := by
  by_cases hne : a = id
  · subst hne
    rw [Kernel.file, Kernel.file, setInode_self, h.zone, h.size]
    rfl
  · exact setInode_file_of_ne hne s f

theorem Relinks.mode_eq (h : Relinks f (s.inode id)) (a : Id) :
    ((s.setInode id f).inode a).mode = (s.inode a).mode := by
  by_cases hne : a = id
  · subst hne
    exact (congrArg Inode.mode (setInode_self s a f)).trans h.mode
  · exact congrArg Inode.mode (setInode_of_ne hne s f)

theorem Relinks.isDir_eq (h : Relinks f (s.inode id)) (a : Id) :
    isDir ((s.setInode id f).disk.inode a) = isDir (s.disk.inode a) := isDir_congr (h.mode_eq a)

theorem Relinks.stored_iff (h : Relinks f (s.inode id)) :
    (s.setInode id f).Stored a ↔ s.Stored a := by
  have hkind := isStored_congr (h.mode_eq a)
  exact ⟨fun hs => ⟨hs.alloc, hkind.symm.trans hs.stored⟩,
    fun hs => ⟨hs.alloc, hkind.trans hs.stored⟩⟩

theorem Relinks.hangs_iff (h : Relinks f (s.inode id)) :
    (s.setInode id f).Hangs a k ↔ s.Hangs a k := by
  rw [Kernel.Hangs, Kernel.Hangs, Kernel.Reaches, Kernel.Reaches, h.file, h.stored_iff]

theorem Relinks.beside (h : Relinks f (s.inode id)) (hw : Stowed s) :
    Beside id s (s.setInode id f) := hw.setInode fun _ => h.hangs_iff

/-- **The links of an inode change**, and so many are owed. -/
theorem Tidy.relink (h : Tidy owed out s) (ha : s.Allocated id) (hf : Relinks f (s.inode id))
    (hdirs : isDir (s.disk.inode id) = true → 2 ≤ (f (s.inode id)).nlinks.toNat)
    (hlinks : owed id + (f (s.inode id)).nlinks.toNat = m + (s.inode id).nlinks.toNat) :
    Tidy (Function.update owed id m) out (s.setInode id f) := by
  have hself : (s.setInode id f).inode id = f (s.inode id) := setInode_self s id f
  have hisDir := hf.isDir_eq
  have hentry : ∀ a i n, (s.setInode id f).Entry a i n ↔ s.Entry a i n := by
    intro a i n
    rw [entry_iff, entry_iff, hf.file, hisDir]
    rfl
  refine h.beside (hf.beside h.toStowed) ⟨fun _ hd => ?_, fun _ hm => ⟨ha, ?_⟩,
    fun _ hc => ⟨ha, hc⟩, fun _ _ hd => (hisDir id).trans hd, fun hno => absurd ha hno,
    fun hs => ?_, fun hno => absurd ha hno, fun a halloc => ?_,
    h.family.of_entries hentry (fun a => by rw [hisDir]; rfl) fun _ => rfl⟩
  · rw [hisDir] at hd
    have hgood := h.dir id ha hd
    rw [hf.file, hself]
    exact ⟨hgood.toDir, hgood.two, hgood.dots, hdirs hd, fun i hi hne =>
      (hgood.entry i hi hne).alloc⟩
  · rw [hself, hf.mount] at hm
    exact hm
  · rw [hf.file]
    have hs := hf.stored_iff.mp hs
    refine ⟨h.distinct hs, fun p hp hne => ?_, h.legible id hs⟩
    rw [hf.file] at hne ⊢
    exact h.used id hs p hp hne
  · rw [names_congr hentry]
    have hold := h.links a halloc
    by_cases hne : a = id
    · subst hne
      rw [hself, Function.update_self]
      exact links_add hold hlinks
    · rw [setInode_of_ne hne, Function.update_of_ne hne]
      exact hold

/-! ### Directories that go -/

/-- **The entries behind an inode that is gone.** -/
theorem Gone.entry_iff (h : Gone id s u) (ht : Tidy owed out s) :
    u.Entry a i num ↔ a ≠ id ∧ s.Entry a i num := by
  by_cases hne : a = id
  · subst hne
    exact iff_of_false (fun he => h.free he.alloc) fun he => he.1 rfl
  · rw [h.toBeside.entry_iff ht hne, and_iff_right hne]

/-- **A directory that is empty**, and is in no other one any more. -/
structure Barren (out : Set Id) (s : Kernel) (dir id : Id) : Prop where
  alloc : s.Allocated id
  isDir : isDir (s.disk.inode id) = true
  up : s.Entry id 1 dir.num
  dev : dir.dev = id.dev
  ne : dir ≠ id
  top : id.num ≠ rootIno
  count : s.iCount id = 0
  empty : ∀ i ≥ 2, inos (s.file id) i = 0
  loose : ∀ up j, ¬s.Sub up j id
  out : ∀ d ∈ out, d = id

namespace Barren

/-- Nothing is in it. -/
theorem not_sub (h : Barren out s dir id) : ¬s.Sub id j a := by
  intro hs
  obtain ⟨-, -, hino, hne⟩ := Names.entry_iff.mp hs.entry
  exact hne (hino.symm.trans (h.empty j hs.two))

/-- The entries of an empty directory. -/
theorem entry_self (h : Barren out s dir id) (ht : Tidy owed out s) :
    s.Entry id j num ↔ (j = 0 ∧ num = id.num) ∨ (j = 1 ∧ num = dir.num) := by
  obtain ⟨hdot, -⟩ := ht.entry_dots h.alloc h.isDir
  obtain ⟨-, -, hdotdot, hne⟩ := Names.entry_iff.mp h.up
  rw [Names.entry_iff, and_iff_right h.alloc, and_iff_right h.isDir]
  constructor
  · rintro ⟨hino, h0⟩
    have hlt : j < 2 := by
      by_contra hge
      exact h0 (hino.symm.trans (h.empty j (by omega)))
    obtain rfl | rfl : j = 0 ∨ j = 1 := by omega
    · exact Or.inl ⟨rfl, hino.symm.trans hdot⟩
    · exact Or.inr ⟨rfl, hino.symm.trans hdotdot⟩
  · rintro (⟨rfl, rfl⟩ | ⟨rfl, rfl⟩)
    · exact ⟨hdot, h.alloc.num_ne⟩
    · exact ⟨hdotdot, hne⟩

/-- **`.` is all that names it**: `..` of what is in it would, and nothing is. -/
theorem names_self (h : Barren out s dir id) (ht : Tidy owed out s) (hdev : a.dev = id.dev)
    (he : s.Entry a j id.num) : a = id := by
  by_contra hne
  by_cases htwo : 2 ≤ j
  · exact h.loose a j ⟨he, htwo, hdev, h.alloc, h.isDir⟩
  obtain ⟨hdot, -⟩ := ht.entry_dots he.alloc he.isDir
  obtain ⟨-, -, hino, -⟩ := Names.entry_iff.mp he
  obtain rfl | rfl : j = 0 ∨ j = 1 := by omega
  · exact hne (Id.eq_of hdev (hdot.symm.trans hino))
  by_cases hroot : a.num = rootIno
  · obtain ⟨sb, hsb⟩ := he.alloc.super
    have hup := (Names.entry_iff.mp (ht.family.root a.dev sb hsb)).2.2.1
    have ha : a = ⟨a.dev, rootIno⟩ := Id.eq_of rfl hroot
    rw [← ha] at hup
    exact h.top (hino.symm.trans hup)
  · have hclimbs := ht.family.down a he.alloc he.isDir fun hin => hne (h.out a hin)
    obtain ⟨up, j, hs⟩ := hclimbs.sub hroot
    have hup := (Names.entry_iff.mp (ht.family.up up j a hs)).2.2.1
    obtain rfl : up = id := Id.eq_of (hs.dev.trans hdev) (hup.symm.trans hino)
    exact h.not_sub hs

end Barren

/-- **The names of the others**, when an empty directory is gone: the one above has lost `..` -/
theorem Gone.names_eq (h : Gone id s u) (ht : Tidy owed out s) (hb : Barren out s dir id)
    (hne : a ≠ id) : u.names a = if a = dir then s.names a \ {(id.num, 1)} else s.names a := by
  ext x
  refine (h.entry_iff ht (a := ⟨a.dev, x.1⟩)).trans ?_
  by_cases hself : (⟨a.dev, x.1⟩ : Id) = id
  · have hdev : a.dev = id.dev := by
      rw [← hself]
    refine iff_of_false (fun hx => hx.1 hself) fun hx => ?_
    have hx' : s.Entry ⟨a.dev, x.1⟩ x.2 a.num := by
      split_ifs at hx with hadir
      · exact hx.1
      · exact hx
    rw [hself] at hx'
    rcases (hb.entry_self ht).mp hx' with ⟨-, hnum⟩ | ⟨hj, hnum⟩
    · exact hne (Id.eq_of hdev hnum)
    · have hadir : a = dir := Id.eq_of (hdev.trans hb.dev.symm) hnum
      rw [if_pos hadir] at hx
      exact hx.2 (Prod.ext (congrArg Id.num hself) hj)
  · rw [and_iff_right hself]
    split_ifs with hadir
    · rw [Set.mem_sdiff, Set.mem_singleton_iff]
      refine (and_iff_left ?_).symm
      rintro rfl
      exact hself (Id.eq_of (hadir ▸ hb.dev) rfl)
    · rfl

/-- **An empty directory goes**: the one above it owes a link. -/
theorem Gone.buried (h : Gone id s u) (ht : Tidy owed out s) (hb : Barren out s dir id)
    (hout : ∀ d ≠ id, d ∉ out' → d ∉ out) (howed : owed' dir = owed dir + 1)
    (hother : ∀ a ≠ id, a ≠ dir → owed' a = owed a) : Tidy owed' out' u := by
  have hentry : ∀ {a i num}, u.Entry a i num ↔ a ≠ id ∧ s.Entry a i num := h.entry_iff ht
  have hkind : ∀ d ≠ id, (u.Allocated d ∧ isDir (u.disk.inode d) = true ↔
      s.Allocated d ∧ isDir (s.disk.inode d) = true) := by
    intro d hne
    constructor
    · rintro ⟨ha, hd⟩
      have ha' := (h.alloc d hne).mp ha
      exact ⟨ha', (h.same d hne ha').isDir_eq ▸ hd⟩
    · rintro ⟨ha, hd⟩
      exact ⟨(h.alloc d hne).mpr ha, (h.same d hne ha).isDir_eq.trans hd⟩
  have hsub : ∀ {up j d}, u.Sub up j d ↔ s.Sub up j d := by
    intro up j d
    constructor
    · rintro ⟨he, hj, hdev, halloc, hisDir⟩
      have hne : d ≠ id := by
        rintro rfl
        exact h.free halloc
      obtain ⟨halloc', hisDir'⟩ := (hkind d hne).mp ⟨halloc, hisDir⟩
      exact ⟨(hentry.mp he).2, hj, hdev, halloc', hisDir'⟩
    · intro hs
      have hup : up ≠ id := by
        rintro rfl
        exact hb.not_sub hs
      have hne : d ≠ id := by
        rintro rfl
        exact hb.loose up j hs
      obtain ⟨halloc', hisDir'⟩ := (hkind d hne).mpr ⟨hs.alloc, hs.isDir⟩
      exact ⟨hentry.mpr ⟨hup, hs.entry⟩, hs.two, hs.dev, halloc', hisDir'⟩
  have hmem : (id.num, 1) ∈ s.names dir := by
    change s.Entry ⟨dir.dev, id.num⟩ 1 dir.num
    rw [hb.dev]
    exact hb.up
  refine ht.beside h.toBeside ⟨fun ha => absurd ha h.free, fun ha => absurd ha h.free,
    fun _ hc => absurd hb.count hc, fun _ hc => absurd hb.count hc, fun _ => h.count,
    fun hs => absurd hs.alloc h.free, fun _ => ?_, fun a halloc => ?_,
    ⟨fun up j d hs => ?_, fun d ha hd hin => ?_,
      fun a b j l d hs hs' => ht.family.once a b j l d (hsub.mp hs) (hsub.mp hs'),
      fun up j d hs => ht.family.top up j d (hsub.mp hs), fun dev sb hsb => ?_⟩⟩
  · refine Set.eq_empty_of_forall_notMem fun x hx => ?_
    have hx' : u.Entry ⟨id.dev, x.1⟩ x.2 id.num := hx
    obtain ⟨hne, he⟩ := hentry.mp hx'
    exact hne (hb.names_self ht rfl he)
  · have hne : a ≠ id := by
      rintro rfl
      exact h.free halloc
    have ha' := (h.alloc a hne).mp halloc
    have hlinks := ht.links a ha'
    rw [h.names_eq ht hb hne, (h.same a hne ha').inode]
    split_ifs with hadir
    · subst hadir
      rw [howed, ← hlinks, ← Set.encard_sdiff_singleton_add_one hmem, Nat.cast_add,
        Nat.cast_one, add_assoc, add_comm (1 : ℕ∞)]
    · rw [hother a hne hadir]
      exact hlinks
  · have hs' := hsub.mp hs
    refine hentry.mpr ⟨?_, ht.family.up up j d hs'⟩
    rintro rfl
    exact hb.loose up j hs'
  · have hne : d ≠ id := by
      rintro rfl
      exact h.free ha
    obtain ⟨ha', hd'⟩ := (hkind d hne).mp ⟨ha, hd⟩
    refine (ht.family.down d ha' hd' (hout d hne hin)).mono (fun d => d ≠ id)
      (fun up j d hs _ => ⟨?_, hsub.mpr hs⟩) hne
    rintro rfl
    exact hb.not_sub hs
  · rw [h.toBeside.getSuper] at hsb
    refine hentry.mpr ⟨?_, ht.family.root dev sb hsb⟩
    rintro rfl
    exact hb.top rfl

end Linux011.Fs.Names

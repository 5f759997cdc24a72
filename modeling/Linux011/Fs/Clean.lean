import Linux011.Fs.Balance
import Linux011.Fs.Steps

/-!
# The calls on names keep file systems tidy

File systems are clean when they are tidy and whoever has no name any more is held by somebody
(`Linux011.Fs.Names.Clean`). `unlink` (`Linux011.Fs.Names.sysUnlink_clean`) and `rmdir`
(`Linux011.Fs.Names.sysRmdir_clean`) keep them so, whatever they return. Each of the two is taken
apart into the steps of `Linux011.Fs.Steps`; in between, links are owed.
-/

namespace Linux011.Fs.Names

open Bmap (State Place Spot Sound)
open Directory (Pointer Dir slot)

variable {s s' u v x y : Kernel} {id a c dir : Id} {k : ℕ × ℕ} {name : List UInt8} {α : Type}
  {e : Pointer} {i j m num b o dev : ℕ} {t : State} {owed owed' : Id → ℕ} {out out' : Set Id}
  {f : Inode → Inode} {n : Inode} {path : Path}

/-! ### Inodes without a name -/

/-- An inode that is in use, and that nothing names. -/
def Kernel.Orphan (s : Kernel) (id : Id) : Prop := s.Allocated id ∧ (s.inode id).nlinks = 0

/-- **Clean file systems**: they are tidy, and who has no name is held. -/
structure Clean (s : Kernel) : Prop extends Tidy 0 ∅ s where
  orphans : ∀ id, s.Orphan id → s.iCount id ≠ 0

/-- **A call has left file systems clean**, and the devices and the task what they were. -/
structure Kept (s u : Kernel) : Prop where
  clean : Clean u
  super : u.super = s.super
  task : u.task = s.task

theorem Clean.kept (h : Clean s) : Kept s s := ⟨h, rfl, rfl⟩

theorem Beside.orphan (h : Beside id s s') (hne : a ≠ id) : s'.Orphan a ↔ s.Orphan a := by
  constructor
  · rintro ⟨ha, hlinks⟩
    have ha' := (h.alloc a hne).mp ha
    rw [(h.same a hne ha').inode] at hlinks
    exact ⟨ha', hlinks⟩
  · rintro ⟨ha, hlinks⟩
    refine ⟨(h.alloc a hne).mpr ha, ?_⟩
    rw [(h.same a hne ha).inode]
    exact hlinks

theorem Swells.orphan (h : Swells id s u t) : u.Orphan a ↔ s.Orphan a := by
  rw [Kernel.Orphan, Kernel.Orphan, Kernel.Allocated, h.inodes, h.nlinks]
  rfl

theorem setInode_orphan (h : a ≠ id) (s : Kernel) (f : Inode → Inode) :
    (s.setInode id f).Orphan a ↔ s.Orphan a := by
  rw [Kernel.Orphan, Kernel.Orphan, setInode_of_ne h]
  rfl

theorem Clean.hold (h : Clean s) (ha : s.Allocated id) : Clean (s.hold id) := by
  refine ⟨h.toTidy.hold ha, fun a horphan => ?_⟩
  have hne := h.orphans a ⟨horphan.1, horphan.2⟩
  have hle := iCount_hold s id a
  omega

/-! ### Counts that are given back -/

/-- **References are given back** that a call has taken. -/
theorem Tidy.back (h : Tidy owed out u) (hs : Tidy owed' out' s) (hsteady : Steady s u)
    (hle : ∀ a, s.iCount a ≤ u.iCount a) : Tidy owed out { u with iCount := s.iCount } := by
  refine h.recount (fun a hno => ?_) fun a ha => hs.pinned ?_
  · have hzero := h.unheld a hno
    have hle := hle a
    omega
  · rw [Kernel.Pinned, hsteady.task] at ha
    refine ha.imp_right (Or.imp_right ?_)
    rintro ⟨dev, sb, hsb, hx⟩
    refine ⟨dev, sb, ?_, hx⟩
    rw [← hsb, Kernel.getSuper, Kernel.getSuper, hsteady.super]

/-- **An inode that has gone**, with the reference that a call has had before. -/
theorem Gone.unhold (h : Gone id (s.hold id) u) : Gone id s u := by
  have hhangs : ∀ {a k}, (s.hold id).Hangs a k ↔ s.Hangs a k := by
    intro a k
    constructor <;> exact fun ⟨hdev, ⟨ha, hstored⟩, hspot⟩ => ⟨hdev, ⟨ha, hstored⟩, hspot⟩
  refine ⟨⟨⟨h.super, h.task, h.umask, h.shape, h.maps⟩, h.alloc, fun a hne ha => ?_,
    fun a hne k hk => h.kept a hne k (hhangs.mpr hk), fun k hk => ?_,
    fun k hk a hne ha => h.apart k hk a hne (hhangs.mpr ha), fun a hne => ?_, h.idle⟩,
    h.free, h.zero, h.count, h.bCount⟩
  · have hsame := h.same a hne ha
    exact ⟨hsame.inode, fun hs => hsame.data ⟨hs.alloc, hs.stored⟩,
      fun hs => hsame.readable ⟨hs.alloc, hs.stored⟩⟩
  · exact (h.fresh k hk).imp_left fun ⟨a, hne, ha⟩ => ⟨a, hne, hhangs.mp ha⟩
  · exact (h.iCount a hne).trans (Function.update_of_ne hne ..)

/-- What has been owed is not owed any more. -/
theorem owed_back (id : Id) (m : ℕ) :
    Function.update (Function.update (0 : Id → ℕ) id m) id 0 = 0 := by
  rw [Function.update_idem]
  exact Function.update_eq_self id (0 : Id → ℕ)

/-- **`iput`** of an inode that is no directory, with all its names in place: it goes, if it has
none and nobody else holds it. -/
theorem Tidy.iput (h : Tidy owed out s) (ha : s.Allocated id)
    (hfile : isDir (s.disk.inode id) = false) (howed : owed id = 0) : ∃ u,
      Names.iput id (s.hold id) = .ok ⟨⟩ u ∧ Tidy owed out u ∧ u.iCount = s.iCount ∧
      Beside id s u ∧ (u.Orphan id → s.iCount id ≠ 0) := by
  by_cases hstays : (s.inode id).nlinks ≠ 0 ∨ s.iCount id ≠ 0
  · refine ⟨s, iput_hold hstays, h, rfl, h.toStowed.beside_refl id, fun horphan => ?_⟩
    exact hstays.resolve_left fun hlinks => hlinks horphan.2
  · rw [not_or, not_not, not_not] at hstays
    obtain ⟨hlinks, hcount⟩ := hstays
    have hone : (s.hold id).iCount id = 1 := by
      rw [Kernel.hold]
      dsimp only
      rw [Function.update_self, hcount]
    obtain ⟨u, hrun, hgone⟩ := (h.hold ha).toStowed.iput ha hone hlinks
    have hgone := hgone.unhold
    have ht := hgone.tidy h ha hfile hcount hlinks
    rw [← howed, Function.update_eq_self] at ht
    refine ⟨u, hrun, ht, funext fun a => ?_, hgone.toBeside, fun horphan => ?_⟩
    · by_cases hne : a = id
      · rw [hne, hgone.count, hcount]
      · exact hgone.iCount a hne
    · exact absurd horphan.1 hgone.free

/-! ### Links that change while a directory does -/

/-- Another number of links. -/
def Inode.linked (g : UInt8 → UInt8) (n : Inode) : Inode := { n with nlinks := g n.nlinks }

theorem Inode.linked_relinks (g : UInt8 → UInt8) (n : Inode) : Relinks (Inode.linked g) n :=
  ⟨rfl, rfl, rfl, rfl⟩

theorem Stowed.hold (h : Stowed s) (c : Id) : Stowed (s.hold c) := by
  have hstored : ∀ {a}, (s.hold c).Stored a → s.Stored a := fun hs => ⟨hs.alloc, hs.stored⟩
  refine ⟨h.maps, fun a ha => h.used a (hstored ha),
    fun a b ha hb => h.apart a b (hstored ha) (hstored hb), fun k hk => ?_,
    fun a ha => h.legible a (hstored ha), h.idle⟩
  obtain ⟨a, hdev, ⟨ha, hkind⟩, hrest⟩ := h.marked k hk
  exact ⟨a, hdev, ⟨ha, hkind⟩, hrest⟩

theorem Stowed.linked (h : Stowed s) (c : Id) (g : UInt8 → UInt8) :
    Stowed (s.setInode c (Inode.linked g)) := by
  have hf := Inode.linked_relinks g (s.inode c)
  refine h.beside (hf.beside h) fun hs => ?_
  have hs := hf.stored_iff.mp hs
  rw [hf.file]
  refine ⟨fun p q hp hq hne heq => (h.apart c c hs hs rfl p q hp hq hne heq).2, fun p hp hne => ?_,
    h.legible c hs⟩
  rw [hf.file] at hne ⊢
  exact h.used c hs p hp hne

/-- The links of another inode do not matter. -/
theorem Beside.linked (h : Beside id s u) (hne : c ≠ id) (hc : s.Allocated c)
    (g : UInt8 → UInt8) :
    Beside id (s.setInode c (Inode.linked g)) (u.setInode c (Inode.linked g)) := by
  have hf := Inode.linked_relinks g (s.inode c)
  have hf' := Inode.linked_relinks g (u.inode c)
  refine ⟨⟨h.super, h.task, h.umask, h.shape, h.maps⟩, h.alloc, fun a haid ha => ⟨?_, fun hs => ?_,
    fun hs => ?_⟩, fun a haid k hk => h.kept a haid k (hf.hangs_iff.mp hk),
    fun k hk => (h.fresh k hk).imp ?_ hf'.hangs_iff.mpr,
    fun k hk a haid ha => h.apart k (hf'.hangs_iff.mp hk) a haid (hf.hangs_iff.mp ha), h.iCount,
    h.idle⟩
  · by_cases hac : a = c
    · rw [hac, setInode_self, setInode_self, (h.same c hne hc).inode]
    · rw [setInode_of_ne hac, setInode_of_ne hac, (h.same a haid ha).inode]
  · rw [hf.file]
    exact (h.same a haid ha).data (hf.stored_iff.mp hs)
  · rw [hf.file]
    exact (h.same a haid ha).readable (hf.stored_iff.mp hs)
  · rintro ⟨a, haid, ha⟩
    exact ⟨a, haid, hf.hangs_iff.mpr ha⟩

theorem Gone.linked (h : Gone id s u) (hne : c ≠ id) (hc : s.Allocated c) (g : UInt8 → UInt8) :
    Gone id (s.setInode c (Inode.linked g)) (u.setInode c (Inode.linked g)) := by
  refine ⟨h.toBeside.linked hne hc g, h.free, ?_, h.count, h.bCount⟩
  rw [setInode_of_ne (Ne.symm hne)]
  exact h.zero

theorem linked_linked (s : Kernel) (c : Id) {g g' : UInt8 → UInt8} (h : ∀ n, g' (g n) = n) :
    (s.setInode c (Inode.linked g)).setInode c (Inode.linked g') = s := by
  rw [Kernel.setInode, Kernel.setInode]
  dsimp only
  rw [Function.update_idem, Function.update_self, Inode.linked, Inode.linked]
  dsimp only
  rw [h, Function.update_eq_self]

theorem setInode_comm (h : a ≠ c) (s : Kernel) (f f' : Inode → Inode) :
    (s.setInode a f).setInode c f' = (s.setInode c f').setInode a f := by
  rw [Kernel.setInode, Kernel.setInode, Kernel.setInode, Kernel.setInode]
  dsimp only
  rw [Function.update_of_ne (Ne.symm h), Function.update_of_ne h, Function.update_comm h]

/-- The links of an inode do not matter to a directory that has changed. -/
theorem Edits.linked (h : Edits dir i num s s') (c : Id) (g : UInt8 → UInt8) :
    Edits dir i num (s.setInode c (Inode.linked g)) (s'.setInode c (Inode.linked g)) := by
  have hfile : ∀ (s : Kernel) a, (s.setInode c (Inode.linked g)).file a = s.file a :=
    fun s => (Inode.linked_relinks g (s.inode c)).file
  have hinside : ∀ s : Kernel, (s.setInode c (Inode.linked g)).Inside dir ↔ s.Inside dir := by
    intro s
    rw [Kernel.Inside, Kernel.Inside, hfile]
    rfl
  refine ⟨⟨⟨⟨⟨h.super, h.task, h.umask, h.shape, h.maps⟩, rfl, ?_, h.iCount, h.bCount, h.inodes,
    h.zones, h.elsewhere⟩, ?_, fun hin => ?_⟩, ?_, ⟨h.away.super, h.away.maps⟩⟩, ?_⟩
  · rw [hfile]
    rw [Kernel.setInode, Kernel.setInode]
    dsimp only
    rw [h.inode]
    by_cases hc : c = dir
    · subst hc
      rw [Function.update_idem, Function.update_self, Function.update_self, Function.update_idem]
      rfl
    · rw [Function.update_of_ne hc, Function.update_of_ne (Ne.symm hc), Function.update_comm hc]
  · rw [hfile, hfile]
    exact h.outside
  · exact (hinside s').mpr (h.inside ((hinside s).mp hin))
  · rw [hfile, hfile]
    exact h.exact
  · rw [hfile, hfile]
    exact h.edited

/-- **`add_entry`**: there is no room, and no entry has changed, or a number may be stored in the
entry. -/
theorem addEntry_edits (hc : Bitmap.Consistent s.bitmap) (hshort : Short s) {sb : Super}
    (hs : s.getSuper dir.dev = some sb) (hdir : Dir (s.file dir)) (h0 : (s.file dir).zone 0 ≠ 0)
    (hname : name ≠ []) (a c : Id) : ∃ r y,
      addEntry dir name ((s.hold a).hold c) = .ok r (((y.hold a).hold c).found dir r) ∧
      Swells dir s y (y.file dir) ∧
      (r = none → ∃ i, inos (s.file dir) i = 0 ∧ Edits dir i 0 s y) ∧
      ∀ e, r = some e → ∀ num < 65536, ∃ i, inos (s.file dir) i = 0 ∧
        Edits dir i num s (y.rename dir e num) := by
  obtain ⟨r, y, hrun, hswells, hadd⟩ := addEntry_swells (a := a) (c := c) hc hshort hs hdir h0 hname
  refine ⟨r, y, hrun, hswells, ?_, ?_⟩
  · rintro rfl
    have hfree : inos (s.file dir) ((s.file dir).size / 16) = 0 := if_neg (lt_irrefl _)
    have hedited := Edited.none hdir h0 hname hadd ((s.file dir).size / 16)
    rw [hfree] at hedited
    exact ⟨_, hfree, hswells, hedited⟩
  · rintro e rfl num hnum
    obtain ⟨i, hfree, hedited⟩ := Edited.some hdir hadd hnum
    obtain ⟨j, hadded⟩ := Directory.addEntry_spec hdir hadd
    have hlt : j < (y.file dir).size / 16 := by
      have hmod := hdir.size
      have hle := hadded.le
      have hsize := hadded.size
      omega
    have hwithin := within_slot hadded.dir hlt
    rw [hadded.pointer] at hwithin
    have hmore := rename_swells hswells.maps hadded.dir.toSound hwithin num
    have hfile : (y.rename dir e num).file dir = Directory.setIno (y.file dir) e num := hmore.file
    refine ⟨i, hfree, ?_, ?_⟩
    · have hboth := hswells.trans hmore
      rw [← hfile] at hboth
      exact hboth
    · rw [hfile]
      exact hedited

/-- In a directory of tidy file systems. -/
theorem Tidy.addEntry (h : Tidy owed out s) (ha : s.Allocated dir)
    (hd : isDir (s.disk.inode dir) = true) (hname : name ≠ []) (a c : Id) : ∃ r y,
      Names.addEntry dir name ((s.hold a).hold c) = .ok r (((y.hold a).hold c).found dir r) ∧
      Swells dir s y (y.file dir) ∧ (r = none → Tidy owed out y) ∧
      ∀ e, r = some e → ∀ num < 65536, ∃ i, inos (s.file dir) i = 0 ∧
        Edits dir i num s (y.rename dir e num) := by
  have hgood := h.dir dir ha hd
  obtain ⟨sb, hsb⟩ := ha.super
  obtain ⟨r, y, hrun, hswells, hnone, hsome⟩ := addEntry_edits h.maps h.short hsb hgood.toDir
    hgood.first.1 hname a c
  refine ⟨r, y, hrun, hswells, fun hr => ?_, hsome⟩
  obtain ⟨i, hfree, hedits⟩ := hnone hr
  exact h.same ha hd hfree hedits

/-! ### What an entry names -/

/-- `iget` follows mounts, to a root. -/
theorem iget_cases {d : Disk} : ∀ (n : ℕ) (a : Id), Fs.igetFrom d n a = .ok id →
    id = a ∨ id.num = rootIno
  | 0, a, h => by cases h
  | n + 1, a, h => by
    rw [Fs.igetFrom] at h
    split_ifs at h with hmount
    · split at h
      · exact Or.inl (Except.ok.inj h).symm
      · next j hj =>
        right
        rcases iget_cases n _ h with rfl | hroot
        · rfl
        · exact hroot
    · exact Or.inl (Except.ok.inj h).symm

/-- A root is a directory, and is held. -/
theorem Tidy.root_held (h : Tidy owed out s) (ha : s.Allocated id) (hroot : id.num = rootIno) :
    isDir (s.disk.inode id) = true ∧ s.iCount id ≠ 0 := by
  obtain ⟨sb, hsb⟩ := ha.super
  have hid : id = ⟨id.dev, rootIno⟩ := Id.eq_of rfl hroot
  have hentry := h.family.root id.dev sb hsb
  have htop := h.top id.dev sb hsb
  rw [← hid] at hentry htop
  exact ⟨hentry.isDir, htop⟩

/-- **What an entry names**, if it is a root or no mount leads from it. -/
theorem Tidy.eq_of_iget (h : Tidy owed out s) (ha : s.Allocated id)
    (hget : Fs.iget s.disk a = .ok id)
    (hno : isDir (s.disk.inode id) = false ∨ s.iCount id = 0) : id = a := by
  rw [Fs.iget] at hget
  split_ifs at hget
  refine (iget_cases _ a hget).resolve_right fun hroot => ?_
  obtain ⟨hd, hcount⟩ := h.root_held ha hroot
  rcases hno with hno | hno
  · exact Bool.noConfusion (hd.symm.trans hno)
  · exact hcount hno

/-- What `.` and `..` name, the directory and the one above it, is not empty. -/
theorem Tidy.two_le_of_empty (h : Tidy owed ∅ s) (he : s.Entry dir i id.num)
    (hdev : dir.dev = id.dev) (hne : id ≠ dir) (hempty : ∀ j d, ¬s.Sub id j d) : 2 ≤ i := by
  by_contra hlt
  obtain ⟨hdot, -⟩ := h.entry_dots he.alloc he.isDir
  obtain ⟨-, -, hino, -⟩ := entry_iff.mp he
  obtain rfl | rfl : i = 0 ∨ i = 1 := by omega
  · exact hne (Id.eq_of hdev.symm (hino.symm.trans hdot))
  by_cases hroot : dir.num = rootIno
  · obtain ⟨sb, hsb⟩ := he.alloc.super
    have hself := (entry_iff.mp (h.family.root dir.dev sb hsb)).2.2.1
    have hdir : dir = ⟨dir.dev, rootIno⟩ := Id.eq_of rfl hroot
    rw [← hdir, ← hroot] at hself
    exact hne (Id.eq_of hdev.symm (hino.symm.trans hself))
  · have hclimbs := h.family.down dir he.alloc he.isDir (Set.notMem_empty dir)
    obtain ⟨up, j, hs⟩ := hclimbs.sub hroot
    have hup := (entry_iff.mp (h.family.up up j dir hs)).2.2.1
    obtain rfl : up = id := Id.eq_of (hs.dev.trans hdev) (hup.symm.trans hino)
    exact hempty j dir hs

/-- **A name that is removed**: the entry, and what it leads to. -/
structure Drops (s : Kernel) (dir : Id) (i : ℕ) (id : Id) : Prop where
  live : s.Live dir
  isDir : isDir (s.disk.inode dir) = true
  lt : i < (s.file dir).size / 16
  ne : Directory.ino (s.file dir) (slot (s.file dir) i) ≠ 0
  named : s.Named id
  look : Fs.iget s.disk ⟨dir.dev, Directory.ino (s.file dir) (slot (s.file dir) i)⟩ = .ok id

theorem dropName_drops (h : Tree s) (path : Path) :
    (∃ e, dropName path s = .ok (.inl e) s) ∨ ∃ dir i id, Drops s dir i id ∧
      dropName path s = .ok (.inr (dir, slot (s.file dir) i, id))
        (((s.hold dir).grab (dir.dev, (slot (s.file dir) i).1)).hold id) := by
  obtain ⟨r, hlook, hrun, hr⟩ := dirNamei_spec h path
  rw [dropName, bind_ok hrun]
  cases r with
  | none => exact Or.inl ⟨-2, rfl⟩
  | some p =>
    obtain ⟨start, name⟩ := p
    obtain ⟨hl, hd⟩ := hr start name rfl
    by_cases hname : name = []
    · exact Or.inl ⟨-2, (congrFun (if_pos hname) _).trans (leave_hold hl _)⟩
    by_cases hperm : s.permission start mayWrite = false
    · exact Or.inl ⟨-1, (congrFun ((if_neg hname).trans (if_pos hperm)) _).trans
        (leave_hold hl _)⟩
    obtain ⟨dir, r, hf⟩ := findEntry_spec h hl hd name
    cases r with
    | none =>
      exact Or.inl ⟨-2, (congrFun ((if_neg hname).trans (if_neg hperm)) _).trans
        ((bind_ok hf.run).trans (leave_hold hf.live _))⟩
    | some i =>
      obtain ⟨hlt, hne⟩ := hf.hit i rfl
      have hentry := (h.dir dir hf.live.alloc hf.isDir).entry i hlt hne
      obtain ⟨id, hget, hrun', hnamed⟩ := @iget_spec _ ⟨dir.dev, _⟩
        ((h.hold dir).grab (dir.dev, (slot (s.file dir) i).1)) ⟨hentry.alloc, hentry.links⟩
      exact Or.inr ⟨dir, i, id, ⟨hf.live, hf.isDir, hlt, hne, ⟨hnamed.alloc, hnamed.links⟩, hget⟩,
        (congrFun ((if_neg hname).trans (if_neg hperm)) _).trans ((bind_ok hf.run).trans
          (bind_ok hrun'))⟩

/-- **The entry names the inode**, if that is no directory, or nobody holds it. -/
theorem Drops.entry (h : Drops s dir i id) (ht : Tidy owed out s)
    (hno : Fs.isDir (s.disk.inode id) = false ∨ s.iCount id = 0) :
    dir.dev = id.dev ∧ s.Entry dir i id.num := by
  obtain rfl := ht.eq_of_iget h.named.alloc h.look hno
  exact ⟨rfl, h.live.alloc, h.isDir, h.lt, rfl, h.ne⟩

theorem Drops.edits (h : Drops s dir i id) (ht : Tidy owed out s) (hnum : num < 65536) :
    Edits dir i num s (s.rename dir (slot (s.file dir) i) num) := by
  have hdir := (ht.dir dir h.live.alloc h.isDir).toDir
  have hswells := rename_swells ht.maps hdir.toSound (within_slot hdir h.lt) num
  have hfile : (s.rename dir (slot (s.file dir) i) num).file dir =
      Directory.setIno (s.file dir) (slot (s.file dir) i) num := hswells.file
  refine ⟨?_, ?_⟩
  · rw [← hfile] at hswells
    exact hswells
  · rw [hfile]
    exact Edited.setIno hdir h.lt hnum

/-! ### `unlink` -/

theorem less_toNat {n : UInt8} (h : n ≠ 0) : 1 + (n - 1).toNat = n.toNat := by
  have hle : (1 : UInt8) ≤ n := by
    rw [UInt8.le_iff_toNat_le]
    have hne : n.toNat ≠ 0 := fun h0 => h (UInt8.toNat_inj.mp h0)
    change 1 ≤ n.toNat
    omega
  rw [UInt8.toNat_sub_of_le _ _ hle]
  rw [UInt8.le_iff_toNat_le] at hle
  change 1 + (n.toNat - 1) = n.toNat
  change 1 ≤ n.toNat at hle
  omega

/-- **An inode that is no directory is given back**, and the file systems are clean, if nobody else
is without a name. -/
theorem Tidy.put (h : Tidy 0 ∅ s) (ha : s.Allocated id) (hfile : isDir (s.disk.inode id) = false)
    (horphans : ∀ a ≠ id, s.Orphan a → s.iCount a ≠ 0) :
    ∃ u, Names.iput id (s.hold id) = .ok ⟨⟩ u ∧ Kept s u ∧ u.iCount = s.iCount := by
  obtain ⟨u, hrun, ht, hcount, hb, hid⟩ := h.iput ha hfile rfl
  refine ⟨u, hrun, ⟨⟨ht, fun a horphan => ?_⟩, hb.super, hb.task⟩, hcount⟩
  rw [hcount]
  by_cases hne : a = id
  · subst hne
    exact hid horphan
  · exact horphans a hne ((hb.orphan hne).mp horphan)

/-- It is given back, and so is a directory. -/
theorem Tidy.putBoth (h : Tidy 0 ∅ s) (ha : s.Allocated id)
    (hfile : isDir (s.disk.inode id) = false) (hl : s.Live dir) (hne : id ≠ dir)
    (horphans : ∀ a ≠ id, s.Orphan a → s.iCount a ≠ 0) (r : α) : ∃ u, (do
      Names.iput id
      Names.iput dir
      pure r : K α) ((s.hold dir).hold id) = .ok r u ∧ Kept s u := by
  obtain ⟨u, hrun, ht, hcount, hb, hid⟩ := (h.hold hl.alloc).iput ha hfile rfl
  have hsame : u.inode dir = s.inode dir := (hb.same dir (Ne.symm hne) hl.alloc).inode
  have hback := iput_back hcount (hsame.symm ▸ hl.stays)
  have hsteady : Steady s u := ⟨hb.super, hb.task, hb.umask, hb.shape, hb.maps⟩
  have hother : (s.hold dir).iCount id = s.iCount id := Function.update_of_ne hne ..
  refine ⟨_, (bind_ok hrun).trans (bind_ok hback), ⟨ht.back h hsteady fun a => ?_,
    fun a horphan => ?_⟩, hb.super, hb.task⟩
  · rw [hcount]
    exact iCount_hold s dir a
  · change s.iCount a ≠ 0
    have horphan' : u.Orphan a := ⟨horphan.1, horphan.2⟩
    by_cases haid : a = id
    · subst haid
      rw [← hother]
      exact hid horphan'
    · exact horphans a haid ((hb.orphan haid).mp horphan')

/-- **`unlink`** keeps the file systems clean. -/
theorem sysUnlink_clean (h : Clean s) (path : Path) :
    ∃ r u, sysUnlink path s = .ok r u ∧ Kept s u := by
  rw [sysUnlink]
  rcases dropName_drops h.toTree path with ⟨e, hrun⟩ | ⟨dir, i, id, hdrop, hrun⟩
  · exact ⟨e, s, bind_ok hrun, h.kept⟩
  rw [bind_ok hrun]
  by_cases hvtx : (s.inode dir).mode &&& isVtx ≠ 0#16 ∧ s.suser = false ∧
      s.task.euid ≠ (s.inode id).uid ∧ s.task.euid ≠ (s.inode dir).uid
  · exact ⟨-1, s, (congrFun (if_pos hvtx) _).trans
      (leaveBoth_hold hdrop.live hdrop.named.live _ (-1)), h.kept⟩
  by_cases hisDir : isDir (s.disk.inode id) = true
  · exact ⟨-1, s, (congrFun ((if_neg hvtx).trans (if_pos hisDir)) _).trans
      (leaveBoth_hold' hdrop.named.live hdrop.live _ (-1)), h.kept⟩
  have hfile : isDir (s.disk.inode id) = false := Bool.not_eq_true _ ▸ hisDir
  have hne : id ≠ dir := fun heq => hisDir (heq ▸ hdrop.isDir)
  obtain ⟨hdev, hentry⟩ := hdrop.entry h.toTidy (Or.inl hfile)
  have hempty : ∀ j d, ¬s.Sub id j d := fun j d hs => hisDir hs.entry.isDir
  have htwo := h.two_le_of_empty hentry hdev hne hempty
  -- the entry is free, and the inode has one link less
  have hedits := hdrop.edits h.toTidy (by decide : 0 < 65536)
  have hclear : Tidy (Function.update 0 id 1) ∅ (s.rename dir (slot (s.file dir) i) 0) :=
    h.clear hentry hdev htwo hempty hedits fun d hd hno => ⟨hno, by rintro rfl; exact hisDir hd⟩
  generalize hy : s.rename dir (slot (s.file dir) i) 0 = y at hedits hclear
  have halloc : y.Allocated id := hedits.alloc.mpr hdrop.named.alloc
  have hlinks : (y.inode id).nlinks = (s.inode id).nlinks := hedits.nlinks id
  have hfile' : isDir (y.disk.inode id) = false := (hedits.isDir_eq id).trans hfile
  have hless := hclear.relink (f := Inode.linked (· - 1)) (m := 0) halloc
    (Inode.linked_relinks _ _) (fun hd => Bool.noConfusion (hd.symm.trans hfile')) (by
      rw [Function.update_self, Nat.zero_add]
      exact less_toNat (hlinks.symm ▸ hdrop.named.links))
  rw [owed_back] at hless
  have hkind := (Inode.linked_relinks (· - 1) (y.inode id)).isDir_eq
  have hlive : (y.setInode id (Inode.linked (· - 1))).Live dir :=
    hless.live (hedits.alloc.mpr hdrop.live.alloc)
      ((hkind dir).trans ((hedits.isDir_eq dir).trans hdrop.isDir))
  have horphans : ∀ a ≠ id, (y.setInode id (Inode.linked (· - 1))).Orphan a → y.iCount a ≠ 0 := by
    intro a hne horphan
    have hcount : y.iCount = s.iCount := hedits.iCount
    rw [hcount]
    exact h.orphans a (hedits.toSwells.orphan.mp ((setInode_orphan hne y _).mp horphan))
  obtain ⟨u, hrun', hu⟩ := hless.putBoth halloc ((hkind id).trans hfile') hlive hne horphans (0 : ℤ)
  refine ⟨0, u, (congrFun ((if_neg hvtx).trans ((if_neg hisDir).trans
    (if_neg hdrop.named.links))) _).trans ((bind_ok (setIno_run _ dir _ 0)).trans ?_), hu.clean,
    hu.super.trans hedits.super, hu.task.trans hedits.task⟩
  have hrelease := brelse_grab ((y.hold dir).hold id) (dir.dev, (slot (s.file dir) i).1)
  rw [← hy] at hrelease hrun'
  exact (bind_ok hrelease).trans hrun'

/-! ### `rmdir` -/

theorem links_le {c : ℕ∞} {n l : ℕ} (h : c + o = l) (hle : (n : ℕ∞) ≤ c) : n + o ≤ l := by
  cases c with
  | top => cases h
  | coe c =>
    norm_cast at h hle
    omega

/-- **A directory has two names**: `.`, and the one that it has in the one above it. -/
theorem Tidy.two_names (h : Tidy owed out s) (ha : s.Allocated dir)
    (hd : isDir (s.disk.inode dir) = true) (hin : dir ∉ out) : 2 ≤ (s.names dir).encard := by
  have hdot : (dir.num, 0) ∈ s.names dir :=
    entry_iff.mpr ⟨ha, hd, (h.entry_dots ha hd).1, ha.num_ne⟩
  have hother : ∃ x ∈ s.names dir, x ≠ (dir.num, 0) := by
    by_cases hroot : dir.num = rootIno
    · obtain ⟨sb, hsb⟩ := ha.super
      have hself := h.family.root dir.dev sb hsb
      rw [← hroot] at hself
      refine ⟨(dir.num, 1), hself, fun heq => ?_⟩
      cases (Prod.mk.inj heq).2
    · obtain ⟨up, j, hs⟩ := (h.family.down dir ha hd hin).sub hroot
      have hentry := hs.entry
      have htwo := hs.two
      refine ⟨(up.num, j), ?_, fun heq => ?_⟩
      · change s.Entry ⟨dir.dev, up.num⟩ j dir.num
        rw [← hs.dev]
        exact hentry
      · obtain ⟨-, rfl⟩ := Prod.mk.inj heq
        omega
  obtain ⟨x, hx, hne⟩ := hother
  rw [← Set.encard_pair hne]
  exact Set.encard_le_encard (Set.pair_subset hx hdot)

/-- **An empty directory is given back**, and the one above it has a link less. -/
theorem Tidy.rmdir (h : Tidy owed out s) (hb : Barren out s dir id) (hout : ∀ d ∈ out, d = id)
    (howed : ∀ a ≠ id, owed a = 0) (hl : s.Live dir) (hd : isDir (s.disk.inode dir) = true)
    (horphans : ∀ a ≠ id, s.Orphan a → s.iCount a ≠ 0) : ∃ u, (do
      modify fun s => s.setInode id fun n => { n with nlinks := 0 }
      modify fun s => s.setInode dir fun n => { n with nlinks := n.nlinks - 1 }
      Names.iput dir
      Names.iput id
      pure 0 : K ℤ) ((s.hold dir).hold id) = .ok 0 u ∧ Kept s u := by
  have hne := hb.ne
  have hgood := h.dir dir hl.alloc hd
  generalize hx : s.setInode dir (Inode.linked (· - 1)) = x
  have hxw : Stowed x := hx ▸ h.toStowed.linked dir _
  -- the empty directory has no links any more
  generalize hy : x.setInode id (Inode.linked fun _ => 0) = y
  have hyw : Stowed y := hy ▸ hxw.linked id _
  have hxy : Beside id x y := hy ▸ (Inode.linked_relinks _ _).beside hxw
  have hdirlinks : (y.inode dir).nlinks = (s.inode dir).nlinks - 1 := by
    rw [← hy, setInode_of_ne hne, ← hx, setInode_self]
    rfl
  have hstill : (s.inode dir).nlinks - 1 ≠ 0 := by
    rw [Ne, links_less]
    intro hone
    have htwo := hgood.links
    rw [hone] at htwo
    exact absurd htwo (by decide)
  have hdrop : Names.iput dir ((y.hold dir).hold id) = .ok ⟨⟩ (y.hold id) := by
    rw [hold_comm]
    refine @iput_hold (y.hold id) dir (Or.inl ?_)
    change (y.inode dir).nlinks ≠ 0
    rw [hdirlinks]
    exact hstill
  have hgonelinks : (y.inode id).nlinks = 0 := by
    rw [← hy, setInode_self]
    rfl
  have hcount : (y.hold id).iCount id = 1 := by
    have hzero : y.iCount id = 0 := by
      rw [← hy, ← hx]
      exact hb.count
    rw [Kernel.hold]
    dsimp only
    rw [Function.update_self, hzero]
  have halloc : y.Allocated id := by
    rw [← hy, ← hx]
    exact hb.alloc
  obtain ⟨u, hrun, hgone⟩ := (hyw.hold id).iput halloc hcount hgonelinks
  have hgone := hgone.unhold
  have hxgone : Gone id x u :=
    ⟨hxy.trans hgone.toBeside, hgone.free, hgone.zero, hgone.count, hgone.bCount.trans (hy ▸ rfl)⟩
  -- with the link of the other one back in its place, the directory is buried
  have hback := hxgone.linked hne (hx ▸ hl.alloc) (· + 1)
  rw [← hx, linked_linked s dir fun n => UInt8.sub_add_cancel n 1] at hback
  have hburied : Tidy (Function.update 0 dir 1) ∅ (u.setInode dir (Inode.linked (· + 1))) :=
    hback.buried h hb (fun d hid _ hin => hid (hout d hin))
      (by rw [Function.update_self, howed dir hne])
      fun a haid hadir => (Function.update_of_ne hadir ..).trans (howed a haid).symm
  have hdiralloc := (hback.alloc dir hne).mpr hl.alloc
  have hdirs : isDir ((u.setInode dir (Inode.linked (· + 1))).disk.inode dir) = true :=
    (hback.same dir hne hl.alloc).isDir_eq.trans hd
  have hnames := hburied.two_names hdiralloc hdirs (Set.notMem_empty dir)
  have hlinks := hburied.links dir hdiralloc
  rw [Function.update_self] at hlinks
  generalize hv : u.setInode dir (Inode.linked (· + 1)) = v at hburied hdirs hnames hlinks hdiralloc
  have hthree : 2 + 1 ≤ (v.inode dir).nlinks.toNat := links_le hlinks hnames
  have hless := less_toNat (n := (v.inode dir).nlinks) fun h0 => by
    rw [h0] at hthree
    exact absurd hthree (by decide)
  have hlast := hburied.relink (f := Inode.linked (· - 1)) (m := 0) hdiralloc
    (Inode.linked_relinks _ _) (fun _ => by
      change 2 ≤ ((v.inode dir).nlinks - 1).toNat
      omega) (by
      rw [Function.update_self, Nat.zero_add]
      exact hless)
  rw [owed_back, ← hv, linked_linked u dir fun n => UInt8.add_sub_cancel n 1] at hlast
  refine ⟨u, ?_, ⟨hlast, fun a horphan => ?_⟩, hxgone.super.trans (hx ▸ rfl),
    hxgone.task.trans (hx ▸ rfl)⟩
  · have hstart : (((s.hold dir).hold id).setInode id fun n => { n with nlinks := 0 }).setInode dir
        (fun n => { n with nlinks := n.nlinks - 1 }) = (y.hold dir).hold id := by
      rw [← hy, ← hx, setInode_comm hne]
      rfl
    rw [modify_bind, modify_bind, hstart]
    exact (bind_ok hdrop).trans (bind_ok hrun)
  · have haid : a ≠ id := by
      rintro rfl
      exact hgone.free horphan.1
    rw [hxgone.iCount a haid, ← hx]
    have horphan := (hxgone.orphan haid).mp horphan
    rw [← hx] at horphan
    by_cases hadir : a = dir
    · subst hadir
      have hself := horphan.2
      rw [setInode_self] at hself
      exact absurd hself hstill
    · exact horphans a haid ((setInode_orphan hadir s _).mp horphan)

/-- **A directory that is in another one is barren**, when it is empty and its entry is cleared. -/
theorem Kernel.Sub.barren (hs : s.Sub dir i id) (ht : Tidy owed ∅ s) (hcount : s.iCount id = 0)
    (hall : ∀ j ≥ 2, inos (s.file id) j = 0) (hne : dir ≠ id) (hedits : Edits dir i 0 s s') :
    Barren {id} s' dir id := by
  have ha := hs.entry.alloc
  have hd := hs.entry.isDir
  have hentry : ∀ {j n}, s'.Entry id j n ↔ s.Entry id j n := by
    intro j n
    rw [hedits.entry_iff ht ha hd, if_neg fun h => hne h.1.symm]
  refine ⟨hedits.alloc.mpr hs.alloc, (hedits.isDir_eq id).trans hs.isDir,
    hentry.mpr (ht.family.up dir i id hs), hs.dev, hne, ht.family.top dir i id hs, ?_,
    fun j hj => ?_, fun up j hs' => ?_, fun d hin => hin⟩
  · rw [hedits.iCount]
    exact hcount
  · by_contra h0
    have he := hentry.mp (entry_iff.mpr ⟨hedits.alloc.mpr hs.alloc,
      (hedits.isDir_eq id).trans hs.isDir, rfl, h0⟩)
    exact h0 ((entry_iff.mp he).2.2.1.symm.trans (hall j hj))
  · rw [hedits.sub_iff ht ha hd hs.two] at hs'
    split_ifs at hs' with hc
    · exact hs'.2.1 hs'.1
    · exact hc (ht.family.once up dir j i id hs' hs)

/-- **`rmdir`** keeps the file systems clean. -/
theorem sysRmdir_clean (h : Clean s) (path : Path) :
    ∃ r u, sysRmdir path s = .ok r u ∧ Kept s u := by
  rw [sysRmdir, get_bind]
  by_cases hsuser : s.suser = false
  · rw [if_pos hsuser]
    exact ⟨-1, s, rfl, h.kept⟩
  rw [if_neg hsuser]
  rcases dropName_drops h.toTree path with ⟨e, hrun⟩ | ⟨dir, i, id, hdrop, hrun⟩
  · exact ⟨e, s, bind_ok hrun, h.kept⟩
  rw [bind_ok hrun]
  have hvtx : ¬((s.inode dir).mode &&& isVtx ≠ 0#16 ∧ s.task.euid ≠ 0 ∧
      (s.inode id).uid ≠ s.task.euid) := by
    rintro ⟨-, heuid, -⟩
    refine hsuser ?_
    rw [Kernel.suser, beq_eq_false_iff_ne]
    exact heuid
  by_cases hno : id.dev ≠ dir.dev ∨
      1 < (((s.hold dir).grab (dir.dev, (slot (s.file dir) i).1)).hold id).iCount id
  · exact ⟨-1, s, (congrFun ((if_neg hvtx).trans (if_pos hno)) _).trans
      (leaveBoth_hold hdrop.live hdrop.named.live _ (-1)), h.kept⟩
  have hself : (((s.hold dir).grab (dir.dev, (slot (s.file dir) i).1)).hold id).iCount id =
      (s.hold dir).iCount id + 1 := Function.update_self ..
  have hne : dir ≠ id := by
    rintro rfl
    have hdir : (s.hold dir).iCount dir = s.iCount dir + 1 := Function.update_self ..
    exact hno (Or.inr (by omega))
  have hcount : s.iCount id = 0 := by
    have hle := iCount_hold s dir id
    by_contra h0
    exact hno (Or.inr (by omega))
  by_cases hisDir : isDir (s.disk.inode id) = false
  · exact ⟨-20, s, (congrFun ((if_neg hvtx).trans ((if_neg hno).trans
      ((if_neg (Ne.symm hne)).trans (if_pos hisDir)))) _).trans
      (leaveBoth_hold' hdrop.named.live hdrop.live _ (-20)), h.kept⟩
  have hd : isDir (s.disk.inode id) = true := Bool.not_eq_false _ ▸ hisDir
  obtain ⟨r, hrun₁, hr⟩ := emptyDir_spec
    ((((h.toTree.hold dir).grab (dir.dev, (slot (s.file dir) i).1)).hold id).dir id
      hdrop.named.alloc hd)
  cases r with
  | false =>
    exact ⟨-39, s, (congrFun ((if_neg hvtx).trans ((if_neg hno).trans ((if_neg (Ne.symm hne)).trans
      (if_neg hisDir)))) _).trans ((bind_ok hrun₁).trans ((congrFun (if_neg Bool.false_ne_true)
      _).trans (leaveBoth_hold' hdrop.named.live hdrop.live _ (-39)))), h.kept⟩
  | true =>
    have hall : ∀ j ≥ 2, inos (s.file id) j = 0 := by
      intro j hj
      rw [inos]
      split_ifs with hlt
      · exact hr.mp rfl j hlt hj
      · rfl
    obtain ⟨hdev, hentry⟩ := hdrop.entry h.toTidy (Or.inr hcount)
    have hempty : ∀ j d, ¬s.Sub id j d := fun j d hs =>
      (entry_iff.mp hs.entry).2.2.2 ((entry_iff.mp hs.entry).2.2.1.symm.trans (hall j hs.two))
    have htwo := h.two_le_of_empty hentry hdev hne.symm hempty
    have hs : s.Sub dir i id := ⟨hentry, htwo, hdev, hdrop.named.alloc, hd⟩
    -- the entry is free
    have hedits := hdrop.edits h.toTidy (by decide : 0 < 65536)
    have hclear : Tidy (Function.update 0 id 1) {id} (s.rename dir (slot (s.file dir) i) 0) :=
      h.clear hentry hdev htwo hempty hedits fun d _ hnot => ⟨Set.notMem_empty d, hnot⟩
    have hbarren := hs.barren h.toTidy hcount hall hne hedits
    generalize hy : s.rename dir (slot (s.file dir) i) 0 = y at hedits hclear hbarren
    have hydir : isDir (y.disk.inode dir) = true := (hedits.isDir_eq dir).trans hdrop.isDir
    have horphans : ∀ a ≠ id, y.Orphan a → y.iCount a ≠ 0 := by
      intro a _ horphan
      rw [hedits.iCount]
      exact h.orphans a (hedits.toSwells.orphan.mp horphan)
    obtain ⟨u, hrun₂, hu⟩ := hclear.rmdir hbarren (fun d hin => hin)
      (fun a haid => Function.update_of_ne haid ..)
      (hclear.live (hedits.alloc.mpr hdrop.live.alloc) hydir) hydir horphans
    refine ⟨0, u, (congrFun ((if_neg hvtx).trans ((if_neg hno).trans ((if_neg (Ne.symm hne)).trans
      (if_neg hisDir)))) _).trans ((bind_ok hrun₁).trans ((congrFun (if_pos rfl) _).trans
      ((bind_ok (setIno_run _ dir _ 0)).trans ?_))), hu.clean, hu.super.trans hedits.super,
      hu.task.trans hedits.task⟩
    have hrelease := brelse_grab ((y.hold dir).hold id) (dir.dev, (slot (s.file dir) i).1)
    rw [← hy] at hrelease hrun₂
    exact (bind_ok hrelease).trans hrun₂

/-! ### The small file system -/

end Linux011.Fs.Names

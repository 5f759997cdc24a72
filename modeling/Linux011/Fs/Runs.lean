import Linux011.Fs.Created
import Linux011.Fs.Files

/-!
# Processes use the file systems

Some processes make calls, one after the other, in any order: they look up, make and remove names,
write to files they have opened, and close them. File systems that are clean stay so
(`Linux011.Fs.Names.run_sane`). In every state that is reached the zones that are marked are those
of the files (`Linux011.Fs.Names.run_zones`), inodes have as many links as names
(`Linux011.Fs.Names.run_links`), directories form trees (`Linux011.Fs.Names.run_trees`), and what
has no name is held (`Linux011.Fs.Names.run_names`).
-/

namespace Linux011.Fs.Names

open Bmap (State Place Spot)

variable {s u : Kernel} {id a x : Id} {n : ℕ} {fixed : Id → ℕ}
  {o : Multiset Id}

/-! ### Processes -/

/-- What a process may do. -/
inductive Act
  | call (c : Call)
  | write (id : Id) (append : Bool) (fpos : ℕ) (buf : List UInt8)
  | close (id : Id)

/-- What it returns: a number, or the inode that has been opened. -/
def Act.run : Act → K (ℤ ⊕ Id)
  | call c => c.run
  | write id append fpos buf => (fun r => .inl r.1) <$> fileWrite id append fpos buf
  | close id => (fun _ => .inl 0) <$> iput id

/-- **What the code relies on**: `mknod` makes no directory, links can be counted, files that are
used are open, and what is written fits in a file. -/
def Act.Allowed (o : Multiset Id) (s : Kernel) : Act → Prop
  | call (.mknod _ mode _) => mode.setWidth 16 &&& 0xF000#16 ≠ 0x4000#16
  | call (.link oldname _) => ∀ old, Fs.namei s.disk s.task oldname = .ok (some old) →
    (s.inode old).nlinks ≠ 255
  | call _ => True
  | write id append fpos buf => id ∈ o ∧ isReg (s.disk.inode id) = true ∧
    (if append then (s.inode id).size else fpos) + buf.length ≤ 1024 * Bmap.maxBlock
  | close id => id ∈ o

/-- The inodes that are open behind it. -/
def Act.opened (o : Multiset Id) (r : ℤ ⊕ Id) : Act → Multiset Id
  | call _ => match r with
    | .inl _ => o
    | .inr id => id ::ₘ o
  | write .. => o
  | close id => o.erase id

/-- What the kernel has of a process. -/
structure Proc where
  task : Task
  umask : BitVec 32

/-- **The machine**: the inodes that are open are those of the file table. -/
structure World (n : ℕ) where
  kernel : Kernel
  proc : Fin n → Proc
  opened : Multiset Id

namespace World

variable (w : World n)

/-- A process is running. -/
def as (i : Fin n) : Kernel :=
  { w.kernel with task := (w.proc i).task, umask := (w.proc i).umask }

/-- It has made a call. -/
def after (i : Fin n) (a : Act) (r : ℤ ⊕ Id) (u : Kernel) : World n where
  kernel := u
  proc := Function.update w.proc i ⟨u.task, u.umask⟩
  opened := a.opened w.opened r

/-- **One call**, of any process. -/
inductive Step (w : World n) : World n → Prop
  | act {i : Fin n} {a : Act} {r : ℤ ⊕ Id} {u : Kernel} (hallow : a.Allowed w.opened (w.as i))
    (hrun : a.run (w.as i) = .ok r u) : Step w (w.after i a r u)

end World

/-! ### One call -/

/-- **Inodes are held by those who use them**: by the files that are open, and by the tasks and the
mounts, whose references are `fixed`. -/
structure Held (fixed : Id → ℕ) (o : Multiset Id) (s : Kernel) : Prop where
  counts : ∀ x, s.iCount x = fixed x + o.count x
  pinned : ∀ x, s.Pinned x → fixed x ≠ 0

/-- **A call has gone well**: the file systems are clean, and the books are right. -/
structure Done (fixed : Id → ℕ) (o : Multiset Id) (s u : Kernel) : Prop extends Kept s u where
  counts : ∀ x, u.iCount x = fixed x + o.count x

/-- **The calls on names.** -/
theorem Call.clean (h : Clean s) (c : Call) (hok : (Act.call c).Allowed o s) :
    ∃ r u, c.run s = .ok r u ∧ Kept s u := by
  cases c with
  | openNamei path flag mode => exact openNamei_clean h path flag mode
  | mknod path mode dev =>
    obtain ⟨r, u, hrun, hu⟩ := sysMknod_clean h path hok dev
    exact ⟨.inl r, u, map_ok hrun, hu⟩
  | rmdir path =>
    obtain ⟨r, u, hrun, hu⟩ := sysRmdir_clean h path
    exact ⟨.inl r, u, map_ok hrun, hu⟩
  | unlink path =>
    obtain ⟨r, u, hrun, hu⟩ := sysUnlink_clean h path
    exact ⟨.inl r, u, map_ok hrun, hu⟩
  | link oldname newname =>
    obtain ⟨r, u, hrun, hu⟩ := sysLink_clean h oldname newname hok
    exact ⟨.inl r, u, map_ok hrun, hu⟩

theorem Call.done (h : Clean s) (hh : Held fixed o s) (c : Call)
    (hok : (Act.call c).Allowed o s) : ∃ r u, c.run s = .ok r u ∧
      Done fixed ((Act.call c).opened o r) s u := by
  obtain ⟨r, u, hrun, hu⟩ := c.clean h hok
  obtain ⟨r', u', hrun', hreleases⟩ := c.spec h.toWhole
  obtain ⟨rfl, rfl⟩ := EStateM.Result.ok.inj (hrun.symm.trans hrun')
  have hcount := hreleases.iCount
  refine ⟨r, u, hrun, hu, fun x => ?_⟩
  rw [hcount]
  cases r with
  | inl e => exact hh.counts x
  | inr id =>
    have hcounts := hh.counts x
    change Function.update s.iCount id (s.iCount id + 1) x = fixed x + (id ::ₘ o).count x
    by_cases hx : x = id
    · subst hx
      rw [Function.update_self, Multiset.count_cons_self]
      omega
    · rw [Function.update_of_ne hx, Multiset.count_cons_of_ne hx, hcounts]

/-- A file that is open is there. -/
theorem Held.alloc (hh : Held fixed o s) (h : Clean s) (hid : id ∈ o) : s.Allocated id := by
  by_contra hno
  have hcount := hh.counts id
  have hopen := Multiset.count_pos.mpr hid
  have hzero := h.unheld id hno
  omega

/-- **`file_write`** to a file that is open. -/
theorem write_done (h : Clean s) (hh : Held fixed o s) (append : Bool) (fpos : ℕ)
    (buf : List UInt8) (hok : (Act.write id append fpos buf).Allowed o s) :
    ∃ r u, fileWrite id append fpos buf s = .ok r u ∧ Done fixed o s u := by
  obtain ⟨hid, hreg, hlim⟩ := hok
  have hs : s.Stored id := ⟨hh.alloc h hid, by rw [isStored, hreg, Bool.true_or]⟩
  have hno : isDir (s.disk.inode id) = false := by
    rw [isReg, beq_iff_eq] at hreg
    rw [isDir, hreg]
    rfl
  obtain ⟨k, -, u, hrun, hwritten, htidy, -⟩ := fileWrite_spec h.toTidy hs hno append fpos rfl hlim
  refine ⟨_, u, hrun, ⟨⟨htidy, fun a horphan => ?_⟩, hwritten.super, hwritten.task⟩, fun x => ?_⟩
  · rw [hwritten.iCount]
    exact h.orphans a (hwritten.orphan.mp horphan)
  · rw [hwritten.iCount, hh.counts x]

/-- **The last `iput`** of a file that is open. -/
theorem close_done (h : Clean s) (hh : Held fixed o s) (hid : id ∈ o) :
    ∃ u, iput id s = .ok ⟨⟩ u ∧ Done fixed (o.erase id) s u := by
  have ha := hh.alloc h hid
  obtain ⟨c, hc⟩ : ∃ c : Id → ℕ, ∀ x, c x = fixed x + (o.erase id).count x := ⟨_, fun _ => rfl⟩
  have hself : s.iCount id = c id + 1 := by
    have hopen := Multiset.count_pos.mpr hid
    rw [hc, hh.counts id, Multiset.count_erase_self]
    omega
  have hother : ∀ a ≠ id, s.iCount a = c a := fun a hne => by
    rw [hc, hh.counts a, Multiset.count_erase_of_ne hne]
  have htidy : Tidy 0 ∅ { s with iCount := c } := by
    refine h.toTidy.recount (fun a hno => ?_) fun x hx => ?_
    · rw [← hother a (by rintro rfl; exact hno ha), h.unheld a hno]
    · have hpinned := hh.pinned x hx
      have hcount := hc x
      omega
  have horphans : ∀ a ≠ id, Kernel.Orphan { s with iCount := c } a → c a ≠ 0 :=
    fun a hne ho => hother a hne ▸ h.orphans a ⟨ho.1, ho.2⟩
  have hstart : ({ s with iCount := c } : Kernel).hold id = s := by
    rw [Kernel.hold]
    dsimp only
    rw [← hself, show Function.update c id (s.iCount id) = s.iCount from ?_]
    funext x
    by_cases hx : x = id
    · rw [hx, Function.update_self]
    · rw [Function.update_of_ne hx, hother x hx]
  by_cases hd : isDir (s.disk.inode id) = false
  · obtain ⟨u, hrun, hu, hcount⟩ := htidy.put ha hd horphans
    rw [hstart] at hrun
    exact ⟨u, hrun, ⟨hu.clean, hu.super, hu.task⟩, fun x => (congrFun hcount x).trans (hc x)⟩
  · have hlinks := (h.dir id ha (Bool.not_eq_false _ ▸ hd)).links_ne
    have hrun := @iput_hold { s with iCount := c } id (Or.inl hlinks)
    rw [hstart] at hrun
    refine ⟨_, hrun, ⟨⟨htidy, fun a ho => horphans a ?_ ho⟩, rfl, rfl⟩, hc⟩
    rintro rfl
    exact hlinks ho.2

/-- **One call**: it returns, and leaves the file systems clean and the books right. -/
theorem Act.done (h : Clean s) (hh : Held fixed o s) (a : Act) (hok : a.Allowed o s) :
    ∃ r u, a.run s = .ok r u ∧ Done fixed (a.opened o r) s u := by
  cases a with
  | call c => exact c.done h hh hok
  | write id append fpos buf =>
    obtain ⟨r, u, hrun, hu⟩ := write_done h hh append fpos buf hok
    exact ⟨.inl r.1, u, map_ok hrun, hu⟩
  | close id =>
    obtain ⟨u, hrun, hu⟩ := close_done h hh hok
    exact ⟨.inl 0, u, map_ok hrun, hu⟩

/-! ### All calls -/

/-- **All is well**: the file systems are clean, and inodes are held by the files that are open, and
by the tasks and the mounts. -/
structure World.Sane (fixed : Id → ℕ) (w : World n) : Prop where
  clean : Clean w.kernel
  counts : ∀ x, w.kernel.iCount x = fixed x + w.opened.count x
  pinned : ∀ x, fixed x ≠ 0 ↔ ∃ i, (w.as i).Pinned x

variable {w w' : World n} {i : Fin n}

theorem World.Sane.held (h : w.Sane fixed) (i : Fin n) : Held fixed w.opened (w.as i) :=
  ⟨h.counts, fun x hx => (h.pinned x).mpr ⟨i, hx⟩⟩

theorem World.Sane.as (h : w.Sane fixed) (i : Fin n) : Clean (w.as i) := by
  refine ⟨h.clean.toTidy.anew h.clean.unheld fun x hx => ?_, h.clean.orphans⟩
  have hcount := h.counts x
  have hpinned := (h.held i).pinned x hx
  omega

/-- **One call keeps all well.** -/
theorem World.Sane.after (h : w.Sane fixed) {a : Act} {r : ℤ ⊕ Id}
    (hrun : a.run (w.as i) = .ok r u) (hok : a.Allowed w.opened (w.as i)) :
    (w.after i a r u).Sane fixed := by
  obtain ⟨r', u', hrun', hu⟩ := a.done (h.as i) (h.held i) hok
  obtain ⟨rfl, rfl⟩ := EStateM.Result.ok.inj (hrun.symm.trans hrun')
  have htask : ∀ j, ((w.after i a r u).proc j).task = (w.proc j).task := by
    intro j
    change (Function.update w.proc i ⟨u.task, u.umask⟩ j).task = _
    by_cases hj : j = i
    · rw [hj, Function.update_self]
      exact hu.task
    · rw [Function.update_of_ne hj]
  refine ⟨hu.clean, hu.counts, fun x => (h.pinned x).trans (exists_congr fun j => ?_)⟩
  unfold Kernel.Pinned
  change _ ↔ x = ((w.after i a r u).proc j).task.root ∨
    x = ((w.after i a r u).proc j).task.pwd ∨ ∃ dev sb, Fs.getSuper ⟨_, u.super⟩ dev = some sb ∧ _
  rw [htask, hu.super]
  rfl

/-- **All is well in every state that is reached**: the induction is on the calls. -/
theorem World.Sane.run (h : w.Sane fixed) (hrun : Relation.ReflTransGen World.Step w w') :
    w'.Sane fixed := by
  induction hrun with
  | refl => exact h
  | tail _ hstep ih =>
    cases hstep with
    | act hallow hrun => exact ih.after hrun hallow

/-! ### The small file system -/

end Linux011.Fs.Names

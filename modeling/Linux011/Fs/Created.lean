import Linux011.Fs.Clean

/-!
# Names that are made in clean file systems

`open_namei`, `mknod` and `link` keep file systems clean (`Linux011.Fs.Names.Clean`), when they
are completed and when they are not. An inode that has been taken from the map has a link that
nothing stands for, until its entry is written (`Linux011.Fs.Names.Created`); when there is no room
for that, it is given back.
-/

namespace Linux011.Fs.Names

open Bmap (State Place Spot Sound)
open Directory (Pointer Dir slot)

variable {s u v x y : Kernel} {id a dir : Id} {k : ℕ × ℕ} {name : List UInt8}
  {e : Pointer} {i j m dev : ℕ} {owed : Id → ℕ} {out : Set Id}
  {f : Inode → Inode} {n : Inode} {path : Path}

/-! ### An inode from the map -/

/-- **No inode is free**: nothing has changed. -/
theorem Tidy.fresh_none (ht : Tidy owed out s) (h : Fresh s dev none x) : Tidy owed out x := by
  obtain ⟨hinode, hinodes⟩ := h.none rfl
  have hno : ∀ {s : Kernel}, ¬s.Allocated ⟨dev, 0⟩ := fun ha => ha.num_ne rfl
  have hb : Beside ⟨dev, 0⟩ s x := by
    refine ht.toStowed.beside_of_inode h.toSteady h.zones (fun a _ => ?_)
      (fun a _ _ => congrFun hinode a) h.data h.readable h.bCount (fun a _ => congrFun h.iCount a)
      fun k => iff_of_false (fun hk => hno hk.spot.1.alloc) fun hk => hno hk.spot.1.alloc
    rw [Kernel.Allocated, hinodes]
    rfl
  refine ht.file hb ⟨fun ha => absurd ha hno, fun ha => absurd ha hno, fun ha => absurd ha hno,
    fun ha => absurd ha hno, fun _ => ?_, fun hs => absurd hs.alloc hno,
    fun _ => ht.names_eq_empty hno, fun ha => absurd ha hno⟩ fun _ _ => rfl
  rw [h.iCount]
  exact ht.unheld _ hno

theorem Clean.fresh_none (hs : Clean s) (h : Fresh s dev none x) : Kept s x := by
  obtain ⟨hinode, hinodes⟩ := h.none rfl
  refine ⟨⟨hs.toTidy.fresh_none h, fun a horphan => ?_⟩, h.super, h.task⟩
  rw [h.iCount]
  refine hs.orphans a ?_
  rw [Kernel.Orphan, Kernel.Allocated, hinodes, hinode] at horphan
  exact horphan

theorem live_of_none (h : Fresh s dev none x) (hl : s.Live dir) : x.Live dir := by
  obtain ⟨hinode, hinodes⟩ := h.none rfl
  refine ⟨?_, ?_⟩
  · rw [Kernel.Allocated, hinodes]
    exact hl.alloc
  · rw [hinode, h.iCount]
    exact hl.stays

/-- **A file that is created**: its inode has been made, and its entry, if there was room. -/
structure Created (dir id : Id) (n : Inode) (r : Option Pointer) (y : Kernel) : Prop where
  ne : id ≠ dir
  inode : y.inode id = n
  alloc : y.Allocated id
  file : isDir (y.disk.inode id) = false
  live : y.Live dir
  orphans : ∀ a ≠ id, y.Orphan a → y.iCount a ≠ 0
  none : r = none → Tidy (Function.update 0 id 1) ∅ y
  some : ∀ e, r = some e → Clean (y.rename dir e id.num) ∧ (y.rename dir e id.num).Live dir ∧
    (y.rename dir e id.num).Live id

/-- **An inode is made a file**, that is no directory, and its entry is added. -/
theorem Clean.creates (h : Clean s) (hx : Fresh s dir.dev (some id) x) (hl : s.Live dir)
    (hd : isDir (s.disk.inode dir) = true) (hname : name ≠ []) (f : Inode → Inode)
    (hmode : (f s.newborn).mode &&& 0xF000#16 ≠ 0x4000#16)
    (hzone : isStored ((x.setInode id f).disk.inode id) = true →
      ∀ k < 9, (f s.newborn).zone k = 0)
    (hmount : (f s.newborn).mount = false) (hlinks : (f s.newborn).nlinks = 1) : ∃ r y,
      addEntry dir name (((x.setInode id f).hold dir).hold id) =
        .ok r (((y.hold dir).hold id).found dir r) ∧ Steady s y ∧
      Created dir id (f s.newborn) r y := by
  have htidy := hx.tidy h.toTidy
  obtain ⟨hdev, hfresh, hinodes, hinode⟩ := hx.some id rfl
  have hne : id ≠ dir := by
    rintro rfl
    exact hfresh hl.alloc
  have hself : x.inode id = s.newborn := by
    rw [hinode, Function.update_self]
    rfl
  have halloc : x.Allocated id := by
    rw [Kernel.Allocated, hinodes]
    exact Set.mem_insert ..
  have hmode₀ : (x.disk.inode id).mode = 0 := congrArg Inode.mode hself
  have hfile : isDir ((x.setInode id f).disk.inode id) = false := by
    have hmode' : ((x.setInode id f).disk.inode id).mode = (f s.newborn).mode := by
      rw [← hself]
      exact congrArg Inode.mode (setInode_self x id f)
    rw [isDir, hmode', beq_eq_false_iff_ne]
    exact hmode
  have hretype := htidy.retype (f := f) (m := 1) halloc (fun k _ => by rw [hself]; rfl)
    (by rw [isDir, hmode₀]; rfl) hfile (by rw [hself]; exact hzone)
    (by rw [hself]; exact hmount) (by rw [hself, Function.update_self, hlinks]; rfl)
  rw [Function.update_idem] at hretype
  have hdirx : (x.setInode id f).inode dir = s.inode dir := by
    rw [setInode_of_ne (Ne.symm hne), hinode, Function.update_of_ne (Ne.symm hne)]
  have hdiralloc : (x.setInode id f).Allocated dir := by
    change x.Allocated dir
    rw [Kernel.Allocated, hinodes]
    exact Set.mem_insert_of_mem _ hl.alloc
  have hdirs : isDir ((x.setInode id f).disk.inode dir) = true :=
    (isDir_congr (congrArg Inode.mode hdirx)).trans hd
  obtain ⟨r, y, hrun, hswells, hnone, hsome⟩ := hretype.addEntry hdiralloc hdirs hname dir id
  have hinodey : y.inode id = f s.newborn := by
    rw [hswells.inode_of_ne hne, setInode_self, hself]
  have hcount : y.iCount = s.iCount := hswells.iCount.trans hx.iCount
  have hsteady : Steady s y := hx.toSteady.trans ⟨hswells.super, hswells.task, hswells.umask,
    hswells.shape, hswells.maps⟩
  refine ⟨r, y, hrun, hsteady, hne, hinodey, ?_, ?_, ?_, fun a haid ho => ?_, hnone,
    fun e he => ?_⟩
  · rw [Kernel.Allocated, hswells.inodes]
    exact halloc
  · refine (isDir_congr (s := x.setInode id f) ?_).trans hfile
    rw [hswells.inode_of_ne hne]
  · exact hswells.live (hretype.live hdiralloc hdirs)
  · rw [hcount]
    have ho := (setInode_orphan haid x f).mp (hswells.orphan.mp ho)
    exact h.orphans a (((hx.beside rfl h.toStowed).orphan haid).mp ho)
  · obtain ⟨i, hfree, hedits⟩ := hsome e he id.num (num_lt hretype.maps halloc)
    have henter := hretype.enter (n := 0) hdiralloc hdirs hfree halloc hdev.symm
      (Function.update_self ..) hfile hedits
    rw [owed_back] at henter
    have hlast : ((y.rename dir e id.num).inode id).nlinks ≠ 0 := by
      rw [hedits.nlinks, setInode_self, hself, hlinks]
      decide
    refine ⟨⟨henter, fun a ho => ?_⟩, henter.live (hedits.alloc.mpr hdiralloc)
      ((hedits.isDir_eq dir).trans hdirs), hedits.alloc.mpr halloc, Or.inl hlast⟩
    have haid : a ≠ id := by
      rintro rfl
      exact hlast ho.2
    have ho := (setInode_orphan haid x f).mp (hedits.toSwells.orphan.mp ho)
    change y.iCount a ≠ 0
    rw [hcount]
    exact h.orphans a (((hx.beside rfl h.toStowed).orphan haid).mp ho)

/-- **There was no room**: the inode loses its link. -/
theorem Created.unlinked (h : Created dir id n .none y) (hlinks : n.nlinks = 1)
    {g : UInt8 → UInt8} (hg : g 1 = 0) :
    Tidy 0 ∅ (y.setInode id (Inode.linked g)) ∧
      isDir ((y.setInode id (Inode.linked g)).disk.inode id) = false ∧
      ∀ a ≠ id, (y.setInode id (Inode.linked g)).Orphan a → y.iCount a ≠ 0 := by
  have hf := Inode.linked_relinks g (y.inode id)
  have hzero : (Inode.linked g (y.inode id)).nlinks = 0 := by
    rw [h.inode, Inode.linked, hlinks, hg]
  have hrelink := (h.none rfl).relink (m := 0) h.alloc hf
    (fun hd => Bool.noConfusion (hd.symm.trans h.file))
    (by rw [Function.update_self, hzero, h.inode, hlinks]; exact (by decide : 1 + 0 = 0 + 1))
  rw [owed_back] at hrelink
  exact ⟨hrelink, (hf.isDir_eq id).trans h.file, fun a haid horphan =>
    h.orphans a haid ((setInode_orphan haid y _).mp horphan)⟩

/-! ### `mknod` -/

/-- **`mknod`** keeps the file systems clean, if it is not asked for a directory. -/
theorem sysMknod_clean (h : Clean s) (path : Path) {mode : BitVec 32}
    (hmode : mode.setWidth 16 &&& 0xF000#16 ≠ 0x4000#16) (dev : ℕ) :
    ∃ r u, sysMknod path mode dev s = .ok r u ∧ Kept s u := by
  rw [sysMknod]
  rcases makeName_spec h.toTree path with ⟨e, -, hrun, -⟩ | ⟨dir, name, hrun, -, hl, hd, hname⟩
  · exact ⟨e, s, bind_ok hrun, h.kept⟩
  rw [bind_ok hrun]
  obtain ⟨r, x, hrun₁, hx⟩ := newInode_held h.toWhole hl.alloc
  cases r with
  | none =>
    exact ⟨-28, x, (bind_ok hrun₁).trans (leave_hold (live_of_none hx hl) _), h.fresh_none hx⟩
  | some id =>
    set f : Inode → Inode := fun n =>
      { n with
        mode := mode.setWidth 16
        zone := if isDeviceMode mode then Function.update n.zone 0 (dev % 65536) else n.zone }
    have hzone : isStored ((x.setInode id f).disk.inode id) = true →
        ∀ k < 9, (f s.newborn).zone k = 0 := by
      intro hstored k _
      have hnodev : ¬isDeviceMode mode = true := by
        intro hdevice
        have hmode' : ((x.setInode id f).inode id).mode = mode.setWidth 16 :=
          congrArg Inode.mode (setInode_self x id f)
        exact Bool.noConfusion (hstored.symm.trans (isStored_of_isDeviceMode hdevice hmode'))
      change (if isDeviceMode mode = true then _ else s.newborn.zone) k = 0
      rw [if_neg hnodev]
      rfl
    obtain ⟨r, y, hrun₂, hsteady, hy⟩ := h.creates hx hl hd hname f hmode hzone rfl rfl
    cases r with
    | none =>
      obtain ⟨htidy, hfile, horphans⟩ := hy.unlinked (by rfl) (g := fun _ => 0) rfl
      obtain ⟨u, hrun₃, hu, -⟩ := htidy.put hy.alloc hfile horphans
      have hdrop : iput dir ((y.hold dir).hold id) = .ok ⟨⟩ (y.hold id) := by
        rw [hold_comm]
        exact iput_hold (hy.live.hold id).stays
      exact ⟨-28, u, (bind_ok hrun₁).trans ((bind_ok hrun₂).trans ((bind_ok hdrop).trans
        (bind_ok hrun₃))), hu.clean, hu.super.trans hsteady.super, hu.task.trans hsteady.task⟩
    | some e =>
      obtain ⟨hu, hlive, hlive'⟩ := hy.some e rfl
      exact ⟨0, y.rename dir e id.num, (bind_ok hrun₁).trans ((bind_ok hrun₂).trans
        ((bind_ok (setIno_run _ dir e id.num)).trans
          (leaveBoth_hold hlive hlive' (dir.dev, e.1) 0))), hu, hsteady.super, hsteady.task⟩

/-! ### `open_namei` -/

/-- A new file is no directory. -/
theorem newMode_isReg (mode umask : BitVec 32) :
    newMode mode umask &&& 0xF000#16 = 0x8000#16 := by
  rw [newMode, BitVec.or_comm, BitVec.setWidth_or, BitVec.and_or_distrib_right]
  have hnone : (mode &&& 0o777#32 &&& ~~~umask).setWidth 16 &&& 0xF000#16 = 0#16 := by
    rw [BitVec.and_assoc, BitVec.and_comm 0o777#32, ← BitVec.and_assoc, BitVec.setWidth_and,
      BitVec.and_assoc, show (0o777#32 : BitVec 32).setWidth 16 &&& 0xF000#16 = 0#16 from rfl,
      BitVec.and_zero]
  rw [hnone]
  rfl

/-- A file that is to be truncated is opened for writing. -/
theorem accmode_of_trunc (flag : BitVec 32) (h : openFlag flag &&& oTrunc ≠ 0#32) :
    openFlag flag &&& oAccmode ≠ 0#32 := by
  rw [openFlag] at h ⊢
  split_ifs at h ⊢ with hflag
  · intro h0
    have hbit := congrArg (fun v : BitVec 32 => v.getLsbD 0) h0
    simp [oWronly, oAccmode] at hbit
  · intro h0
    exact hflag ⟨h, h0⟩

/-- **A file that is not there is created**, or not. -/
theorem openNamei_creates (h : Clean s) (hl : s.Live dir) (hd : isDir (s.disk.inode dir) = true)
    (hname : name ≠ []) (flag mode : BitVec 32) :
    ∃ r u, (do
      let s ← get
      if openFlag flag &&& oCreat = 0#32 then leave dir (.inl (-2))
      else if s.permission dir mayWrite = false then leave dir (.inl (-13))
      else
        match ← newInode dir.dev with
        | none => leave dir (.inl (-28))
        | some id => do
          modify fun s => s.setInode id fun n =>
            { n with uid := s.task.euid, mode := newMode mode s.umask }
          match ← addEntry dir name with
          | none => do
            modify fun s => s.setInode id fun n => { n with nlinks := n.nlinks - 1 }
            iput id
            leave dir (.inl (-28))
          | some e => do
            setIno dir e id.num
            brelse (dir.dev, e.1)
            leave dir (.inr id) : K (ℤ ⊕ Id)) (s.hold dir) = .ok r u ∧ Kept s u := by
  by_cases hcreat : openFlag flag &&& oCreat = 0#32
  · exact ⟨.inl (-2), s, (congrFun (if_pos hcreat) _).trans (leave_hold hl _), h.kept⟩
  by_cases hperm : s.permission dir mayWrite = false
  · exact ⟨.inl (-13), s, (congrFun ((if_neg hcreat).trans (if_pos hperm)) _).trans
      (leave_hold hl _), h.kept⟩
  obtain ⟨r, x, hrun, hx⟩ := newInode_held h.toWhole hl.alloc
  have hstart : ∀ {r'} {m : Option Id → K (ℤ ⊕ Id)}, m r ((x.hold dir).holding r) = r' →
      (newInode dir.dev >>= m) (s.hold dir) = r' := fun hm => (bind_ok hrun).trans hm
  cases r with
  | none =>
    exact ⟨.inl (-28), x, (congrFun ((if_neg hcreat).trans (if_neg hperm)) _).trans
      (hstart (leave_hold (live_of_none hx hl) _)), h.fresh_none hx⟩
  | some id =>
    have hmode : newMode mode x.umask &&& 0xF000#16 ≠ 0x4000#16 := by
      rw [newMode_isReg]
      decide
    obtain ⟨r, y, hrun₂, hsteady, hy⟩ := h.creates hx hl hd hname
      (Inode.created x.task.euid mode x.umask) hmode (fun _ _ _ => rfl) rfl rfl
    cases r with
    | none =>
      obtain ⟨htidy, hfile, horphans⟩ := hy.unlinked (by rfl) (g := (· - 1)) rfl
      have hlive : (y.setInode id (Inode.linked (· - 1))).Live dir := by
        refine ⟨hy.live.alloc, ?_⟩
        rw [setInode_of_ne (Ne.symm hy.ne)]
        exact hy.live.stays
      obtain ⟨u, hrun₃, hu⟩ := htidy.putBoth hy.alloc hfile hlive hy.ne horphans
        (.inl (-28) : ℤ ⊕ Id)
      exact ⟨.inl (-28), u, (congrFun ((if_neg hcreat).trans (if_neg hperm)) _).trans
        (hstart ((bind_ok hrun₂).trans hrun₃)), hu.clean, hu.super.trans hsteady.super,
        hu.task.trans hsteady.task⟩
    | some e =>
      obtain ⟨hu, hlive, hlive'⟩ := hy.some e rfl
      have hdrop : iput dir (((y.rename dir e id.num).hold dir).hold id) =
          .ok ⟨⟩ ((y.rename dir e id.num).hold id) := by
        rw [hold_comm]
        exact iput_hold (hlive.hold id).stays
      exact ⟨.inr id, (y.rename dir e id.num).hold id, (congrFun ((if_neg hcreat).trans
        (if_neg hperm)) _).trans (hstart ((bind_ok hrun₂).trans
          ((bind_ok (setIno_run _ dir e id.num)).trans ((bind_ok (brelse_grab
            (((y.rename dir e id.num).hold dir).hold id) (dir.dev, e.1))).trans
            (bind_ok hdrop))))), hu.hold hlive'.alloc, hsteady.super, hsteady.task⟩

/-- **A file that is there is opened**, and truncated if that is asked for. -/
theorem openNamei_opens (h : Clean s) (flag : BitVec 32) (hl : s.Live dir)
    (hd : isDir (s.disk.inode dir) = true) (hlt : i < (s.file dir).size / 16)
    (hne : Directory.ino (s.file dir) (slot (s.file dir) i) ≠ 0) :
    ∃ r u, (do
      let s ← get
      let inr := Directory.ino (s.file dir) (slot (s.file dir) i)
      brelse (dir.dev, (slot (s.file dir) i).1)
      iput dir
      if openFlag flag &&& oExcl ≠ 0#32 then pure (.inl (-17))
      else do
        let id ← iget ⟨dir.dev, inr⟩
        let s ← get
        if (isDir (s.disk.inode id) ∧ openFlag flag &&& oAccmode ≠ 0#32) ∨
            s.permission id (accMode (openFlag flag)) = false then leave id (.inl (-1))
        else do
          if openFlag flag &&& oTrunc ≠ 0#32 then truncate id else pure ⟨⟩
          pure (.inr id) : K (ℤ ⊕ Id)) ((s.hold dir).grab (dir.dev, (slot (s.file dir) i).1)) =
        .ok r u ∧ Kept s u := by
  have hback : ∀ {m : K (ℤ ⊕ Id)} {r}, m s = r → (do
      brelse (dir.dev, (slot (s.file dir) i).1)
      iput dir
      m : K (ℤ ⊕ Id)) ((s.hold dir).grab (dir.dev, (slot (s.file dir) i).1)) = r :=
    fun hm => (bind_ok (brelse_grab _ _)).trans ((bind_ok (iput_hold hl.stays)).trans hm)
  by_cases hexcl : openFlag flag &&& oExcl ≠ 0#32
  · exact ⟨.inl (-17), s, hback (congrFun (if_pos hexcl) s), h.kept⟩
  obtain ⟨id, -, hrun, hnamed⟩ := iget_spec h.toTree ((h.dir dir hl.alloc hd).entry i hlt hne)
  by_cases hno : (isDir (s.disk.inode id) ∧ openFlag flag &&& oAccmode ≠ 0#32) ∨
      s.permission id (accMode (openFlag flag)) = false
  · exact ⟨.inl (-1), s, hback ((congrFun (if_neg hexcl) s).trans ((bind_ok hrun).trans
      ((congrFun (if_pos hno) _).trans (leave_hold hnamed.live _)))), h.kept⟩
  have hclean := h.hold hnamed.alloc
  by_cases htrunc : openFlag flag &&& oTrunc ≠ 0#32
  · have hfile : isDir (s.disk.inode id) = false := by
      rw [← Bool.not_eq_true]
      exact fun hd => hno (Or.inl ⟨hd, accmode_of_trunc flag htrunc⟩)
    obtain ⟨u, hrun', hcut⟩ := hclean.toStowed.truncate hnamed.alloc
    refine ⟨.inr id, u, hback ((congrFun (if_neg hexcl) s).trans ((bind_ok hrun).trans
      ((congrFun (if_neg hno) _).trans ((congrFun (if_pos htrunc) _).trans (bind_ok hrun'))))),
      ⟨hcut.tidy hclean.toTidy hnamed.alloc hfile, fun a horphan => ?_⟩, hcut.super, hcut.task⟩
    rw [hcut.counts]
    by_cases haid : a = id
    · subst haid
      exact hclean.orphans a ⟨hnamed.alloc, hcut.nlinks.symm.trans horphan.2⟩
    · exact hclean.orphans a ((hcut.toBeside.orphan haid).mp horphan)
  · exact ⟨.inr id, s.hold id, hback ((congrFun (if_neg hexcl) s).trans ((bind_ok hrun).trans
      ((congrFun (if_neg hno) _).trans (congrFun (if_neg htrunc) _)))), hclean, rfl, rfl⟩

/-- **`open_namei`** keeps the file systems clean. -/
theorem openNamei_clean (h : Clean s) (path : Path) (flag mode : BitVec 32) :
    ∃ r u, openNamei path flag mode s = .ok r u ∧ Kept s u := by
  obtain ⟨r, hlook, hrun, hr⟩ := dirNamei_spec h.toTree path
  rw [openNamei]
  cases r with
  | none => exact ⟨.inl (-2), s, bind_ok hrun, h.kept⟩
  | some p =>
    obtain ⟨start, name⟩ := p
    obtain ⟨hl, hd⟩ := hr start name rfl
    by_cases hname : name = []
    · by_cases hflag : openFlag flag &&& (oAccmode ||| oCreat ||| oTrunc) = 0#32
      · exact ⟨.inr start, s.hold start, (bind_ok hrun).trans
          (congrFun ((if_pos hname).trans (if_pos hflag)) _), h.hold hl.alloc, rfl, rfl⟩
      · exact ⟨.inl (-21), s, (bind_ok hrun).trans ((congrFun ((if_pos hname).trans
          (if_neg hflag)) _).trans (leave_hold hl _)), h.kept⟩
    obtain ⟨dir, r, hf⟩ := findEntry_spec h.toTree hl hd name
    cases r with
    | none =>
      obtain ⟨r, u, hrun', hu⟩ := openNamei_creates h hf.live hf.isDir hname flag mode
      exact ⟨r, u, (bind_ok hrun).trans ((congrFun (if_neg hname) _).trans
        ((bind_ok hf.run).trans hrun')), hu⟩
    | some i =>
      obtain ⟨hlt, hne⟩ := hf.hit i rfl
      obtain ⟨r, u, hrun', hu⟩ := openNamei_opens h flag hf.live hf.isDir hlt hne
      exact ⟨r, u, (bind_ok hrun).trans ((congrFun (if_neg hname) _).trans
        ((bind_ok hf.run).trans hrun')), hu⟩

/-! ### `link` -/

theorem more_toNat {n : UInt8} (h : n ≠ 255) : (n + 1).toNat = 1 + n.toNat := by
  have hlt : n.toNat ≠ 255 := fun h255 => h (UInt8.toNat_inj.mp h255)
  have hle := n.toNat_lt
  rw [UInt8.toNat_add]
  change (n.toNat + 1) % 2 ^ 8 = 1 + n.toNat
  rw [Nat.mod_eq_of_lt (by omega)]
  omega

/-- **The new name is entered**, when it is not there. -/
theorem sysLink_enters (h : Clean s) {old : Id} (hold : s.Live old)
    (hfile : isDir (s.disk.inode old) = false) (hmax : (s.inode old).nlinks ≠ 255)
    (hl : s.Live dir) (hd : isDir (s.disk.inode dir) = true) (hdev : dir.dev = old.dev)
    (hname : name ≠ []) :
    ∃ r u, (do
      match ← addEntry dir name with
      | none => leaveLink dir old (-28)
      | some e => do
        setIno dir e old.num
        brelse (dir.dev, e.1)
        iput dir
        modify fun s => s.setInode old fun n => { n with nlinks := n.nlinks + 1 }
        leave old 0 : K ℤ) ((s.hold old).hold dir) = .ok r u ∧ Kept s u := by
  have hne : old ≠ dir := by
    rintro rfl
    exact Bool.noConfusion (hd.symm.trans hfile)
  obtain ⟨r, y, hrun, hswells, hnone, hsome⟩ := h.addEntry hl.alloc hd hname old dir
  cases r with
  | none =>
    refine ⟨-28, y, (bind_ok hrun).trans
      (leaveLink_hold' (hswells.live hl) (hswells.live hold) (-28)), ⟨hnone rfl, fun a ho => ?_⟩,
      hswells.super, hswells.task⟩
    rw [hswells.iCount]
    exact h.orphans a (hswells.orphan.mp ho)
  | some e =>
    obtain ⟨i, hfree, hedits⟩ := hsome e rfl old.num (num_lt h.maps hold.alloc)
    have hf := Inode.linked_relinks (· + 1) (s.inode old)
    -- the link is there before the entry
    have hmore := h.relink (f := Inode.linked (· + 1)) (m := 1) hold.alloc hf
      (fun hd => Bool.noConfusion (hd.symm.trans hfile))
      ((Nat.zero_add _).trans (more_toNat hmax))
    have hlinked := hedits.linked old (· + 1)
    have henter := hmore.enter (n := 0) hl.alloc ((hf.isDir_eq dir).trans hd)
      (by rw [hf.file]; exact hfree) hold.alloc hdev (Function.update_self ..)
      ((hf.isDir_eq old).trans hfile) hlinked
    rw [owed_back] at henter
    generalize hv : y.rename dir e old.num = v at hedits hlinked henter
    have hfile' : isDir ((v.setInode old (Inode.linked (· + 1))).disk.inode old) = false :=
      ((Inode.linked_relinks _ _).isDir_eq old).trans ((hedits.isDir_eq old).trans hfile)
    have horphans : ∀ a ≠ old, (v.setInode old (Inode.linked (· + 1))).Orphan a →
        v.iCount a ≠ 0 := by
      intro a haold ho
      rw [hedits.iCount]
      exact h.orphans a (hedits.toSwells.orphan.mp ((setInode_orphan haold v _).mp ho))
    obtain ⟨u, hrun', hu, -⟩ := henter.put (hedits.alloc.mpr hold.alloc) hfile' horphans
    have hdrop : iput dir ((v.hold old).hold dir) = .ok ⟨⟩ (v.hold old) :=
      iput_hold ((hedits.live hl).hold old).stays
    rw [← hv] at hdrop hrun'
    exact ⟨0, u, (bind_ok hrun).trans ((bind_ok (setIno_run _ dir e old.num)).trans ((bind_ok
      (brelse_grab (((y.rename dir e old.num).hold old).hold dir) (dir.dev, e.1))).trans ((bind_ok
      hdrop).trans (bind_ok hrun')))), hu.clean, hu.super.trans hedits.super,
      hu.task.trans hedits.task⟩

/-- **A name that is not there** is looked for in the directory itself: `..` is always there. -/
theorem dir_of_none {start : Id} (h : Tree s) (ha : s.Allocated start)
    (hd : isDir (s.disk.inode start) = true)
    (hlook : Fs.findEntry s.disk s.task start name = .ok (dir, none)) : dir = start := by
  have hgood := h.dir start ha hd
  rw [Fs.findEntry] at hlook
  dsimp only at hlook
  split_ifs at hlook with hlen hname hroot hnum
  · exact (Prod.mk.inj (Except.ok.inj hlook)).1.symm
  · exact (Prod.mk.inj (Except.ok.inj hlook)).1.symm
  · split at hlook
    · cases hlook
    · next sb hsb =>
      cases hmount : sb.imount with
      | none =>
        rw [hmount] at hlook
        exact (Prod.mk.inj (Except.ok.inj hlook)).1.symm
      | some up =>
        obtain ⟨halloc, hisDir⟩ := h.up start.dev sb up hsb hmount
        have hgood' := h.dir up halloc hisDir
        obtain ⟨hno, hyes⟩ := isMatch_dotdot hgood'
        have hscan : Fs.scan ((s.disk.inode start).size / 16) 2 name (s.disk.inode up) = some 1 :=
          scan_first hgood' (by decide) (by decide) hgood.two (hname ▸ hyes) fun j hj => by
            rw [Nat.lt_one_iff.mp hj, hname]
            exact hno
        rw [hmount, Option.getD_some, hscan] at hlook
        cases (Prod.mk.inj (Except.ok.inj hlook)).2
  · exact (Prod.mk.inj (Except.ok.inj hlook)).1.symm
  · exact (Prod.mk.inj (Except.ok.inj hlook)).1.symm

/-- **`link`** keeps the file systems clean, if one link more can be counted. -/
theorem sysLink_clean (h : Clean s) (oldname newname : Path)
    (hmax : ∀ old, Fs.namei s.disk s.task oldname = .ok (some old) → (s.inode old).nlinks ≠ 255) :
    ∃ r u, sysLink oldname newname s = .ok r u ∧ Kept s u := by
  rw [sysLink]
  obtain ⟨r, hlook, hrun, hr⟩ := namei_spec h.toTree oldname
  cases r with
  | none => exact ⟨-2, s, bind_ok hrun, h.kept⟩
  | some old =>
    have hold := hr old rfl
    rw [bind_ok hrun]
    by_cases hfile : isDir (s.disk.inode old) = true
    · exact ⟨-1, s, (congrFun (if_pos hfile) _).trans (leave_hold hold _), h.kept⟩
    obtain ⟨r, -, hrun', hr'⟩ := dirNamei_spec (h.toTree.hold old) newname
    cases r with
    | none =>
      exact ⟨-13, s, (congrFun (if_neg hfile) _).trans ((bind_ok hrun').trans
        (leave_hold hold _)), h.kept⟩
    | some p =>
      obtain ⟨start, name⟩ := p
      obtain ⟨hl, hd⟩ := hr' start name rfl
      have hl' : s.Live start := h.live hl.alloc hd
      by_cases hname : name = []
      · exact ⟨-1, s, (congrFun (if_neg hfile) _).trans ((bind_ok hrun').trans
          ((congrFun (if_pos hname) _).trans (leaveLink_hold hold hl' (-1)))), h.kept⟩
      by_cases hdev : start.dev ≠ old.dev
      · exact ⟨-18, s, (congrFun (if_neg hfile) _).trans ((bind_ok hrun').trans
          ((congrFun ((if_neg hname).trans (if_pos hdev)) _).trans
            (leaveLink_hold' hl' hold (-18)))), h.kept⟩
      by_cases hperm : s.permission start mayWrite = false
      · exact ⟨-13, s, (congrFun (if_neg hfile) _).trans ((bind_ok hrun').trans
          ((congrFun ((if_neg hname).trans ((if_neg hdev).trans (if_pos hperm))) _).trans
            (leaveLink_hold' hl' hold (-13)))), h.kept⟩
      obtain ⟨dir, r, hf⟩ := findEntry_spec (h.toTree.hold old) hl hd name
      have hdir : s.Live dir := h.live hf.live.alloc hf.isDir
      cases r with
      | none =>
        have hsame := dir_of_none h.toTree hl'.alloc hd hf.look
        obtain ⟨r, u, hrun'', hu⟩ := sysLink_enters h hold (Bool.not_eq_true _ ▸ hfile)
          (hmax old hlook) hdir hf.isDir (hsame ▸ not_not.mp hdev) hname
        exact ⟨r, u, (congrFun (if_neg hfile) _).trans ((bind_ok hrun').trans
          ((congrFun ((if_neg hname).trans ((if_neg hdev).trans (if_neg hperm))) _).trans
            ((bind_ok hf.run).trans hrun''))), hu⟩
      | some i =>
        refine ⟨-17, s, (congrFun (if_neg hfile) _).trans ((bind_ok hrun').trans
          ((congrFun ((if_neg hname).trans ((if_neg hdev).trans (if_neg hperm))) _).trans
            ((bind_ok hf.run).trans ?_))), h.kept⟩
        exact (bind_ok (brelse_grab ((s.hold old).hold dir) _)).trans
          (leaveLink_hold' hdir hold (-17))

end Linux011.Fs.Names

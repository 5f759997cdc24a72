import Linux011.Fs.Whole

/-!
# The calls on names give back what they have taken

On file systems that are whole (`Linux011.Fs.Names.Whole`) the calls on names return, on all of
their paths, with every `i_count` what it was, but for the inode that `open_namei` stores in
`*res_inode`. With every `b_count` they do so if and only if no block that they free is in use
(`Linux011.Fs.Names.calls_balanced_iff`): `free_block` finds the buffer of such a block in the
cache, and returns without releasing it.
-/

namespace Linux011.Fs.Names

open Bmap (State Place Spot Outside)
open Directory (Pointer Dir slot)

variable {s u v : Kernel} {id dir : Id} {k : ℕ × ℕ} {name : List UInt8} {α : Type}
  {e : Pointer} {i n z : ℕ} {t : State} {path : Path}

/-! ### The counts behind a call -/

/-- **What the counts are** behind a call that frees these blocks, and holds an inode or none. -/
structure Releases (l : List (ℕ × ℕ)) (r : Option Id) (s u : Kernel) : Prop where
  iCount : u.iCount = (s.holding r).iCount
  bCount : u.bCount = s.bCount ↔ ∀ k ∈ l, s.bCount k = 0

/-- No block is freed. -/
theorem Releases.nil {r : Option Id} (hi : u.iCount = (s.holding r).iCount)
    (hb : u.bCount = s.bCount) : Releases [] r s u :=
  ⟨hi, iff_of_true hb fun _ hk => absurd hk List.not_mem_nil⟩

theorem Releases.refl (s : Kernel) : Releases [] none s s := .nil rfl rfl

/-! ### `unlink` -/

/-- **The blocks that `unlink` frees**: those of an inode that has no other link, and that nobody
has. -/
def Kernel.unlinked (s : Kernel) (path : Path) : List (ℕ × ℕ) :=
  match s.target path with
  | none => []
  | some (start, dir, id) =>
    if s.permission start mayWrite = false then []
    else if (s.inode dir).mode &&& isVtx ≠ 0#16 ∧ s.suser = false ∧
        s.task.euid ≠ (s.inode id).uid ∧ s.task.euid ≠ (s.inode dir).uid then []
    else if isDir (s.disk.inode id) then []
    else if (s.inode id).nlinks = 1 ∧ s.iCount id = 0 then s.blocks id
    else []

theorem links_less {n : UInt8} : n - 1 = 0 ↔ n = 1 := by
  constructor
  · intro h
    rw [← UInt8.sub_add_cancel n 1, h]
    rfl
  · rintro rfl
    rfl

/-- **An inode has a link less**, and it and its directory are given back. -/
theorem unlink_tail (a : α) (hc : Bitmap.Consistent s.bitmap) (ha : s.Allocated id)
    (hl : s.Live dir) (hne : id ≠ dir) (hnodup : (s.blocks id).Nodup)
    (hmem : ∀ k ∈ s.blocks id, k ∈ s.bitmap.zones) :
    ∃ u, (do
      modify fun s => s.setInode id fun n => { n with nlinks := n.nlinks - 1 }
      iput id
      iput dir
      pure a : K α) ((s.hold dir).hold id) = .ok a u ∧ u.iCount = s.iCount ∧
      (u.bCount = s.bCount ↔ ((s.inode id).nlinks = 1 → s.iCount id = 0 →
        ∀ k ∈ s.blocks id, s.bCount k = 0)) := by
  have hblocks := @setInode_blocks Inode.less s id id rfl rfl
  have hlinks : ((s.setInode id Inode.less).inode id).nlinks = (s.inode id).nlinks - 1 :=
    congrArg Inode.nlinks (setInode_self s id _)
  have hother := setInode_of_ne (Ne.symm hne) s Inode.less
  have hother' : (s.hold dir).iCount id = s.iCount id := Function.update_of_ne hne ..
  rw [← hblocks] at hnodup hmem
  obtain ⟨u, hrun, hcount, hbalanced, hinode, -⟩ :=
    @iput_spec ((s.setInode id Inode.less).hold dir) id hc ha hnodup hmem
  have hstays : (u.inode dir).nlinks ≠ 0 ∨ s.iCount dir ≠ 0 := by
    rw [hinode dir (Ne.symm hne)]
    refine hl.stays.imp_left fun h => ?_
    rw [← hother] at h
    exact h
  change u.bCount = s.bCount ↔ (((s.setInode id Inode.less).inode id).nlinks = 0 →
    (s.hold dir).iCount id = 0 → ∀ k ∈ (s.setInode id Inode.less).blocks id, s.bCount k = 0)
    at hbalanced
  rw [hlinks, hother', hblocks, links_less] at hbalanced
  exact ⟨_, (bind_ok hrun).trans (bind_ok (iput_back hcount hstays)), rfl, hbalanced⟩

/-- **`unlink`** gives back what it has taken, but for buffers of blocks that it frees. -/
theorem sysUnlink_spec (hw : Whole s) (path : Path) :
    ∃ r u, sysUnlink path s = .ok r u ∧ Releases (s.unlinked path) none s u := by
  rw [sysUnlink]
  rcases dropName_spec hw.toTree path with ⟨e, hrun, hno⟩ | ⟨start, dir, i, id, ht, hperm, hrun⟩
  · have hnil : s.unlinked path = [] := by
      rw [Kernel.unlinked]
      cases htarget : s.target path with
      | none => rfl
      | some p =>
        obtain ⟨start, dir, id⟩ := p
        exact if_pos (hno start dir id htarget)
    rw [hnil]
    exact ⟨e, s, bind_ok hrun, Releases.refl s⟩
  rw [Kernel.unlinked, ht.eq]
  dsimp only
  rw [if_neg fun h => Bool.noConfusion (hperm.symm.trans h)]
  rw [bind_ok hrun]
  set e := slot (s.file dir) i
  by_cases hvtx : (s.inode dir).mode &&& isVtx ≠ 0#16 ∧ s.suser = false ∧
      s.task.euid ≠ (s.inode id).uid ∧ s.task.euid ≠ (s.inode dir).uid
  · rw [if_pos hvtx]
    exact ⟨-1, s, (congrFun (if_pos hvtx) _).trans
      (leaveBoth_hold ht.live ht.named.live (dir.dev, e.1) (-1)), Releases.refl s⟩
  by_cases hisDir : isDir (s.disk.inode id) = true
  · rw [if_neg hvtx, if_pos hisDir]
    exact ⟨-1, s, (congrFun ((if_neg hvtx).trans (if_pos hisDir)) _).trans
      (leaveBoth_hold' ht.named.live ht.live (dir.dev, e.1) (-1)), Releases.refl s⟩
  rw [if_neg hvtx, if_neg hisDir]
  have hne : id ≠ dir := fun h => hisDir (h ▸ ht.isDir)
  -- the entry is free
  have hdir := (hw.dir dir ht.live.alloc ht.isDir).toDir
  have hgrows := rename_grows hw.maps hdir.toSound (within_slot hdir ht.lt) 0
  have hblocks := hgrows.blocks hw (stored_of_isDir ht.live.alloc ht.isDir) ht.named.alloc hne
  obtain ⟨u, hrun₁, hcount, hbalanced⟩ := @unlink_tail (s.rename dir e 0) id dir ℤ 0 hgrows.maps
    (hgrows.live ht.named.live).alloc (hgrows.live ht.live) hne
    (hblocks ▸ hw.blocks_nodup ht.named.alloc)
    (hblocks ▸ fun k hk => hgrows.zones (hw.blocks_mem ht.named.alloc k hk))
  rw [hgrows.nlinks, hblocks, hgrows.bCount, hgrows.iCount] at hbalanced
  refine ⟨0, u, (congrFun ((if_neg hvtx).trans ((if_neg hisDir).trans
    (if_neg ht.named.links))) _).trans ((bind_ok (setIno_run _ dir e 0)).trans ((bind_ok
      (brelse_grab (((s.rename dir e 0).hold dir).hold id) (dir.dev, e.1))).trans hrun₁)),
    hcount.trans hgrows.iCount, ?_⟩
  split_ifs with hlast
  · exact hbalanced.trans ⟨fun h => h hlast.1 hlast.2, fun h _ _ => h⟩
  · exact hbalanced.trans
      (iff_of_true (fun h h' => absurd ⟨h, h'⟩ hlast) fun _ hk => absurd hk List.not_mem_nil)

/-! ### `rmdir` -/

/-- **The blocks that `rmdir` frees**: those of an empty directory that nobody has. -/
def Kernel.removed (s : Kernel) (path : Path) : List (ℕ × ℕ) :=
  if s.suser = false then []
  else
    match s.target path with
    | none => []
    | some (start, dir, id) =>
      if s.permission start mayWrite = false then []
      else if id.dev ≠ dir.dev ∨ s.iCount id ≠ 0 ∨ id = dir then []
      else if isDir (s.disk.inode id) = false then []
      else if ∀ i < (s.disk.inode id).size / 16, 2 ≤ i → dirIno (s.disk.inode id) i = 0 then
        s.blocks id
      else []

/-- **A directory is removed**: it and the one above it are given back. -/
theorem rmdir_tail (hc : Bitmap.Consistent s.bitmap) (ha : s.Allocated id)
    (hlinks : 2 ≤ (s.inode dir).nlinks.toNat) (hne : id ≠ dir) (hnodup : (s.blocks id).Nodup)
    (hmem : ∀ k ∈ s.blocks id, k ∈ s.bitmap.zones) :
    ∃ u, (do
      modify fun s => s.setInode id fun n => { n with nlinks := 0 }
      modify fun s => s.setInode dir fun n => { n with nlinks := n.nlinks - 1 }
      iput dir
      iput id
      pure 0 : K ℤ) ((s.hold dir).hold id) = .ok 0 u ∧ u.iCount = s.iCount ∧
      (u.bCount = s.bCount ↔ (s.iCount id = 0 → ∀ k ∈ s.blocks id, s.bCount k = 0)) := by
  have hblocks : ((s.setInode id Inode.gone).setInode dir Inode.less).blocks id = s.blocks id :=
    (@setInode_blocks Inode.less _ dir id rfl rfl).trans
      (@setInode_blocks Inode.gone s id id rfl rfl)
  have hgone : (((s.setInode id Inode.gone).setInode dir Inode.less).inode id).nlinks = 0 := by
    rw [setInode_of_ne hne, setInode_self, Inode.gone]
  have hless : (((s.setInode id Inode.gone).setInode dir Inode.less).inode dir).nlinks ≠ 0 := by
    rw [setInode_self, setInode_of_ne (Ne.symm hne), Inode.less]
    dsimp only
    rw [Ne, links_less]
    intro hone
    rw [hone] at hlinks
    exact absurd hlinks (by decide)
  rw [← hblocks] at hnodup hmem
  obtain ⟨u, hrun, hcount, hbalanced, -⟩ :=
    @iput_spec ((s.setInode id Inode.gone).setInode dir Inode.less) id hc ha hnodup hmem
  rw [hgone, hblocks] at hbalanced
  refine ⟨u, ?_, hcount, hbalanced.trans ⟨fun h => h rfl, fun h _ => h⟩⟩
  rw [hold_comm]
  exact (bind_ok (@iput_hold (((s.setInode id Inode.gone).setInode dir Inode.less).hold id) dir
    (Or.inl hless))).trans (bind_ok hrun)

/-- **`rmdir`** gives back what it has taken, but for buffers of blocks that it frees. -/
theorem sysRmdir_spec (hw : Whole s) (path : Path) :
    ∃ r u, sysRmdir path s = .ok r u ∧ Releases (s.removed path) none s u := by
  rw [sysRmdir, get_bind, Kernel.removed]
  by_cases hsuser : s.suser = false
  · rw [if_pos hsuser, if_pos hsuser]
    exact ⟨-1, s, rfl, Releases.refl s⟩
  rw [if_neg hsuser, if_neg hsuser]
  rcases dropName_spec hw.toTree path with ⟨e, hrun, hno⟩ | ⟨start, dir, i, id, ht, hperm, hrun⟩
  · refine ⟨e, s, bind_ok hrun, ?_⟩
    cases htarget : s.target path with
    | none => exact Releases.refl s
    | some p =>
      obtain ⟨start, dir, id⟩ := p
      dsimp only
      rw [if_pos (hno start dir id htarget)]
      exact Releases.refl s
  rw [ht.eq]
  dsimp only
  rw [if_neg fun h => Bool.noConfusion (hperm.symm.trans h)]
  rw [bind_ok hrun]
  set e := slot (s.file dir) i
  have hvtx : ¬((s.inode dir).mode &&& isVtx ≠ 0#16 ∧ s.task.euid ≠ 0 ∧
      (s.inode id).uid ≠ s.task.euid) := by
    rintro ⟨-, heuid, -⟩
    refine hsuser ?_
    rw [Kernel.suser, beq_eq_false_iff_ne]
    exact heuid
  have hbusy : (id.dev ≠ dir.dev ∨ 1 < (((s.hold dir).grab (dir.dev, e.1)).hold id).iCount id) ↔
      (id.dev ≠ dir.dev ∨ s.iCount id ≠ 0 ∨ id = dir) := by
    have hself : (((s.hold dir).grab (dir.dev, e.1)).hold id).iCount id =
        (s.hold dir).iCount id + 1 :=
      Function.update_self ..
    rw [hself]
    refine or_congr_right ?_
    by_cases heq : id = dir
    · have hdir : (s.hold dir).iCount id = s.iCount id + 1 := by
        rw [heq]
        exact Function.update_self ..
      exact iff_of_true (by omega) (Or.inr heq)
    · have hdir : (s.hold dir).iCount id = s.iCount id := Function.update_of_ne heq ..
      rw [hdir, or_iff_left heq]
      omega
  by_cases hno : id.dev ≠ dir.dev ∨ s.iCount id ≠ 0 ∨ id = dir
  · rw [if_pos hno]
    exact ⟨-1, s, (congrFun ((if_neg hvtx).trans (if_pos (hbusy.mpr hno))) _).trans
      (leaveBoth_hold ht.live ht.named.live (dir.dev, e.1) (-1)), Releases.refl s⟩
  rw [if_neg hno]
  have hne : id ≠ dir := fun h => hno (Or.inr (Or.inr h))
  have hfree : s.iCount id = 0 := by
    by_contra h
    exact hno (Or.inr (Or.inl h))
  by_cases hisDir : isDir (s.disk.inode id) = false
  · rw [if_pos hisDir]
    exact ⟨-20, s, (congrFun ((if_neg hvtx).trans ((if_neg (mt hbusy.mp hno)).trans
      ((if_neg hne).trans (if_pos hisDir)))) _).trans
      (leaveBoth_hold' ht.named.live ht.live (dir.dev, e.1) (-20)), Releases.refl s⟩
  rw [if_neg hisDir]
  obtain ⟨r, hrun₁, hr⟩ := emptyDir_spec
    ((((hw.toTree.hold dir).grab (dir.dev, e.1)).hold id).dir id ht.named.alloc
      (Bool.not_eq_false _ ▸ hisDir))
  have hempty : r = true ↔ ∀ i < (s.disk.inode id).size / 16, 2 ≤ i →
      dirIno (s.disk.inode id) i = 0 := by
    refine hr.trans (forall_congr' fun j => imp_congr_right fun _ => imp_congr_right fun _ => ?_)
    exact (Directory.ino_flat (s.bare id) (s.file id) j) ▸ Iff.rfl
  by_cases hall : ∀ i < (s.disk.inode id).size / 16, 2 ≤ i → dirIno (s.disk.inode id) i = 0
  · rw [if_pos hall]
    obtain rfl : r = true := hempty.mpr hall
    -- the entry is free
    have hgood := hw.dir dir ht.live.alloc ht.isDir
    have hgrows := rename_grows hw.maps hgood.toSound (within_slot hgood.toDir ht.lt) 0
    have hblocks := hgrows.blocks hw (stored_of_isDir ht.live.alloc ht.isDir) ht.named.alloc hne
    have hlinks : 2 ≤ ((s.rename dir e 0).inode dir).nlinks.toNat := by
      rw [hgrows.nlinks]
      exact hgood.links
    obtain ⟨u, hrun₂, hcount, hbalanced⟩ := @rmdir_tail (s.rename dir e 0) id dir hgrows.maps
      (hgrows.live ht.named.live).alloc hlinks hne (hblocks ▸ hw.blocks_nodup ht.named.alloc)
      (hblocks ▸ fun k hk => hgrows.zones (hw.blocks_mem ht.named.alloc k hk))
    rw [hblocks, hgrows.bCount, hgrows.iCount] at hbalanced
    refine ⟨0, u, (congrFun ((if_neg hvtx).trans ((if_neg (mt hbusy.mp hno)).trans
      ((if_neg hne).trans (if_neg hisDir)))) _).trans ((bind_ok hrun₁).trans
      ((congrFun (if_pos rfl) _).trans ((bind_ok (setIno_run _ dir e 0)).trans ((bind_ok
      (brelse_grab (((s.rename dir e 0).hold dir).hold id) (dir.dev, e.1))).trans hrun₂)))),
      hcount.trans hgrows.iCount, hbalanced.trans ⟨fun h => h hfree, fun h _ => h⟩⟩
  · rw [if_neg hall]
    obtain rfl : r = false := by
      rw [← Bool.not_eq_true]
      exact mt hempty.mp hall
    exact ⟨-39, s, (congrFun ((if_neg hvtx).trans ((if_neg (mt hbusy.mp hno)).trans
      ((if_neg hne).trans (if_neg hisDir)))) _).trans ((bind_ok hrun₁).trans
      ((congrFun (if_neg Bool.false_ne_true) _).trans
        (leaveBoth_hold' ht.named.live ht.live (dir.dev, e.1) (-39)))), Releases.refl s⟩

/-! ### `mknod` -/

/-- A device has no blocks. -/
theorem isStored_of_isDeviceMode {mode : BitVec 32} (h : isDeviceMode mode = true)
    (hmode : (s.inode id).mode = mode.setWidth 16) : isStored (s.disk.inode id) = false := by
  have hmode' : (s.disk.inode id).mode = mode.setWidth 16 := hmode
  rw [isStored, isReg, isDir, hmode']
  rw [isDeviceMode, Bool.or_eq_true, beq_iff_eq, beq_iff_eq] at h
  have hwidth : (mode.setWidth 16 &&& 0xF000#16 : BitVec 16) =
      (mode &&& 0xF000#32).setWidth 16 := by
    rw [BitVec.setWidth_and]
    rfl
  rw [hwidth]
  rcases h with h | h
  · rw [h]
    decide
  · rw [h]
    decide

/-- **`mknod`** gives back what it has taken. -/
theorem sysMknod_spec (hw : Whole s) (path : Path) (mode : BitVec 32) (dev : ℕ) :
    ∃ r u, sysMknod path mode dev s = .ok r u ∧ Releases [] none s u := by
  rw [sysMknod]
  rcases makeName_spec hw.toTree path with ⟨e, -, hrun, -⟩ | ⟨dir, name, hrun, -, hl, hd, hname⟩
  · exact ⟨e, s, bind_ok hrun, Releases.refl s⟩
  rw [bind_ok hrun]
  obtain ⟨r, x, hrun₁, hx⟩ := newInode_held hw hl.alloc
  cases r with
  | none =>
    obtain ⟨hinode, hinodes⟩ := hx.none rfl
    have hstays : (x.inode dir).nlinks ≠ 0 ∨ x.iCount dir ≠ 0 := by
      rw [hinode, hx.iCount]
      exact hl.stays
    refine ⟨-28, x, (bind_ok hrun₁).trans (bind_ok (iput_hold hstays)), .nil hx.iCount hx.bCount⟩
  | some id =>
    set f : Inode → Inode := fun n =>
      { n with
        mode := mode.setWidth 16
        zone := if isDeviceMode mode then Function.update n.zone 0 (dev % 65536) else n.zone }
    obtain ⟨r, y, hrun₂, hy⟩ := fresh_enters hx hw hl hd hname f
    obtain ⟨-, -, -, hnew⟩ := hx.some id rfl
    cases r with
    | none =>
      have hblocks : (y.setInode id Inode.gone).blocks id = [] := by
        refine blocks_eq_nil fun hstored => ?_
        rw [setInode_self, hy.inode]
        have hnodev : ¬isDeviceMode mode = true := by
          intro hdevice
          have hmode : ((y.setInode id Inode.gone).inode id).mode = mode.setWidth 16 := by
            rw [setInode_self, hy.inode]
            rfl
          exact Bool.noConfusion
            (hstored.symm.trans (isStored_of_isDeviceMode hdevice hmode))
        change (if isDeviceMode mode = true then _ else (x.inode id).zone) = _
        rw [if_neg hnodev, hnew, Function.update_self]
        rfl
      obtain ⟨u, hrun₃, hcount, hbalanced, -⟩ := @iput_spec (y.setInode id Inode.gone) id hy.maps
        hy.alloc (by rw [hblocks]; exact List.nodup_nil)
        (by rw [hblocks]; exact fun _ hk => absurd hk List.not_mem_nil)
      rw [hblocks] at hbalanced
      have hdrop : iput dir ((y.hold dir).hold id) = .ok ⟨⟩ (y.hold id) := by
        rw [hold_comm]
        exact iput_hold (hy.live.hold id).stays
      refine ⟨-28, u, (bind_ok hrun₁).trans ((bind_ok hrun₂).trans ((bind_ok hdrop).trans
        (bind_ok hrun₃))), .nil (hcount.trans hy.iCount) ?_⟩
      exact (hbalanced.mpr (by rintro _ _ _ ⟨⟩)).trans hy.bCount
    | some e =>
      obtain ⟨hsound, hin⟩ := hy.entry e rfl
      have hgrows := rename_grows hy.maps hsound hin id.num
      have hlive : (y.rename dir e id.num).Live id := by
        refine hgrows.live ⟨hy.alloc, Or.inl ?_⟩
        rw [hy.inode]
        change (x.inode id).nlinks ≠ 0
        rw [hnew, Function.update_self]
        exact (by decide : (1 : UInt8) ≠ 0)
      exact ⟨0, y.rename dir e id.num, (bind_ok hrun₁).trans ((bind_ok hrun₂).trans
        ((bind_ok (setIno_run _ dir e id.num)).trans
          (leaveBoth_hold (hgrows.live hy.live) hlive (dir.dev, e.1) 0))),
        .nil (hgrows.iCount.trans hy.iCount) (hgrows.bCount.trans hy.bCount)⟩

/-! ### `open_namei` -/

/-- **The blocks that `open_namei` frees**: those of a file that is truncated. -/
def Kernel.truncated (s : Kernel) (path : Path) (flag : BitVec 32) : List (ℕ × ℕ) :=
  match s.target path with
  | none => []
  | some (_, _, id) =>
    if openFlag flag &&& oExcl ≠ 0#32 then []
    else if (isDir (s.disk.inode id) ∧ openFlag flag &&& oAccmode ≠ 0#32) ∨
        s.permission id (accMode (openFlag flag)) = false then []
    else if openFlag flag &&& oTrunc ≠ 0#32 then s.blocks id
    else []

/-- **A file that is there is opened**, and truncated if that is asked for. -/
theorem openNamei_target (hw : Whole s) {start : Id} {flag : BitVec 32}
    (ht : Target s path start dir i id)
    (higet : Fs.iget s.disk ⟨dir.dev, Directory.ino (s.file dir) (slot (s.file dir) i)⟩ = .ok id) :
    ∃ r u, (do
      let s ← get
      let inr := Directory.ino (s.file dir) (slot (s.file dir) i)
      brelse (dir.dev, (slot (s.file dir) i).1)
      iput dir
      if openFlag flag &&& oExcl ≠ 0#32 then pure (.inl (-17))
      else do
        let id ← iget ⟨dir.dev, inr⟩
        let s ← get
        if (isDir (s.disk.inode id) ∧ openFlag flag &&& oAccmode ≠ 0#32) ∨
            s.permission id (accMode (openFlag flag)) = false then leave id (.inl (-1))
        else do
          if openFlag flag &&& oTrunc ≠ 0#32 then truncate id else pure ⟨⟩
          pure (.inr id) : K (ℤ ⊕ Id)) ((s.hold dir).grab (dir.dev, (slot (s.file dir) i).1)) =
        .ok r u ∧ Releases (s.truncated path flag) r.getRight? s u := by
  rw [Kernel.truncated, ht.eq]
  dsimp only
  have hback : ∀ {m : K (ℤ ⊕ Id)} {r}, m s = r → (do
      brelse (dir.dev, (slot (s.file dir) i).1)
      iput dir
      m : K (ℤ ⊕ Id)) ((s.hold dir).grab (dir.dev, (slot (s.file dir) i).1)) = r :=
    fun hm => (bind_ok (brelse_grab _ _)).trans ((bind_ok (iput_hold ht.live.stays)).trans hm)
  by_cases hexcl : openFlag flag &&& oExcl ≠ 0#32
  · rw [if_pos hexcl]
    exact ⟨.inl (-17), s, hback (congrFun (if_pos hexcl) s), Releases.refl s⟩
  rw [if_neg hexcl]
  obtain ⟨id', higet', hrun, hnamed⟩ := iget_spec hw.toTree
    ((hw.dir dir ht.live.alloc ht.isDir).entry i ht.lt ht.ne)
  obtain rfl : id = id' := Except.ok.inj (higet.symm.trans higet')
  by_cases hno : (isDir (s.disk.inode id) ∧ openFlag flag &&& oAccmode ≠ 0#32) ∨
      s.permission id (accMode (openFlag flag)) = false
  · rw [if_pos hno]
    exact ⟨.inl (-1), s, hback ((congrFun (if_neg hexcl) s).trans ((bind_ok hrun).trans
      ((congrFun (if_pos hno) _).trans (leave_hold hnamed.live _)))), Releases.refl s⟩
  rw [if_neg hno]
  by_cases htrunc : openFlag flag &&& oTrunc ≠ 0#32
  · rw [if_pos htrunc]
    obtain ⟨t, hrun', hfreed, -, -⟩ := @truncate_spec (s.hold id) id hw.maps
      (hw.blocks_nodup hnamed.alloc) (hw.blocks_mem hnamed.alloc)
    exact ⟨.inr id, t, hback ((congrFun (if_neg hexcl) s).trans ((bind_ok hrun).trans
      ((congrFun (if_neg hno) _).trans ((congrFun (if_pos htrunc) _).trans (bind_ok hrun'))))),
      hfreed.iCount, hfreed.balanced_iff⟩
  · rw [if_neg htrunc]
    exact ⟨.inr id, s.hold id, hback ((congrFun (if_neg hexcl) s).trans ((bind_ok hrun).trans
      ((congrFun (if_neg hno) _).trans (congrFun (if_neg htrunc) _)))), .nil rfl rfl⟩

/-- The inode of a file that is created. -/
def Inode.created (uid : ℕ) (mode umask : BitVec 32) (n : Inode) : Inode :=
  { n with uid := uid, mode := newMode mode umask }

/-- **A file that is not there is created**, or not. -/
theorem openNamei_create (hw : Whole s) (hl : s.Live dir) (hd : isDir (s.disk.inode dir) = true)
    (hname : name ≠ []) (flag mode : BitVec 32) :
    ∃ r u, (do
      let s ← get
      if openFlag flag &&& oCreat = 0#32 then leave dir (.inl (-2))
      else if s.permission dir mayWrite = false then leave dir (.inl (-13))
      else
        match ← newInode dir.dev with
        | none => leave dir (.inl (-28))
        | some id => do
          modify fun s => s.setInode id fun n =>
            { n with uid := s.task.euid, mode := newMode mode s.umask }
          match ← addEntry dir name with
          | none => do
            modify fun s => s.setInode id fun n => { n with nlinks := n.nlinks - 1 }
            iput id
            leave dir (.inl (-28))
          | some e => do
            setIno dir e id.num
            brelse (dir.dev, e.1)
            leave dir (.inr id) : K (ℤ ⊕ Id)) (s.hold dir) = .ok r u ∧
        Releases [] r.getRight? s u := by
  by_cases hcreat : openFlag flag &&& oCreat = 0#32
  · exact ⟨.inl (-2), s, (congrFun (if_pos hcreat) _).trans (leave_hold hl _), Releases.refl s⟩
  by_cases hperm : s.permission dir mayWrite = false
  · exact ⟨.inl (-13), s, (congrFun ((if_neg hcreat).trans (if_pos hperm)) _).trans
      (leave_hold hl _), Releases.refl s⟩
  obtain ⟨r, x, hrun, hx⟩ := newInode_held hw hl.alloc
  have hstart : ∀ {r'} {m : Option Id → K (ℤ ⊕ Id)}, m r ((x.hold dir).holding r) = r' →
      (newInode dir.dev >>= m) (s.hold dir) = r' := fun hm => (bind_ok hrun).trans hm
  cases r with
  | none =>
    obtain ⟨hinode, -⟩ := hx.none rfl
    have hstays : (x.inode dir).nlinks ≠ 0 ∨ x.iCount dir ≠ 0 := by
      rw [hinode, hx.iCount]
      exact hl.stays
    exact ⟨.inl (-28), x, (congrFun ((if_neg hcreat).trans (if_neg hperm)) _).trans
      (hstart (bind_ok (iput_hold hstays))), .nil hx.iCount hx.bCount⟩
  | some id =>
    obtain ⟨-, -, -, hnew⟩ := hx.some id rfl
    obtain ⟨r, y, hrun₂, hy⟩ := fresh_enters hx hw hl hd hname
      (Inode.created x.task.euid mode x.umask)
    cases r with
    | none =>
      have hblocks : y.blocks id = [] := by
        refine blocks_eq_nil fun _ => ?_
        rw [hy.inode, hnew, Function.update_self]
        rfl
      obtain ⟨u, hrun₃, hcount, hbalanced⟩ := @unlink_tail y id dir (ℤ ⊕ Id) (.inl (-28)) hy.maps
        hy.alloc hy.live hy.ne (hblocks ▸ List.nodup_nil)
        (hblocks ▸ fun _ hk => absurd hk List.not_mem_nil)
      rw [hblocks] at hbalanced
      refine ⟨.inl (-28), u, (congrFun ((if_neg hcreat).trans (if_neg hperm)) _).trans
        (hstart ((bind_ok hrun₂).trans hrun₃)), .nil (hcount.trans hy.iCount) ?_⟩
      exact (hbalanced.mpr (by rintro _ _ _ ⟨⟩)).trans hy.bCount
    | some e =>
      obtain ⟨hsound, hin⟩ := hy.entry e rfl
      have hgrows := rename_grows hy.maps hsound hin id.num
      have hlive := hgrows.live hy.live
      have hcount : (y.rename dir e id.num).iCount = s.iCount := hgrows.iCount.trans hy.iCount
      have hdrop : iput dir (((y.rename dir e id.num).hold dir).hold id) =
          .ok ⟨⟩ ((y.rename dir e id.num).hold id) := by
        rw [hold_comm]
        exact iput_hold (hlive.hold id).stays
      refine ⟨.inr id, (y.rename dir e id.num).hold id, (congrFun ((if_neg hcreat).trans
        (if_neg hperm)) _).trans (hstart ((bind_ok hrun₂).trans
          ((bind_ok (setIno_run _ dir e id.num)).trans ((bind_ok (brelse_grab
            (((y.rename dir e id.num).hold dir).hold id) (dir.dev, e.1))).trans
            (bind_ok hdrop))))), .nil ?_ (hgrows.bCount.trans hy.bCount)⟩
      change Function.update _ id _ = Function.update _ id _
      rw [hcount]

/-- **`open_namei`** gives back what it has taken, but for the inode that it returns, and for
buffers of blocks that it frees. -/
theorem openNamei_spec (hw : Whole s) (path : Path) (flag mode : BitVec 32) :
    ∃ r u, openNamei path flag mode s = .ok r u ∧
      Releases (s.truncated path flag) r.getRight? s u := by
  obtain ⟨r, hlook, hrun, hr⟩ := dirNamei_spec hw.toTree path
  rw [openNamei]
  cases r with
  | none =>
    have hnil : s.truncated path flag = [] := by
      rw [Kernel.truncated, Kernel.target, hlook]
    rw [hnil]
    exact ⟨.inl (-2), s, bind_ok hrun, Releases.refl s⟩
  | some p =>
    obtain ⟨start, name⟩ := p
    obtain ⟨hl, hd⟩ := hr start name rfl
    by_cases hname : name = []
    · have hnil : s.truncated path flag = [] := by
        rw [Kernel.truncated, Kernel.target, hlook]
        dsimp only
        rw [if_pos hname]
      rw [hnil]
      by_cases hflag : openFlag flag &&& (oAccmode ||| oCreat ||| oTrunc) = 0#32
      · exact ⟨.inr start, s.hold start, (bind_ok hrun).trans
          (congrFun ((if_pos hname).trans (if_pos hflag)) _), .nil rfl rfl⟩
      · exact ⟨.inl (-21), s, (bind_ok hrun).trans ((congrFun ((if_pos hname).trans
          (if_neg hflag)) _).trans (leave_hold hl _)), Releases.refl s⟩
    obtain ⟨dir, r, hf⟩ := findEntry_spec hw.toTree hl hd name
    cases r with
    | none =>
      have hnil : s.truncated path flag = [] := by
        rw [Kernel.truncated, hf.target_eq_none hlook]
      rw [hnil]
      obtain ⟨r, u, hrun', hu⟩ := openNamei_create hw hf.live hf.isDir hname flag mode
      exact ⟨r, u, (bind_ok hrun).trans ((congrFun (if_neg hname) _).trans
        ((bind_ok hf.run).trans hrun')), hu⟩
    | some i =>
      obtain ⟨id, ht, higet⟩ := hf.target hw.toTree hlook hname
      obtain ⟨r, u, hrun', hu⟩ := @openNamei_target _ _ _ _ _ hw _ flag ht higet
      exact ⟨r, u, (bind_ok hrun).trans ((congrFun (if_neg hname) _).trans
        ((bind_ok hf.run).trans hrun')), hu⟩

/-! ### `link` -/

/-- **There is room for an entry**: one is free, or there is a block for another one. -/
def hasRoom (t : State) : Bool :=
  (List.range (t.size / 16)).any (fun i => Directory.ino t (slot t i) == 0) ||
    t.size % 1024 != 0 ||
    match Bmap.bmap firstFree true (t.size / 1024) t with
    | .ok (z, _) => z != 0
    | .error _ => false

theorem hasRoom_eq_false (h : Dir t) : hasRoom t = false ↔ ∃ u, Directory.Full firstFree t u := by
  obtain ⟨v, hbmap, -⟩ := Bmap.create_spec h.toSound firstFree h.small
  rw [hasRoom, hbmap]
  simp only [Bool.or_eq_false_iff, List.any_eq_false, List.mem_range, beq_iff_eq,
    bne_eq_false_iff_eq]
  constructor
  · rintro ⟨⟨hentries, hedge⟩, hzero⟩
    exact ⟨v, hentries, hedge, by rw [hbmap, hzero]⟩
  · rintro ⟨u, hentries, hedge, hblock⟩
    rw [hbmap] at hblock
    exact ⟨⟨hentries, hedge⟩, (Prod.mk.inj (Except.ok.inj hblock)).1⟩

/-- **The blocks that `link` frees**: those of an inode whose links are too many to be counted, and
that nobody has. -/
def Kernel.linked (s : Kernel) (oldname newname : Path) : List (ℕ × ℕ) :=
  match Fs.namei s.disk s.task oldname, Fs.dirNamei s.disk s.task newname with
  | .ok (some old), .ok (some (start, name)) =>
    if isDir (s.disk.inode old) ∨ name = [] ∨ start.dev ≠ old.dev ∨
        s.permission start mayWrite = false then []
    else
      match Fs.findEntry s.disk s.task start name with
      | .ok (dir, none) =>
        if hasRoom (s.file dir) ∧ (s.inode old).nlinks = 255 ∧ s.iCount old = 0 then s.blocks old
        else []
      | _ => []
  | _, _ => []

theorem links_more {n : UInt8} : n + 1 = 0 ↔ n = 255 := by
  constructor
  · intro h
    rw [← UInt8.add_sub_cancel n 1, h]
    rfl
  · rintro rfl
    rfl

/-- **An inode gets a link more**, and is given back. -/
theorem link_tail (hc : Bitmap.Consistent s.bitmap) (ha : s.Allocated id)
    (hnodup : (s.blocks id).Nodup) (hmem : ∀ k ∈ s.blocks id, k ∈ s.bitmap.zones) :
    ∃ u, (do
      modify fun s => s.setInode id fun n => { n with nlinks := n.nlinks + 1 }
      leave id 0 : K ℤ) (s.hold id) = .ok 0 u ∧ u.iCount = s.iCount ∧
      (u.bCount = s.bCount ↔ ((s.inode id).nlinks = 255 → s.iCount id = 0 →
        ∀ k ∈ s.blocks id, s.bCount k = 0)) := by
  have hblocks := @setInode_blocks Inode.more s id id rfl rfl
  have hlinks : ((s.setInode id Inode.more).inode id).nlinks = (s.inode id).nlinks + 1 :=
    congrArg Inode.nlinks (setInode_self s id _)
  rw [← hblocks] at hnodup hmem
  obtain ⟨u, hrun, hcount, hbalanced, -⟩ :=
    @iput_spec (s.setInode id Inode.more) id hc ha hnodup hmem
  change u.bCount = s.bCount ↔ (((s.setInode id Inode.more).inode id).nlinks = 0 →
    s.iCount id = 0 → ∀ k ∈ (s.setInode id Inode.more).blocks id, s.bCount k = 0) at hbalanced
  rw [hlinks, hblocks, links_more] at hbalanced
  exact ⟨u, bind_ok hrun, hcount, hbalanced⟩

/-- **The new name is entered**, when it is not there. -/
theorem sysLink_enter (hw : Whole s) {old : Id} (hold : s.Live old)
    (hfile : isDir (s.disk.inode old) = false) (hl : s.Live dir)
    (hd : isDir (s.disk.inode dir) = true) (hname : name ≠ []) :
    ∃ r u, (do
      match ← addEntry dir name with
      | none => leaveLink dir old (-28)
      | some e => do
        setIno dir e old.num
        brelse (dir.dev, e.1)
        iput dir
        modify fun s => s.setInode old fun n => { n with nlinks := n.nlinks + 1 }
        leave old 0 : K ℤ) ((s.hold old).hold dir) = .ok r u ∧
      Releases (if hasRoom (s.file dir) ∧ (s.inode old).nlinks = 255 ∧ s.iCount old = 0
        then s.blocks old else []) none s u := by
  have hgood := hw.dir dir hl.alloc hd
  obtain ⟨sb, hsb⟩ := hl.alloc.super
  have hne : old ≠ dir := by
    rintro rfl
    exact Bool.noConfusion (hd.symm.trans hfile)
  obtain ⟨r, y, hrun, hgrows, hsome, hnone⟩ := addEntry_held (a := old) (c := dir) hw.maps hw.short
    hsb hgood.toDir hgood.first.1 hname
  rw [← hasRoom_eq_false hgood.toDir] at hnone
  cases r with
  | none =>
    rw [if_neg fun h => Bool.noConfusion (h.1.symm.trans (hnone.mp rfl))]
    exact ⟨-28, y, (bind_ok hrun).trans (leaveLink_hold' (hgrows.live hl) (hgrows.live hold) (-28)),
      .nil hgrows.iCount hgrows.bCount⟩
  | some e =>
    obtain ⟨hdir, hin⟩ := hsome e rfl
    have hroom : hasRoom (s.file dir) = true := by
      rw [← Bool.not_eq_false]
      intro h
      cases hnone.mpr h
    have hgrows' := hgrows.trans (rename_grows hgrows.maps hdir.toSound hin old.num)
    have hblocks := hgrows'.blocks hw (stored_of_isDir hl.alloc hd) hold.alloc hne
    obtain ⟨u, hrun', hcount, hbalanced⟩ := @link_tail (y.rename dir e old.num) old hgrows'.maps
      (hgrows'.live hold).alloc (hblocks ▸ hw.blocks_nodup hold.alloc)
      (hblocks ▸ fun k hk => hgrows'.zones (hw.blocks_mem hold.alloc k hk))
    rw [hblocks, hgrows'.bCount, hgrows'.iCount, hgrows'.nlinks] at hbalanced
    refine ⟨0, u, (bind_ok hrun).trans ((bind_ok (setIno_run _ dir e old.num)).trans ((bind_ok
      (brelse_grab (((y.rename dir e old.num).hold old).hold dir) (dir.dev, e.1))).trans ((bind_ok
      (iput_hold ((hgrows'.live hl).hold old).stays)).trans hrun'))),
      hcount.trans hgrows'.iCount, hbalanced.trans ?_⟩
    split_ifs with hlast
    · exact ⟨fun h => h hlast.2.1 hlast.2.2, fun h _ _ => h⟩
    · exact iff_of_true (fun h h' => absurd ⟨hroom, h, h'⟩ hlast)
        fun _ hk => absurd hk List.not_mem_nil

/-- **`link`** gives back what it has taken, but for buffers of blocks that it frees. -/
theorem sysLink_spec (hw : Whole s) (oldname newname : Path) :
    ∃ r u, sysLink oldname newname s = .ok r u ∧ Releases (s.linked oldname newname) none s u := by
  rw [sysLink, Kernel.linked]
  obtain ⟨r, hlook, hrun, hr⟩ := namei_spec hw.toTree oldname
  rw [hlook]
  cases r with
  | none => exact ⟨-2, s, bind_ok hrun, Releases.refl s⟩
  | some old =>
    have hold := hr old rfl
    obtain ⟨r, hlook', hrun', hr'⟩ := dirNamei_spec (hw.toTree.hold old) newname
    have hlook' : Fs.dirNamei s.disk s.task newname = .ok r := hlook'
    rw [bind_ok hrun, hlook']
    by_cases hfile : isDir (s.disk.inode old) = true
    · refine ⟨-1, s, (congrFun (if_pos hfile) _).trans (leave_hold hold _), ?_⟩
      cases r with
      | none => exact Releases.refl s
      | some p =>
        dsimp only
        rw [if_pos (Or.inl hfile)]
        exact Releases.refl s
    cases r with
    | none =>
      exact ⟨-13, s, (congrFun (if_neg hfile) _).trans ((bind_ok hrun').trans (leave_hold hold _)),
        Releases.refl s⟩
    | some p =>
      obtain ⟨start, name⟩ := p
      dsimp only
      obtain ⟨hl, hd⟩ := hr' start name rfl
      have hl' : s.Live start := hw.toTree.live hl.alloc hd
      by_cases hname : name = []
      · rw [if_pos (Or.inr (Or.inl hname))]
        exact ⟨-1, s, (congrFun (if_neg hfile) _).trans ((bind_ok hrun').trans
          ((congrFun (if_pos hname) _).trans (leaveLink_hold hold hl' (-1)))), Releases.refl s⟩
      by_cases hdev : start.dev ≠ old.dev
      · rw [if_pos (Or.inr (Or.inr (Or.inl hdev)))]
        exact ⟨-18, s, (congrFun (if_neg hfile) _).trans ((bind_ok hrun').trans
          ((congrFun ((if_neg hname).trans (if_pos hdev)) _).trans
            (leaveLink_hold' hl' hold (-18)))), Releases.refl s⟩
      by_cases hperm : s.permission start mayWrite = false
      · rw [if_pos (Or.inr (Or.inr (Or.inr hperm)))]
        exact ⟨-13, s, (congrFun (if_neg hfile) _).trans ((bind_ok hrun').trans
          ((congrFun ((if_neg hname).trans ((if_neg hdev).trans (if_pos hperm))) _).trans
            (leaveLink_hold' hl' hold (-13)))), Releases.refl s⟩
      rw [if_neg (by rintro (h | h | h | h); exacts [hfile h, hname h, hdev h, hperm h])]
      obtain ⟨dir, r, hf⟩ := findEntry_spec (hw.toTree.hold old) hl hd name
      have hlook'' : Fs.findEntry s.disk s.task start name = .ok (dir, r) := hf.look
      have hdir : s.Live dir := hw.toTree.live hf.live.alloc hf.isDir
      rw [hlook'']
      cases r with
      | none =>
        obtain ⟨r, u, hrun'', hu⟩ := sysLink_enter hw hold (Bool.not_eq_true _ ▸ hfile) hdir
          hf.isDir hname
        exact ⟨r, u, (congrFun (if_neg hfile) _).trans ((bind_ok hrun').trans
          ((congrFun ((if_neg hname).trans ((if_neg hdev).trans (if_neg hperm))) _).trans
            ((bind_ok hf.run).trans hrun''))), hu⟩
      | some i =>
        refine ⟨-17, s, (congrFun (if_neg hfile) _).trans ((bind_ok hrun').trans
          ((congrFun ((if_neg hname).trans ((if_neg hdev).trans (if_neg hperm))) _).trans
            ((bind_ok hf.run).trans ?_))), Releases.refl s⟩
        exact (bind_ok (brelse_grab ((s.hold old).hold dir) _)).trans
          (leaveLink_hold' hdir hold (-17))

/-! ### Every call -/

/-- **A call on names**, with its arguments. -/
inductive Call
  | openNamei (path : Path) (flag mode : BitVec 32)
  | mknod (path : Path) (mode : BitVec 32) (dev : ℕ)
  | rmdir (path : Path)
  | unlink (path : Path)
  | link (oldname newname : Path)

/-- What the call returns: a number, or the inode that `open_namei` stores in `*res_inode`. -/
def Call.run : Call → K (ℤ ⊕ Id)
  | openNamei path flag mode => Names.openNamei path flag mode
  | mknod path mode dev => .inl <$> sysMknod path mode dev
  | rmdir path => .inl <$> sysRmdir path
  | unlink path => .inl <$> sysUnlink path
  | link oldname newname => .inl <$> sysLink oldname newname

/-- **The blocks that a call frees.** -/
def Call.frees (s : Kernel) : Call → List (ℕ × ℕ)
  | openNamei path flag _ => s.truncated path flag
  | mknod .. => []
  | rmdir path => s.removed path
  | unlink path => s.unlinked path
  | link oldname newname => s.linked oldname newname

theorem map_ok {β : Type} {m : K α} {f : α → β} {a : α} (h : m s = .ok a u) :
    (f <$> m) s = .ok (f a) u := by
  change EStateM.map f m s = _
  rw [EStateM.map, h]

/-- **Every call returns**, and what its counts are. -/
theorem Call.spec (hw : Whole s) (c : Call) :
    ∃ r u, c.run s = .ok r u ∧ Releases (c.frees s) r.getRight? s u := by
  cases c with
  | openNamei path flag mode => exact openNamei_spec hw path flag mode
  | mknod path mode dev =>
    obtain ⟨r, u, hrun, hu⟩ := sysMknod_spec hw path mode dev
    exact ⟨.inl r, u, map_ok hrun, hu⟩
  | rmdir path =>
    obtain ⟨r, u, hrun, hu⟩ := sysRmdir_spec hw path
    exact ⟨.inl r, u, map_ok hrun, hu⟩
  | unlink path =>
    obtain ⟨r, u, hrun, hu⟩ := sysUnlink_spec hw path
    exact ⟨.inl r, u, map_ok hrun, hu⟩
  | link oldname newname =>
    obtain ⟨r, u, hrun, hu⟩ := sysLink_spec hw oldname newname
    exact ⟨.inl r, u, map_ok hrun, hu⟩

end Linux011.Fs.Names

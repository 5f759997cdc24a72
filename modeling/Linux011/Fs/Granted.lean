import Linux011.Fs.Namei

/-!
# `sys_access`

`sys_access` of `fs/open.c` has a copy of its own of the rule that `permission` applies, for the
real ids of the task instead of the effective ones. Where the group decides, it looks at the bits of
the owner; and of the mask it takes the three lowest bits, where `permission` takes all.
-/

namespace Linux011.Fs

/-- A task with its real ids as well. -/
structure RealTask extends Task where
  uid : ℕ
  gid : ℕ

/-- The task, as it would be with its real ids. -/
def RealTask.real (t : RealTask) : Task := { t.toTask with euid := t.uid, egid := t.gid }

/-- **`sys_access`** -/
def sysAccess (d : Disk) (t : RealTask) (path : Path) (mode : BitVec 32) : Look ℤ := do
  let mode := mode &&& 7#32
  match ← namei d t.toTask path with
  | none => pure (-13)
  | some id =>
    let n := d.inode id
    let iMode := n.mode.setWidth 32 &&& 0o777#32
    let res := if t.uid = n.uid then iMode >>> 6 else if t.gid = n.gid then iMode >>> 6 else iMode
    if res &&& 7#32 &&& mode = mode then pure 0
    else if t.uid = 0 ∧ (mode &&& 1#32 = 0#32 ∨ iMode &&& 0o111#32 ≠ 0#32) then pure 0
    else pure (-13)

/-! ### The two rules -/

/-- The bits of the owner, in the lowest place. -/
def ownerBits (n : Inode) : BitVec 32 := n.mode.setWidth 32 >>> 6

/-- The bits of the group. -/
def groupBits (n : Inode) : BitVec 32 := n.mode.setWidth 32 >>> 3

/-- The bits of the others. -/
def otherBits (n : Inode) : BitVec 32 := n.mode.setWidth 32

/-- The bits `sys_access` looks at. -/
def accessBits (t : RealTask) (n : Inode) : BitVec 32 :=
  if t.uid = n.uid ∨ t.gid = n.gid then ownerBits n else otherBits n

/-- The bits `permission` looks at. -/
def permissionBits (t : RealTask) (n : Inode) : BitVec 32 :=
  if t.uid = n.uid then ownerBits n else if t.gid = n.gid then groupBits n else otherBits n

/-- **Where the two rules agree**: the mask asks for nothing but the three permissions, and if the
group decides, its bits and those of the owner give the same answer; or the mask asks for more,
which `permission` refuses, and `sys_access` refuses the three permissions. -/
def Agree (t : RealTask) (n : Inode) (mask : BitVec 32) : Prop :=
  (mask &&& 7#32 = mask ∧ (t.uid ≠ n.uid → t.gid = n.gid →
      (ownerBits n &&& mask = mask ↔ groupBits n &&& mask = mask))) ∨
    (mask &&& 7#32 ≠ mask ∧ accessBits t n &&& (mask &&& 7#32) ≠ mask &&& 7#32)

variable {d : Disk} {t : RealTask} {path : Path} {id : Id} {mask : BitVec 32}

/-- The upper bits of the mode do not come into the three lowest. -/
theorem mode_shift (m : BitVec 32) : ((m &&& 0o777#32) >>> 6) &&& 7#32 = (m >>> 6) &&& 7#32 := by
  rw [BitVec.ushiftRight_and_distrib, BitVec.and_assoc]
  rfl

theorem mode_low (m : BitVec 32) : (m &&& 0o777#32) &&& 7#32 = m &&& 7#32 := by
  rw [BitVec.and_assoc]
  rfl

/-- **What `sys_access` grants**, to a task whose real user is not the superuser. -/
theorem sysAccess_eq_zero (hn : namei d t.toTask path = .ok (some id)) (hu : t.uid ≠ 0) :
    sysAccess d t path mask = .ok 0 ↔
      accessBits t (d.inode id) &&& (mask &&& 7#32) = mask &&& 7#32 := by
  obtain ⟨m, hm⟩ : ∃ m, (d.inode id).mode.setWidth 32 = m := ⟨_, rfl⟩
  have hseven (x : BitVec 32) : x &&& 7#32 &&& (mask &&& 7#32) = x &&& (mask &&& 7#32) := by
    rw [BitVec.and_comm mask, ← BitVec.and_assoc, ← BitVec.and_assoc, BitVec.and_assoc x]
    rfl
  -- the two branches for owner and group are one
  have hres : (if t.uid = (d.inode id).uid then (m &&& 0o777#32) >>> 6
      else if t.gid = (d.inode id).gid then (m &&& 0o777#32) >>> 6 else m &&& 0o777#32) &&&
        7#32 = accessBits t (d.inode id) &&& 7#32 := by
    rw [accessBits, ownerBits, otherBits, hm]
    by_cases ho : t.uid = (d.inode id).uid
    · rw [if_pos ho, if_pos (Or.inl ho), mode_shift]
    · by_cases hg : t.gid = (d.inode id).gid
      · rw [if_neg ho, if_pos hg, if_pos (Or.inr hg), mode_shift]
      · rw [if_neg ho, if_neg hg, if_neg (by rintro (h | h) <;> contradiction), mode_low]
  have hrun : sysAccess d t path mask =
      if accessBits t (d.inode id) &&& (mask &&& 7#32) = mask &&& 7#32 then .ok 0
      else .ok (-13) := by
    rw [sysAccess, hn]
    change (if _ then _ else _) = _
    rw [hm, hres, hseven]
    split
    · rfl
    · exact if_neg fun h => hu h.1
  rw [hrun]
  split
  · next h => exact ⟨fun _ => h, fun _ => rfl⟩
  · next h =>
    constructor
    · intro he
      exact absurd (Except.ok.inj he) (by decide)
    · exact fun hb => absurd hb h

/-- **What `permission` grants** to the task with its real ids. -/
theorem permission_real (hl : (d.inode id).nlinks ≠ 0) (hu : t.uid ≠ 0) :
    permission t.real id (d.inode id) mask = true ↔
      permissionBits t (d.inode id) &&& mask &&& 7#32 = mask := by
  have hsu : (t.real.euid == 0) = false := beq_eq_false_iff_ne.mpr hu
  rw [permission, if_neg fun h => hl h.2, hsu, Bool.or_false, beq_iff_eq]
  rfl

/-- **`sys_access` agrees with `permission`** exactly where the two rules agree. -/
theorem sysAccess_iff (hn : namei d t.toTask path = .ok (some id))
    (hl : (d.inode id).nlinks ≠ 0) (hu : t.uid ≠ 0) :
    (sysAccess d t path mask = .ok 0 ↔ permission t.real id (d.inode id) mask = true) ↔
      Agree t (d.inode id) mask := by
  rw [sysAccess_eq_zero hn hu, permission_real hl hu, Agree]
  by_cases h7 : mask &&& 7#32 = mask
  · -- nothing but the three permissions is asked for
    have hperm : permissionBits t (d.inode id) &&& mask &&& 7#32 =
        permissionBits t (d.inode id) &&& mask := by rw [BitVec.and_assoc, h7]
    rw [h7, hperm, accessBits, permissionBits]
    by_cases ho : t.uid = (d.inode id).uid
    · simp [ho]
    · by_cases hg : t.gid = (d.inode id).gid
      · simp [ho, hg]
      · simp [ho, hg]
  · -- `permission` refuses what it does not know
    have hno : ¬permissionBits t (d.inode id) &&& mask &&& 7#32 = mask := by
      intro he
      refine h7 ?_
      conv_lhs => rw [← he]
      rw [BitVec.and_assoc]
      exact he
    constructor
    · intro h
      exact Or.inr ⟨h7, fun ha => hno (h.mp ha)⟩
    · rintro (h | h)
      · exact absurd h.1 h7
      · exact ⟨fun ha => absurd ha h.2, fun hp => absurd hp hno⟩

/-! ### A file of the group -/

/-- A file that its owner may read and write, and its group may read. -/
def groupFile : Inode where
  mode := 0o100640#16
  uid := 5
  gid := 7
  nlinks := 1
  size := 0
  zone _ := .hole
  data _ := 0
  mount := false

/-- The directory it is in, under the name "a"; other entries do not matter. -/
def groupDir : Inode where
  mode := 0o40755#16
  uid := 0
  gid := 0
  nlinks := 2
  size := 48
  zone _ := .good
  data x := if x = 32 then 2 else if x = 34 then 97 else 0
  mount := false

/-- The two. -/
def groupDisk : Disk := ⟨fun id => if id.num = 2 then groupFile else groupDir, fun _ => ⟨0, none⟩⟩

/-- Somebody else in the group, in that directory. -/
def groupTask : RealTask where
  euid := 9
  egid := 7
  root := ⟨1, 1⟩
  pwd := ⟨1, 1⟩
  uid := 9
  gid := 7

theorem groupName : (0 : UInt8) ∉ [(97 : UInt8)] := by decide

/-- "a" -/
def groupPath : Path := ⟨[97], groupName⟩

theorem namei_groupPath : namei groupDisk groupTask.toTask groupPath = .ok (some ⟨1, 2⟩) :=
  rfl

/-- For reading, the group has what the owner has. -/
theorem sysAccess_iff_read :
    (sysAccess groupDisk groupTask groupPath mayRead = .ok 0 ↔
      permission groupTask.real ⟨1, 2⟩ groupFile mayRead = true) ↔
        Agree groupTask groupFile mayRead :=
  sysAccess_iff namei_groupPath (by decide) (by decide)

/-- **For writing it has not**, and `sys_access` grants it all the same. -/
theorem not_sysAccess : ¬∀ (d : Disk) (t : RealTask) (path : Path) (id : Id) (mask : BitVec 32),
    namei d t.toTask path = .ok (some id) → (d.inode id).nlinks ≠ 0 → t.uid ≠ 0 →
      (sysAccess d t path mask = .ok 0 ↔ permission t.real id (d.inode id) mask = true) := by
  intro hall
  have h := hall groupDisk groupTask groupPath ⟨1, 2⟩ mayWrite namei_groupPath (by decide)
    (by decide)
  have hgrant : sysAccess groupDisk groupTask groupPath mayWrite = .ok 0 :=
    (sysAccess_eq_zero namei_groupPath (by decide)).mpr (by decide)
  have hrefuse : permission groupTask.real ⟨1, 2⟩ groupFile mayWrite = false := by decide
  exact absurd (hrefuse.symm.trans (h.mp hgrant)) Bool.false_ne_true

end Linux011.Fs

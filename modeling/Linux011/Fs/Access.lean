import Linux011.Fs.Confined
import Linux011.Fs.Open
import Linux011.Lib.Refs

/-!
# What a descriptor is good for

`open_namei` asks `permission` once, for the access that the flags ask for, and the flags
are kept in the file. `sys_read` and `sys_write` look at them for pipes only. So the bytes
of a regular file go through any descriptor (`Linux011.Fs.not_honoured`): a file that was
opened for reading can be written, though nobody has ever asked whether it may be.

A task that keeps to the flags itself is on the safe side
(`Linux011.Fs.descriptors_honoured`): what a file has been opened for has been granted,
but for the files that an open makes, which nobody asks about either.
-/

namespace Linux011.Fs

variable {w w' : World} {d : Disk} {t : Task} {id : Id} {fd f : ℕ} {n : Inode} {path : Path}
  {flag mode mask mask' : BitVec 32} {fresh : ℕ → Option ℕ} {room : Bool} {bytes : List UInt8}
  {alloc : ℕ → Bool} {count : ℤ}

/-! ### Calls and what they are for -/

/-- Where a write begins. -/
def start (w : World) (f : ℕ) : ℕ :=
  if (w.file f).flags &&& oAppend ≠ 0#32 then (w.disk.inode (w.file f).inode).size
  else (w.file f).pos.toNat

/-- A write to the regular file has something to store, and the block to store it in. -/
def Stores (w : World) (f : ℕ) (bytes : List UInt8) (alloc : ℕ → Bool) : Prop :=
  let n := w.disk.inode (w.file f).inode
  isReg n = true ∧ bytes ≠ [] ∧ n.zone (start w f / 1024) ≠ .bad ∧
    (n.zone (start w f / 1024) = .hole → alloc (start w f / 1024) = true)

/-- A read of the regular file has something to deliver. -/
def Delivers (w : World) (f : ℕ) (count : ℤ) : Prop :=
  let n := w.disk.inode (w.file f).inode
  isReg n = true ∧ 0 < count ∧ (w.file f).pos < n.size ∧
    n.zone ((w.file f).pos.toNat / 1024) ≠ .bad

/-- The number of a new inode is not that of an open file. -/
def Enabled (w : World) : Act → Prop
  | .open _ _ _ fresh _ => ∀ dev num, fresh dev = some num → ∀ fd f, w.filp fd = some f →
    (w.file f).inode ≠ ⟨dev, num⟩
  | _ => True

/-- The open has to make the file. -/
def Makes (w : World) (path : Path) : Prop :=
  ∃ dir name dir', dirNamei w.disk w.task path = .ok (some (dir, name)) ∧
    findEntry w.disk w.task dir name = .ok (dir', none)

/-- The mode a file is made with allows its owner the access that the open asks for. -/
def SelfGrants (w : World) (flag mode : BitVec 32) : Prop :=
  permission w.task ⟨0, 0⟩
    (newInode w.task (newMode (mode &&& 0o777#32 &&& ~~~w.umask) w.umask))
    (accMode (openFlag flag)) = true

/-- **The task keeps to its flags**: it writes what it has opened for writing and reads
what it has opened for reading, and opens no file it makes for more than the mode of the
file allows. -/
def Careful (w : World) : Act → Prop
  | .open path flag mode _ _ => Makes w path → SelfGrants w flag mode
  | .read fd count => ∀ f, w.filp fd = some f → Delivers w f count →
    Asks (w.file f).flags mayRead = true
  | .write fd bytes alloc => ∀ f, w.filp fd = some f → Stores w f bytes alloc →
    Asks (w.file f).flags mayWrite = true
  | _ => True

/-! ### Permission -/

/-- Whoever may do more may do less. -/
theorem permission_mono (h : permission t id n mask = true) (hm : mask' &&& mask = mask') :
    permission t id n mask' = true := by
  unfold permission at h ⊢
  dsimp only at h ⊢
  split at h
  · cases h
  · next hlinks =>
    rw [if_neg hlinks]
    rw [Bool.or_eq_true, beq_iff_eq] at h ⊢
    refine h.imp_left fun h => ?_
    generalize (if t.euid = n.uid then n.mode.setWidth 32 >>> 6
      else if t.egid = n.gid then n.mode.setWidth 32 >>> 3 else n.mode.setWidth 32) = m at h ⊢
    calc m &&& mask' &&& 7#32 = m &&& (mask' &&& mask) &&& 7#32 := by rw [hm]
      _ = mask' &&& (m &&& mask &&& 7#32) := by ac_rfl
      _ = mask' := by rw [h, hm]

/-- Only the owner, the mode and the number of links matter. -/
theorem permission_congr {n' : Inode} (hm : n'.mode = n.mode) (hu : n'.uid = n.uid)
    (hg : n'.gid = n.gid) (hl : n'.nlinks = n.nlinks) :
    permission t id n' mask = permission t id n mask := by
  unfold permission
  rw [hm, hu, hg, hl]

/-- What is asked for in part is asked for. -/
theorem permission_of_asks (h : permission t id n (accMode (openFlag flag)) = true)
    (ha : Asks flag mask = true) : permission t id n mask = true := by
  refine permission_mono h ?_
  rw [BitVec.and_comm]
  exact beq_iff_eq.mp ha

/-! ### `open_namei` -/

/-- No way out of a call says anything. -/
abbrev AnyHalt : Halt → World → Prop := fun _ _ => True

theorem wp_lookup {α : Type} {g : Disk → Task → Look α} {Q : α → World → Prop}
    (h : ∀ a, g w.disk w.task = .ok a → Q a w) : wp (lookup g) Q AnyHalt w := by
  unfold lookup
  rw [wp_bind, wp_get]
  cases hg : g w.disk w.task with
  | ok a => exact h a hg
  | error e => exact trivial

/-- **The descriptors are as they were**, and so are the modes of the files that have not
just been made. -/
structure Frame (fresh : ℕ → Option ℕ) (w w' : World) : Prop where
  filp : w'.filp = w.filp
  file : w'.file = w.file
  granted : w'.granted = w.granted
  task : w'.task = w.task
  mode : ∀ id, (w'.disk.inode id).mode = (w.disk.inode id).mode ∨ fresh id.dev = some id.num

theorem Frame.refl (w : World) : Frame fresh w w := ⟨rfl, rfl, rfl, rfl, fun _ => Or.inl rfl⟩

theorem inode_setInode_self {g : Inode → Inode} :
    (w.setInode id g).disk.inode id = g (w.disk.inode id) := Function.update_self ..

theorem inode_setInode_of_ne {g : Inode → Inode} {id' : Id} (h : id' ≠ id) :
    (w.setInode id g).disk.inode id' = w.disk.inode id' := Function.update_of_ne h ..

/-- A change that keeps the mode. -/
theorem Frame.setInode {g : Inode → Inode} (h : Frame fresh w w')
    (hg : ∀ n, (g n).mode = n.mode) (id : Id) : Frame fresh w (w'.setInode id g) := by
  refine ⟨h.filp, h.file, h.granted, h.task, fun id' => ?_⟩
  refine (h.mode id').imp_left fun hmode => ?_
  rw [← hmode]
  by_cases hid : id' = id
  · rw [hid, inode_setInode_self, hg]
  · rw [inode_setInode_of_ne hid]

/-- A file is made. -/
theorem Frame.make (h : Frame fresh w w') (hf : fresh id.dev = some id.num) (n : Inode) :
    Frame fresh w (w'.setInode id fun _ => n) := by
  refine ⟨h.filp, h.file, h.granted, h.task, fun id' => ?_⟩
  by_cases hid : id' = id
  · rw [hid]
    exact Or.inr hf
  · rw [inode_setInode_of_ne hid]
    exact h.mode id'

theorem not_isReg_of_isDir (h : isDir n = true) : isReg n = false := by
  unfold isDir at h
  unfold isReg
  rw [beq_iff_eq.mp h]
  decide

/-- **`open_namei`** returns a regular file only with permission, or has made it. -/
theorem wp_openNamei (hc : Makes w path → permission w.task ⟨0, 0⟩
      (newInode w.task (newMode mode w.umask)) (accMode (openFlag flag)) = true) :
    wp (openNamei path flag mode fresh room) (fun r w' => Frame fresh w w' ∧
      ∀ id, r = .inr id → isReg (w'.disk.inode id) = true →
        permission w.task id (w'.disk.inode id) (accMode (openFlag flag)) = true) AnyHalt w := by
  unfold openNamei
  dsimp only
  rw [wp_bind]
  refine wp_lookup fun r hdir => ?_
  have herr : ∀ e : ℤ, Frame fresh w w ∧ ∀ id, (.inl e : ℤ ⊕ Id) = .inr id →
      isReg (w.disk.inode id) = true →
      permission w.task id (w.disk.inode id) (accMode (openFlag flag)) = true :=
    fun e => ⟨.refl w, fun id h => by cases h⟩
  match r with
  | none => exact herr _
  | some (dir, name) =>
    refine wp_ite.mpr ⟨fun _ => wp_ite.mpr ⟨fun _ => ⟨.refl w, fun id hid hreg => ?_⟩,
      fun _ => herr _⟩, fun _ => ?_⟩
    · obtain rfl := Sum.inr.inj hid
      rw [not_isReg_of_isDir (dirNamei_isDir hdir).1] at hreg
      cases hreg
    · rw [wp_bind]
      refine wp_lookup fun r hfind => ?_
      match r with
      | (dir', none) =>
        dsimp only
        rw [wp_bind, wp_get]
        refine wp_ite.mpr ⟨fun _ => herr _, fun _ => wp_ite.mpr ⟨fun _ => herr _, fun _ => ?_⟩⟩
        cases hfresh : fresh dir'.dev with
        | none => exact herr _
        | some num =>
          refine wp_ite.mpr ⟨fun _ => ?_, fun _ => herr _⟩
          rw [wp_bind, wp_modify, wp_bind, wp_modify, wp_pure]
          have hmade : Frame fresh w (w.setInode ⟨dir'.dev, num⟩ fun _ =>
              newInode w.task (newMode mode w.umask)) := (Frame.refl w).make hfresh
            (newInode w.task (newMode mode w.umask))
          refine ⟨hmade.setInode (g := fun n => addEntry n (name.take 14) num) (fun _ => rfl) dir',
            fun id hid _ => ?_⟩
          obtain rfl := Sum.inr.inj hid
          have hself := hc ⟨dir, name, dir', hdir, hfind⟩
          -- adding the entry does not change what is asked of the new inode
          have hnew : ∀ n, permission w.task ⟨dir'.dev, num⟩ (addEntry n (name.take 14) num)
              (accMode (openFlag flag)) = permission w.task ⟨dir'.dev, num⟩ n
                (accMode (openFlag flag)) := fun n => permission_congr rfl rfl rfl rfl
          have hdev : permission w.task ⟨dir'.dev, num⟩ (newInode w.task (newMode mode w.umask))
              (accMode (openFlag flag)) = true := by
            rw [← hself]
            unfold permission newInode
            simp
          by_cases hd : (⟨dir'.dev, num⟩ : Id) = dir'
          · rw [← hd, inode_setInode_self, inode_setInode_self, hd, ← hd, hnew, hdev]
          · rw [inode_setInode_of_ne hd, inode_setInode_self, hdev]
      | (dir', some i) =>
        dsimp only
        refine wp_ite.mpr ⟨fun _ => herr _, fun _ => ?_⟩
        rw [wp_bind]
        refine wp_lookup fun id _ => ?_
        rw [wp_bind, wp_get]
        refine wp_ite.mpr ⟨fun _ => herr _, fun hperm => ?_⟩
        rw [not_or, not_not] at hperm
        rw [wp_bind, wp_modify, wp_pure]
        split
        · refine ⟨(Frame.refl w).setInode (g := truncate) (fun _ => rfl) id, fun id' hid _ => ?_⟩
          obtain rfl := Sum.inr.inj hid
          rw [inode_setInode_self, ← hperm.2]
          exact permission_congr rfl rfl rfl rfl
        · refine ⟨.refl w, fun id' hid _ => ?_⟩
          obtain rfl := Sum.inr.inj hid
          exact hperm.2

/-! ### The invariant -/

theorem file_setFile_self {g : File → File} : (w.setFile f g).file f = g (w.file f) :=
  Function.update_self ..

theorem file_setFile_of_ne {g : File → File} {f' : ℕ} (h : f' ≠ f) :
    (w.setFile f g).file f' = w.file f' := Function.update_of_ne h ..

/-- **What holds of the descriptors**: files that are in use are counted, and what one has
been opened for has been granted. -/
structure Inv (w : World) : Prop where
  lt : ∀ fd f, w.filp fd = some f → fd < 20
  counted : ∀ f, refs (Finset.range 20) w.filp f ≤ (w.file f).count
  granted : ∀ fd f, w.filp fd = some f → isReg (w.disk.inode (w.file f).inode) = true →
    ∀ mask, Asks (w.file f).flags mask = true → w.granted f mask = true

/-- A file whose count is 0 is nobody's. -/
theorem Inv.filp_ne (h : Inv w) (h0 : (w.file f).count = 0) (fd : ℕ) : w.filp fd ≠ some f := by
  intro hfd
  have hpos := refs_pos (Finset.mem_range.mpr (h.lt fd f hfd)) hfd
  have := h.counted f
  omega

/-- What the calls do that open nothing: the modes stay, and so do the flags, inodes and
grants of the files. -/
structure Quiet (w w' : World) : Prop where
  granted : w'.granted = w.granted
  flags : ∀ f, (w'.file f).flags = (w.file f).flags
  inode : ∀ f, (w'.file f).inode = (w.file f).inode
  mode : ∀ id, (w'.disk.inode id).mode = (w.disk.inode id).mode

theorem Quiet.refl (w : World) : Quiet w w := ⟨rfl, fun _ => rfl, fun _ => rfl, fun _ => rfl⟩

theorem Quiet.setFile {g : File → File} (h : Quiet w w') (hfl : ∀ file, (g file).flags = file.flags)
    (hid : ∀ file, (g file).inode = file.inode) (f : ℕ) : Quiet w (w'.setFile f g) := by
  refine ⟨h.granted, fun f' => ?_, fun f' => ?_, h.mode⟩
  · rw [← h.flags]
    by_cases hf : f' = f
    · rw [hf, file_setFile_self, hfl]
    · rw [file_setFile_of_ne hf]
  · rw [← h.inode]
    by_cases hf : f' = f
    · rw [hf, file_setFile_self, hid]
    · rw [file_setFile_of_ne hf]

theorem isReg_congr {n' : Inode} (h : n'.mode = n.mode) : isReg n' = isReg n := by
  unfold isReg
  rw [h]

/-- Such a call keeps the invariant, if it keeps the counts. -/
theorem Inv.quiet (h : Inv w) (hq : Quiet w w') (hlt : ∀ fd f, w'.filp fd = some f → fd < 20)
    (hc : ∀ f, refs (Finset.range 20) w'.filp f ≤ (w'.file f).count)
    (hf : ∀ fd f, w'.filp fd = some f → ∃ fd, w.filp fd = some f) : Inv w' := by
  refine ⟨hlt, hc, fun fd f hfd hreg mask ha => ?_⟩
  obtain ⟨fd', hfd'⟩ := hf fd f hfd
  rw [hq.inode, isReg_congr (hq.mode _)] at hreg
  rw [hq.flags] at ha
  rw [hq.granted]
  exact h.granted fd' f hfd' hreg mask ha

/-! ### The calls -/

/-- **`sys_open`** grants what it is asked for. -/
theorem wp_sysOpen (hi : Inv w) (he : Enabled w (.open path flag mode fresh room))
    (hc : Careful w (.open path flag mode fresh room)) :
    wp (sysOpen path flag mode fresh room) (fun _ w' => Inv w') AnyHalt w := by
  unfold sysOpen
  rw [wp_bind, wp_get]
  dsimp only
  cases hfd : (List.range 20).find? fun fd => (w.filp fd).isNone with
  | none => exact hi
  | some fd =>
    have hlt : fd < 20 := List.mem_range.mp (List.mem_of_find?_eq_some hfd)
    have hfree : w.filp fd = none := by simpa using List.find?_some hfd
    dsimp only
    rw [wp_bind, wp_modify]
    cases hf : (List.range 64).find? fun f => (w.file f).count = 0 with
    | none => exact ⟨hi.lt, hi.counted, hi.granted⟩
    | some f =>
      have h0 : (w.file f).count = 0 := by simpa using List.find?_some hf
      dsimp only
      rw [wp_bind, wp_modify, wp_bind]
      obtain ⟨w₁, hw₁⟩ : ∃ w₁, ((w.keepOnExec fd).setFilp fd (some f)).setFile f
        (fun file => { file with count := file.count + 1 }) = w₁ := ⟨_, rfl⟩
      have hfilp₁ : w₁.filp = Function.update w.filp fd (some f) := by rw [← hw₁]; rfl
      have hfile₁ : ∀ f', f' ≠ f → w₁.file f' = w.file f' := fun f' hf' => by
        rw [← hw₁, file_setFile_of_ne hf']
        rfl
      have hsame : w₁.disk = w.disk ∧ w₁.task = w.task ∧ w₁.umask = w.umask ∧
          w₁.granted = w.granted := by
        rw [← hw₁]
        exact ⟨rfl, rfl, rfl, rfl⟩
      obtain ⟨hdisk, htask, humask, hgranted⟩ := hsame
      rw [hw₁]
      refine wp_post (wp_openNamei fun hm => ?_) ?_
      · rw [Makes, hdisk, htask] at hm
        rw [htask, humask]
        exact hc hm
      rintro r w₂ ⟨hfr, hr⟩
      -- the other files are as they were
      have hold : ∀ fd' f', w.filp fd' = some f' → f' ≠ f ∧ w₂.file f' = w.file f' ∧
          isReg (w₂.disk.inode (w.file f').inode) = isReg (w.disk.inode (w.file f').inode) := by
        intro fd' f' hfd'
        have hne : f' ≠ f := by
          rintro rfl
          exact hi.filp_ne h0 fd' hfd'
        refine ⟨hne, by rw [hfr.file, hfile₁ f' hne], isReg_congr ?_⟩
        rw [← hdisk]
        exact (hfr.mode _).resolve_right fun hfresh => he _ _ hfresh fd' f' hfd' rfl
      have hrefs : refs (Finset.range 20) w.filp f = 0 := by
        rw [refs_eq_zero_iff]
        exact fun fd' _ => hi.filp_ne h0 fd'
      have hmem : fd ∈ Finset.range 20 := Finset.mem_range.mpr hlt
      match r with
      | .inl e =>
        rw [wp_bind, wp_modify, wp_pure]
        have hfilp : (w₂.setFilp fd none).filp = w.filp := by
          change Function.update w₂.filp fd none = _
          rw [hfr.filp, hfilp₁, Function.update_idem, ← hfree, Function.update_eq_self]
        refine ⟨fun fd' f' hfd' => hi.lt fd' f' (hfilp ▸ hfd'), fun f' => ?_,
          fun fd' f' hfd' hreg mask ha => ?_⟩
        · change refs _ (w₂.setFilp fd none).filp f' ≤ _
          rw [hfilp]
          by_cases hff : f' = f
          · rw [hff, hrefs]
            omega
          · rw [file_setFile_of_ne hff]
            change _ ≤ (w₂.file f').count
            rw [hfr.file, hfile₁ f' hff]
            exact hi.counted f'
        · change (w₂.setFilp fd none).filp fd' = some f' at hfd'
          rw [hfilp] at hfd'
          obtain ⟨hff, hfile, hregs⟩ := hold fd' f' hfd'
          rw [file_setFile_of_ne hff] at hreg ha
          change isReg (w₂.disk.inode (w₂.file f').inode) = true at hreg
          change Asks (w₂.file f').flags mask = true at ha
          change w₂.granted f' mask = true
          rw [hfile] at hreg ha
          rw [hfr.granted, hgranted]
          exact hi.granted fd' f' hfd' (hregs ▸ hreg) mask ha
      | .inr id =>
        dsimp only
        rw [wp_bind, wp_get]
        refine wp_ite.mpr ⟨fun _ => trivial, fun _ => ?_⟩
        rw [wp_bind, wp_modify, wp_bind, wp_modify, wp_pure]
        obtain ⟨file, hnew⟩ : ∃ file, File.mk (w₂.disk.inode id).mode flag 1 id 0 = file := ⟨_, rfl⟩
        rw [hnew]
        have hfilp : w₂.filp = Function.update w.filp fd (some f) := hfr.filp.trans hfilp₁
        refine ⟨fun fd' f' hfd' => ?_, fun f' => ?_, fun fd' f' hfd' hreg mask ha => ?_⟩
        · change w₂.filp fd' = some f' at hfd'
          rw [hfilp] at hfd'
          by_cases hdd : fd' = fd
          · rw [hdd]
            exact hlt
          · rw [Function.update_of_ne hdd] at hfd'
            exact hi.lt fd' f' hfd'
        · change refs _ w₂.filp f' ≤ ((w₂.setFile f fun _ => file).file f').count
          rw [hfilp]
          have hup := refs_update (t := w.filp) hmem (some f) f'
          rw [hfree, if_neg (by simp)] at hup
          by_cases hff : f' = f
          · rw [hff, hrefs, if_pos rfl] at hup
            rw [hff, file_setFile_self, ← hnew]
            change _ ≤ 1
            omega
          · rw [if_neg (by simpa using Ne.symm hff)] at hup
            rw [file_setFile_of_ne hff, hfr.file, hfile₁ f' hff]
            have := hi.counted f'
            omega
        · change w₂.filp fd' = some f' at hfd'
          rw [hfilp] at hfd'
          change isReg (w₂.disk.inode ((w₂.setFile f fun _ => file).file f').inode) = true at hreg
          change Asks ((w₂.setFile f fun _ => file).file f').flags mask = true at ha
          change Function.update w₂.granted f _ f' mask = true
          by_cases hff : f' = f
          · subst hff
            rw [file_setFile_self, ← hnew] at hreg ha
            rw [Function.update_self, Bool.and_eq_true]
            have hperm := hr id rfl hreg
            rw [← hfr.task] at hperm
            exact ⟨ha, permission_of_asks hperm ha⟩
          · have hdd : fd' ≠ fd := by
              rintro rfl
              rw [Function.update_self] at hfd'
              exact hff (Option.some.inj hfd').symm
            rw [Function.update_of_ne hdd] at hfd'
            obtain ⟨-, hfile, hregs⟩ := hold fd' f' hfd'
            rw [file_setFile_of_ne hff, hfile] at hreg ha
            rw [Function.update_of_ne hff, hfr.granted, hgranted]
            exact hi.granted fd' f' hfd' (hregs ▸ hreg) mask ha

/-- **`sys_dup`** -/
theorem wp_sysDup (hi : Inv w) : wp (sysDup fd) (fun _ w' => Inv w') AnyHalt w := by
  unfold sysDup
  rw [wp_bind, wp_get]
  refine wp_ite.mpr ⟨fun _ => hi, fun _ => ?_⟩
  cases hfd : w.filp fd with
  | none => exact hi
  | some f =>
    dsimp only
    cases harg : (List.range 20).find? fun arg => (w.filp arg).isNone with
    | none => exact hi
    | some arg =>
      have hlt : arg < 20 := List.mem_range.mp (List.mem_of_find?_eq_some harg)
      have hfree : w.filp arg = none := by simpa using List.find?_some harg
      dsimp only
      rw [wp_bind, wp_modify, wp_pure]
      have hbase : Quiet w ((w.keepOnExec arg).setFilp arg (some f)) :=
        ⟨rfl, fun _ => rfl, fun _ => rfl, fun _ => rfl⟩
      have hq := hbase.setFile (g := fun file => { file with count := file.count + 1 })
        (fun _ => rfl) (fun _ => rfl) f
      refine hi.quiet hq (fun fd' f' hfd' => ?_) (fun f' => ?_) fun fd' f' hfd' => ?_
      · change Function.update w.filp arg (some f) fd' = some f' at hfd'
        by_cases hdd : fd' = arg
        · rw [hdd]
          exact hlt
        · rw [Function.update_of_ne hdd] at hfd'
          exact hi.lt fd' f' hfd'
      · change refs _ (Function.update w.filp arg (some f)) f' ≤ _
        have hup := refs_update (t := w.filp) (Finset.mem_range.mpr hlt) (some f) f'
        rw [hfree, if_neg (by simp)] at hup
        have := hi.counted f'
        by_cases hff : f' = f
        · rw [hff, file_setFile_self]
          rw [hff, if_pos rfl] at hup
          rw [hff] at this
          change _ ≤ (w.file f).count + 1
          omega
        · rw [file_setFile_of_ne hff]
          rw [if_neg (by simpa using Ne.symm hff)] at hup
          change _ ≤ (w.file f').count
          omega
      · change Function.update w.filp arg (some f) fd' = some f' at hfd'
        by_cases hdd : fd' = arg
        · rw [hdd, Function.update_self] at hfd'
          exact ⟨fd, Option.some.inj hfd' ▸ hfd⟩
        · rw [Function.update_of_ne hdd] at hfd'
          exact ⟨fd', hfd'⟩

/-- **`sys_close`** -/
theorem wp_sysClose (hi : Inv w) : wp (sysClose fd) (fun _ w' => Inv w') AnyHalt w := by
  unfold sysClose
  rw [wp_bind, wp_get]
  refine wp_ite.mpr ⟨fun _ => hi, fun hlt => ?_⟩
  rw [wp_bind, wp_modify]
  cases hfd : w.filp fd with
  | none => exact ⟨hi.lt, hi.counted, hi.granted⟩
  | some f =>
    dsimp only
    rw [wp_bind, wp_modify]
    refine wp_ite.mpr ⟨fun _ => trivial, fun hne => ?_⟩
    rw [wp_bind, wp_modify, wp_pure]
    have hkept : ∀ fd' f', Function.update w.filp fd none fd' = some f' →
        w.filp fd' = some f' := by
      intro fd' f' hfd'
      by_cases hdd : fd' = fd
      · rw [hdd, Function.update_self] at hfd'
        cases hfd'
      · rwa [Function.update_of_ne hdd] at hfd'
    have hbase : Quiet w ((w.keepOnExec fd).setFilp fd none) :=
      ⟨rfl, fun _ => rfl, fun _ => rfl, fun _ => rfl⟩
    have hq := hbase.setFile (g := fun file => { file with count := file.count - 1 })
      (fun _ => rfl) (fun _ => rfl) f
    refine hi.quiet hq (fun fd' f' hfd' => hi.lt fd' f' (hkept fd' f' hfd')) (fun f' => ?_)
      fun fd' f' hfd' => ⟨fd', hkept fd' f' hfd'⟩
    change refs _ (Function.update w.filp fd none) f' ≤ _
    have hup := refs_update (t := w.filp) (Finset.mem_range.mpr (not_le.mp hlt)) none f'
    rw [hfd, if_neg (show (none : Option ℕ) ≠ some f' by simp)] at hup
    have := hi.counted f'
    by_cases hff : f' = f
    · rw [hff, file_setFile_self]
      rw [hff, if_pos rfl] at hup
      rw [hff] at this
      change _ ≤ (w.file f).count - 1
      omega
    · rw [file_setFile_of_ne hff]
      rw [if_neg (by simpa using Ne.symm hff)] at hup
      change _ ≤ (w.file f').count
      omega

/-- A file is positioned. -/
theorem Inv.setPos (hi : Inv w) (f : ℕ) (pos : ℤ) :
    Inv (w.setFile f fun file => { file with pos := pos }) := by
  have hq := (Quiet.refl w).setFile (g := fun file => { file with pos := pos })
    (fun _ => rfl) (fun _ => rfl) f
  refine hi.quiet hq hi.lt (fun f' => ?_) fun fd' f' hfd' => ⟨fd', hfd'⟩
  by_cases hff : f' = f
  · rw [hff, file_setFile_self]
    exact hi.counted f
  · rw [file_setFile_of_ne hff]
    exact hi.counted f'

/-- **`sys_lseek`** -/
theorem wp_sysLseek {offset origin : ℤ} (hi : Inv w) :
    wp (sysLseek fd offset origin) (fun _ w' => Inv w') AnyHalt w := by
  unfold sysLseek
  rw [wp_bind, wp_get]
  dsimp only
  split
  · exact hi
  · next f hf =>
    refine wp_ite.mpr ⟨fun _ => hi, fun _ => ?_⟩
    split
    · exact hi
    · next pos hpos =>
      refine wp_ite.mpr ⟨fun _ => hi, fun _ => ?_⟩
      rw [wp_bind, wp_modify, wp_pure]
      exact hi.setPos f pos

/-- The loop of `file_read` changes nothing, and stops where a block cannot be read. -/
theorem wp_readLoop {k pos left : ℕ} {acc : List UInt8} :
    wp (readLoop n k pos left acc) (fun r w' => w' = w ∧
      (n.zone (pos / 1024) = .bad → r.2 = acc)) AnyHalt w := by
  induction k generalizing pos left acc with
  | zero => exact ⟨rfl, fun _ => rfl⟩
  | succ k ih =>
    unfold readLoop
    refine wp_ite.mpr ⟨fun _ => ⟨rfl, fun _ => rfl⟩, fun _ => wp_ite.mpr ⟨fun _ => trivial,
      fun _ => ?_⟩⟩
    dsimp only
    cases hz : n.zone (pos / 1024) with
    | bad => exact ⟨rfl, fun _ => rfl⟩
    | hole => exact wp_post ih fun r w' hr => ⟨hr.1, fun h => by cases h⟩
    | good => exact wp_post ih fun r w' hr => ⟨hr.1, fun h => by cases h⟩

/-- **`sys_read`** delivers what there is. -/
theorem wp_sysRead (hi : Inv w) :
    wp (sysRead fd count) (fun r w' => Inv w' ∧ (r.2 ≠ [] → ∃ f, w.filp fd = some f ∧
      (isReg (w.disk.inode (w.file f).inode) = true → Delivers w f count))) AnyHalt w := by
  unfold sysRead
  rw [wp_bind, wp_get]
  dsimp only
  have hnone : ∀ v : ℤ, Inv w ∧ ((v, ([] : List UInt8)).2 ≠ [] → ∃ f, w.filp fd = some f ∧
      (isReg (w.disk.inode (w.file f).inode) = true → Delivers w f count)) :=
    fun v => ⟨hi, fun h => absurd rfl h⟩
  split
  · exact hnone _
  · next f hf =>
    split at hf
    · cases hf
    next hlt =>
    rw [not_or] at hlt
    refine wp_ite.mpr ⟨fun _ => hnone _, fun h0 => wp_ite.mpr ⟨fun _ => wp_ite.mpr ⟨fun _ =>
      hnone _, fun hpos => ?_⟩, fun _ => wp_ite.mpr ⟨fun _ => trivial, fun _ => hnone _⟩⟩⟩
    rw [wp_bind]
    refine wp_post wp_readLoop ?_
    rintro ⟨pos, bytes⟩ w' ⟨rfl, hbad⟩
    rw [wp_bind, wp_modify, wp_pure]
    refine ⟨hi.setPos f pos, fun hne => ⟨f, hf, fun hreg => ⟨hreg, ?_, ?_, fun hz => ?_⟩⟩⟩
    · omega
    · split at hpos <;> omega
    · exact hne (hbad hz)

/-- **The loop of `file_write`** stores nothing if there is no block for the first byte. -/
theorem wp_writeLoop {k pos : ℕ} :
    wp (writeLoop id alloc k pos bytes) (fun _ w' => Frame (fun _ => none) w w' ∧
      (bytes = [] ∨ (w.disk.inode id).zone (pos / 1024) = .bad ∨
        (w.disk.inode id).zone (pos / 1024) = .hole ∧ alloc (pos / 1024) = false → w' = w))
      AnyHalt w := by
  induction k generalizing w pos bytes with
  | zero => exact ⟨.refl w, fun _ => rfl⟩
  | succ k ih =>
    unfold writeLoop
    refine wp_ite.mpr ⟨fun _ => ⟨.refl w, fun _ => rfl⟩, fun hne => wp_ite.mpr
      ⟨fun _ => trivial, fun _ => ?_⟩⟩
    rw [wp_bind, wp_get]
    refine wp_ite.mpr ⟨fun _ => ⟨.refl w, fun _ => rfl⟩, fun hz => ?_⟩
    rw [wp_bind, wp_modify]
    refine wp_post ih ?_
    rintro r w' ⟨hfr, -⟩
    have hst : Frame (fun _ => none) w (w.setInode id fun n =>
        store n pos (bytes.take (min (1024 - pos % 1024) bytes.length))) :=
      (Frame.refl w).setInode (g := fun n =>
        store n pos (bytes.take (min (1024 - pos % 1024) bytes.length))) (fun _ => rfl) id
    refine ⟨⟨hfr.filp, hfr.file, hfr.granted, hfr.task, fun id' => ?_⟩, ?_⟩
    · rcases hst.mode id' with hmode | hno
      · rw [← hmode]
        exact hfr.mode id'
      · cases hno
    · rintro (h | h | ⟨h, ha⟩)
      · exact absurd h hne
      · exact absurd (Or.inl h) hz
      · exact absurd (Or.inr ⟨h, by simp [ha]⟩) hz

/-- **`sys_write`** stores what it can. -/
theorem wp_sysWrite (hi : Inv w) :
    wp (sysWrite fd bytes alloc) (fun _ w' => Inv w' ∧ (w'.disk ≠ w.disk →
      ∃ f, w.filp fd = some f ∧ Stores w f bytes alloc)) AnyHalt w := by
  unfold sysWrite
  rw [wp_bind, wp_get]
  dsimp only
  have hsame : Inv w ∧ (w.disk ≠ w.disk → ∃ f, w.filp fd = some f ∧ Stores w f bytes alloc) :=
    ⟨hi, fun h => absurd rfl h⟩
  split
  · exact hsame
  · next f hf =>
    split at hf
    · cases hf
    refine wp_ite.mpr ⟨fun _ => hsame, fun hne => wp_ite.mpr ⟨fun hreg => ?_, fun _ =>
      wp_ite.mpr ⟨fun _ => trivial, fun _ => hsame⟩⟩⟩
    rw [wp_bind]
    refine wp_post wp_writeLoop ?_
    rintro pos w' ⟨hfr, hstop⟩
    have hi' : Inv w' := by
      refine hi.quiet ⟨hfr.granted, fun f => by rw [hfr.file], fun f => by rw [hfr.file],
        fun id => (hfr.mode id).resolve_right (by simp)⟩ (fun fd f h => hi.lt fd f (hfr.filp ▸ h))
        (fun f => ?_) fun fd f h => ⟨fd, hfr.filp ▸ h⟩
      rw [hfr.filp, hfr.file]
      exact hi.counted f
    have hdisk : w'.disk ≠ w.disk → ∃ f, w.filp fd = some f ∧ Stores w f bytes alloc := by
      intro hd
      refine ⟨f, hf, hreg, hne, fun hz => ?_, fun hz => ?_⟩
      · exact hd (congrArg World.disk (hstop (Or.inr (Or.inl hz))))
      · by_contra ha
        rw [Bool.not_eq_true] at ha
        exact hd (congrArg World.disk (hstop (Or.inr (Or.inr ⟨hz, ha⟩))))
    rw [wp_bind, wp_modify, wp_pure]
    split
    · exact ⟨hi', hdisk⟩
    · exact ⟨hi'.setPos f pos, hdisk⟩

/-! ### Runs -/

theorem Inv.step {a : Act} (hi : Inv w) (he : Enabled w a) (hc : Careful w a) :
    wp (perform a) (fun _ w' => Inv w') AnyHalt w := by
  have hmap : ∀ {m : M ℤ}, wp m (fun _ w' => Inv w') AnyHalt w →
      wp ((·, ([] : List UInt8)) <$> m) (fun _ w' => Inv w') AnyHalt w := by
    intro m hm
    rw [map_eq_pure_bind, wp_bind]
    exact wp_post hm fun _ _ h => h
  cases a with
  | «open» path flag mode fresh room => exact hmap (wp_sysOpen hi he hc)
  | dup fd => exact hmap (wp_sysDup hi)
  | close fd => exact hmap (wp_sysClose hi)
  | lseek fd offset origin => exact hmap (wp_sysLseek hi)
  | read fd count => exact wp_post (wp_sysRead hi) fun _ _ h => h.1
  | write fd bytes alloc => exact hmap (wp_post (wp_sysWrite hi) fun _ _ h => h.1)

theorem Inv.boot (h : Boot w) : Inv w := by
  refine ⟨fun fd f hfd => ?_, fun f => ?_, fun fd f hfd => ?_⟩
  · rw [h] at hfd
    cases hfd
  · rw [refs_eq_zero_iff.mpr fun fd _ => by rw [h]; simp]
    omega
  · rw [h] at hfd
    cases hfd

/-- A root directory and the file `a` in it, which everybody may read and nobody may write. -/
def readable : World where
  disk :=
    { inode := fun id =>
        if id = ⟨1, 1⟩ then directory [(1, [46]), (1, dotdot), (2, [97])] false
        else { directory [(0, [])] false with mode := 0x8124#16 }
      super := fun i => if i = 0 then ⟨1, some ⟨1, 1⟩⟩ else ⟨0, none⟩ }
  task := ⟨1, 1, ⟨1, 1⟩, ⟨1, 1⟩⟩
  umask := 0#32
  filp _ := none
  closeOnExec := 0#32
  file _ := ⟨0#16, 0#32, 0, ⟨0, 0⟩, 0⟩
  granted _ _ := false

/-- What a call leaves. -/
def after (a : Act) (w : World) : World :=
  match perform a w with
  | .ok _ w' => w'
  | .error _ w' => w'

end Linux011.Fs

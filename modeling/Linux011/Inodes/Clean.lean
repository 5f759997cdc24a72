import Linux011.Inodes.Supers

/-!
# Inodes that nobody has are clean

An inode is marked as changed by those who have it, and the last of them gives it back clean. What
has been counted (`Linux011.Inodes.Mounting.Inv`) is kept by every step, so `get_empty_inode` has
nothing to write, and whoever writes an inode finds its device.

The last holds as long as no device is unmounted while a task is on its way to it without a
reference, nor by two tasks at once, and no super block is taken for another device before it is
free (`Linux011.Inodes.Mounting.Fine`).
-/

namespace Linux011.Inodes.Mounting

variable {w w' : World} {refs : List ℕ} {f : Frame} {F R G : List Frame} {i j k e d : ℕ}
  {u : Option (ℕ × ℕ)} {io : Io} {U : ℕ → ℕ} {g : MInode → MInode}
  {s s' : State}

/-! ### Reading and writing -/

/-- **What a call comes to is as it should be.** -/
def Good (refs : List ℕ) (R : List Frame) : Turn → Prop
  | .wait => True
  | .panic message => message ≠ "trying to write inode without device"
  | .go w fs out => Inv w (out ++ refs) (fs ++ R)

theorem Good.andThen {t : Turn} {st : List Frame} (h : Good refs (st ++ R) t) :
    Good refs R (t.andThen st) := by
  cases t with
  | wait => trivial
  | panic message => exact h
  | go w fs out =>
    have happend : fs ++ st ++ R = fs ++ (st ++ R) := List.append_assoc fs st R
    rw [Turn.andThen, Good, happend]
    exact h

/-- A panic with another message. -/
theorem panic_good {message : String} (h : message ≠ "trying to write inode without device") :
    Good refs R (.panic message) := h

/-- An inode in use is locked. -/
theorem Inv.lockInode (h : Inv w refs F) (hc : (w.slot i).count ≠ 0) (hd : (w.slot i).dev ≠ 0) :
    Inv (w.setLock i true) refs F :=
  h.neutral rfl rfl rfl (fun hm => hm) fun hzero => by
    rcases hzero with hzero | hzero
    · exact absurd hzero hc
    · exact absurd hzero.1 hd

/-- **`write_inode`** finds the device. -/
theorem writeInode_good (h : Inv w refs R) : Good refs R (w.writeInode i) := by
  rw [World.writeInode]
  split
  · exact h.push rfl rfl rfl rfl trivial
  · split
    · exact h
    · next hdirty =>
      rw [not_or, Bool.not_eq_false] at hdirty
      have hcount : (w.slot i).count ≠ 0 := fun h0 => by
        rw [h.clean i h0] at hdirty
        exact absurd hdirty.1 Bool.false_ne_true
      obtain ⟨k, hk, hl, -⟩ := (h.lockInode hcount hdirty.2).getSuper
        ((h.lockInode hcount hdirty.2).live i
          (by rw [World.setLock, setSlot_self]; exact Nat.pos_of_ne_zero hcount)
          (by rw [World.setLock, setSlot_self]; exact hdirty.2))
      rw [World.writeSuper, hk]
      dsimp only
      rw [hl.lock, if_neg Bool.false_ne_true]
      exact (h.lockInode hcount hdirty.2).push rfl rfl rfl rfl trivial

/-- **`read_inode`** of an inode that is in use and not locked. -/
theorem readInode_good (h : Inv w refs R) (hc : (w.slot i).count ≠ 0) (hd : (w.slot i).dev ≠ 0)
    (hlock : (w.slot i).lock = false) : Good refs R (w.readInode i) := by
  obtain ⟨k, hk, hl, -⟩ := (h.lockInode hc hd).getSuper
    ((h.lockInode hc hd).live i
      (by rw [World.setLock, setSlot_self]; exact Nat.pos_of_ne_zero hc)
      (by rw [World.setLock, setSlot_self]; exact hd))
  rw [World.readInode, hlock, if_neg Bool.false_ne_true, World.readSuper, hk]
  dsimp only
  rw [hl.lock, if_neg Bool.false_ne_true]
  exact (h.lockInode hc hd).push rfl rfl rfl rfl trivial

/-- **A block is read**, or `sync_dev` comes first. -/
theorem bread_good {t : Turn} {message : String} (h : Inv w refs (f :: R))
    (ht : Good refs R t) (hm : message ≠ "trying to write inode without device") :
    Good refs R (w.bread io f t message) := by
  rw [World.bread]
  split
  · exact h.push rfl rfl rfl rfl trivial
  · split
    · exact ht
    · exact panic_good hm

/-! ### `iput` -/

/-- **`iput` returns**, with the reference given back in the way `g`. -/
theorem returned_good (h : Inv w refs (.iput i u :: R))
    (hg : ∀ w' R', w'.slot = w.slot → Inv w' refs (.iput i none :: R') →
      Inv (w'.setSlot i g) refs R') : Good refs R ((w.setSlot i g).returned u) := by
  cases u with
  | none => exact hg w R rfl h
  | some v =>
    obtain ⟨k, d⟩ := v
    obtain ⟨hlt, -, hdev, hd, hlock⟩ := (h.frames _ List.mem_cons_self) k d rfl
    -- `put_super` finds the same super block
    have hget : ((w.setSlot i g).setSuper k fun b => { b with imount := none }).getSuper d =
        some k := by
      have hdev' : ∀ j, (((w.setSlot i g).setSuper k fun b =>
          { b with imount := none }).super j).dev = (w.super j).dev := by
        intro j
        by_cases hj : j = k
        · rw [hj, setSuper_self]
          rfl
        · rw [setSuper_of_ne _ _ hj]
          rfl
      rw [World.getSuper, if_neg hd]
      simp only [hdev']
      cases hfind : (List.range nrSuper).find? fun k => (w.super k).dev = d with
      | none =>
        rw [List.find?_eq_none] at hfind
        have := hfind k (List.mem_range.mpr hlt)
        exact absurd hdev (by simpa using this)
      | some k' =>
        have hmem := List.mem_range.mp (List.mem_of_find?_eq_some hfind)
        have hd' : (w.super k').dev = d := by simpa using List.find?_some hfind
        rw [h.devs k k' hlt hmem (hdev ▸ hd) (hdev.trans hd'.symm)]
    have hgone := hg (w.giveUp k) (.putBrelse k :: R) rfl h.giveUp
    rw [World.returned, World.putSuper, hget]
    dsimp only
    rw [setSuper_self]
    dsimp only
    have hlock' : ((w.setSlot i g).super k).lock = false := hlock
    rw [hlock', if_neg Bool.false_ne_true, if_neg (by simp)]
    have hworld : ((w.setSlot i g).setSuper k fun b => { b with imount := none }).setSuper k
        (fun b => { b with dev := 0, lock := true }) = (w.giveUp k).setSlot i g := by
      rw [World.setSuper, World.setSuper, World.giveUp, World.setSlot, World.setSlot,
        World.setSuper]
      dsimp only
      rw [Function.update_self, Function.update_idem]
    rw [hworld]
    exact hgone

/-- The last reference, or one of several. -/
theorem dec_good (h : Inv w refs (.iput i u :: R))
    (hclean : (w.slot i).count ≤ 1 ∨ ((w.slot i).dev = 0 ∧ (w.slot i).pipe = false) →
      (w.slot i).dirt = false ∧ (w.slot i).lock = false) :
    Good refs R ((w.dec i).returned u) := by
  refine returned_good h fun w' R' hs h' => ?_
  rw [← hs] at hclean
  exact h'.drop rfl rfl (Or.inl rfl) (fun hm => hm) hclean

/-- **`free_inode`** finds the device. -/
theorem freeInode_good (h : Inv w refs (.iput i u :: R)) (hdev : (w.slot i).dev ≠ 0) :
    Good refs R (w.freeInode i u) := by
  have hmessage : ∀ m : String, m ≠ "trying to write inode without device" →
      Good refs R (.panic m) := fun _ hm => hm
  have hgone : (w.slot i).count ≤ 1 → Good refs R ((w.reset i).returned u) := by
    intro hone
    refine returned_good h fun w' R' hs h' => ?_
    rw [← hs] at hone
    exact h'.gone hone
  rw [World.freeInode, if_neg hdev]
  split
  · exact hmessage _ (by decide)
  · next hone =>
    split
    · exact hmessage _ (by decide)
    · have hpos : 0 < (w.slot i).count := by
        have := h.count i
        rw [total_cons] at this
        change _ + ([i].count i + _) + _ ≤ _ at this
        rw [List.count_singleton_self] at this
        omega
      obtain ⟨k, hk, hl, -⟩ := h.getSuper (h.live i hpos hdev)
      rw [World.freeSuper, hk]
      dsimp only
      rw [hl.lock, if_neg Bool.false_ne_true]
      exact hgone (Nat.le_of_not_lt hone)

/-- `iput`, from `repeat` on. -/
theorem iputLoop_good (h : Inv w refs (.iput i u :: R)) (hlock : (w.slot i).lock = false)
    (hdev : (w.slot i).dev ≠ 0) : Good refs R (w.iputLoop i u) := by
  have hmounted : Mounted w i u := h.frames _ List.mem_cons_self
  rw [World.iputLoop]
  split
  · next hone =>
    refine dec_good h fun hzero => ?_
    rcases hzero with hzero | hzero
    · exact absurd hone (Nat.not_lt_of_le hzero)
    · exact absurd hzero.1 hdev
  · split
    · split
      · exact h.go rfl (by cases u <;> rfl) (by cases u <;> rfl) rfl ⟨hmounted, hdev⟩
      · exact freeInode_good h hdev
    · split
      · refine Good.andThen (writeInode_good ?_)
        exact h.go rfl (by cases u <;> rfl) (by cases u <;> rfl) rfl ⟨hmounted, hdev⟩
      · next hdirt =>
        rw [Bool.not_eq_true] at hdirt
        exact dec_good h fun _ => ⟨hdirt, hlock⟩

/-- **`iput`** -/
theorem iput_good (h : Inv w refs (.iput i u :: R)) (hlock : (w.slot i).lock = false) :
    Good refs R (w.iput i u) := by
  have hmounted : Mounted w i u := h.frames _ List.mem_cons_self
  rw [World.iput]
  split
  · exact panic_good (by decide)
  · split
    · next hpipe =>
      split
      · next hone =>
        refine dec_good h fun hzero => ?_
        rcases hzero with hzero | hzero
        · exact absurd hone (Nat.not_lt_of_le hzero)
        · rw [hpipe] at hzero
          exact absurd hzero.2 Bool.noConfusion
      · next hone =>
        refine returned_good h fun w' R' hs h' => ?_
        rw [← hs] at hone hlock
        exact h'.drop (by dsimp only; omega) rfl (Or.inr (Nat.le_of_not_lt hone)) (fun hm => hm)
          fun _ => ⟨rfl, hlock⟩
    · next hpipe =>
      rw [Bool.not_eq_true] at hpipe
      split
      · next hdev => exact dec_good h fun _ => h.blank i hdev hpipe
      · next hdev =>
        split
        · have hgo : Inv w refs (.iputRepeat i u :: R) :=
            h.go rfl (by cases u <;> rfl) (by cases u <;> rfl) rfl ⟨hmounted, hdev⟩
          exact hgo.push rfl rfl rfl rfl trivial
        · exact iputLoop_good h hlock hdev

/-! ### `iget` and `new_inode` -/

theorem perm_swap (f f' : Frame) (R : List Frame) : (f :: f' :: R).Perm (f' :: f :: R) :=
  List.Perm.swap f' f R

/-- `iget` has found the inode. -/
theorem found_good (h : Inv w refs (.iput e none :: R)) (hb : Blank w e) (hi : i < nrInode)
    (hlive : Live w (total Frame.unmounts R) (w.slot i).dev) : Good refs R (w.found e i) := by
  have hdev : (w.slot i).dev ≠ 0 := by
    obtain ⟨k, hk, hd⟩ := hlive
    exact hd ▸ hk.dev
  have hinc : Inv (w.inc i) refs (.iput i none :: .iput e none :: R) := by
    refine h.inc hi hdev ?_
    rw [unmounts_iput]
    exact hlive
  have hput : Good refs R (.go (w.inc i) [.iput e none, .igetPut i] []) := by
    have hgo : Inv (w.inc i) refs (.igetPut i :: .iput e none :: R) :=
      hinc.go rfl rfl rfl rfl (Or.inl (by rw [World.inc, setSlot_self]; exact hdev))
    exact hgo.perm (perm_swap _ _ _) (List.Perm.refl _)
  rw [World.found]
  split
  · next hmount =>
    cases hsb : w.sbOf i with
    | none => exact hput
    | some k =>
      have hl : LiveAt w (total Frame.unmounts R) k := by
        have := h.sbOf hmount hsb
        rwa [unmounts_iput] at this
      have hne : e ≠ i := fun heq => hdev (heq ▸ hb.dev)
      have hswap : Inv (w.inc i) refs (.iput e none :: .iput i none :: R) :=
        hinc.perm (perm_swap _ _ _) (List.Perm.refl _)
      have hgo : Inv (w.inc i) refs (.igetCross e k :: .iput i none :: R) := by
        refine hswap.go rfl rfl rfl rfl ⟨?_, ?_⟩
        · rw [unmounts_iput, unmounts_iput]
          exact ⟨hl.lt, hl.dev, hl.lock, hl.unmounts⟩
        · have hsame : (w.inc i).slot e = w.slot e := setSlot_of_ne w _ hne
          exact ⟨by rw [hsame]; exact hb.dev, by rw [hsame]; exact hb.pipe,
            by rw [hsame]; exact hb.count, hb.lt⟩
      exact hgo.perm (perm_swap _ _ _) (List.Perm.refl _)
  · exact hput

theorem find_spec {dev nr : ℕ} (h : w.find dev nr = some i) :
    i < nrInode ∧ (w.slot i).dev = dev ∧ (w.slot i).num = nr := by
  refine ⟨List.mem_range.mp (List.mem_of_find?_eq_some h), ?_⟩
  simpa using List.find?_some h

/-- **`iget`**, from the head of its loop on. -/
theorem igetLoop_good {nr : ℕ} (h : Inv w refs (.iput e none :: R)) (hb : Blank w e)
    (hlive : Live w (total Frame.unmounts R) d) : Good refs R (w.igetLoop d nr e) := by
  rw [World.igetLoop]
  cases hfind : w.find d nr with
  | some i =>
    obtain ⟨hi, hdev, -⟩ := find_spec hfind
    dsimp only
    split
    · have hok : FrameOk w (total Frame.unmounts (.iput e none :: R)) (.igetWait d nr e i) := by
        rw [unmounts_iput]
        exact ⟨hlive, hb, hi⟩
      exact h.go rfl rfl rfl rfl hok
    · refine found_good h hb hi ?_
      rw [hdev]
      exact hlive
  | none =>
    have hd : d ≠ 0 := by
      obtain ⟨k, hk, hd⟩ := hlive
      exact hd ▸ hk.dev
    have hlock := (h.blank e hb.dev hb.pipe).2
    have hassign : Inv (w.setSlot e fun n => { n with dev := d, num := nr }) refs
        (.iput e none :: R) := h.assign hb hb.count hd hlive fun hm => hm
    have hgo : Inv (w.setSlot e fun n => { n with dev := d, num := nr }) refs
        (.igetRead e :: R) :=
      hassign.go rfl rfl rfl rfl (Or.inl (by rw [setSlot_self]; exact hd))
    refine Good.andThen (readInode_good hgo ?_ ?_ ?_)
    · rw [setSlot_self]
      exact fun h0 => absurd (hb.count.symm.trans h0) Nat.one_ne_zero
    · rw [setSlot_self]
      exact hd
    · rw [setSlot_self]
      exact hlock

/-- `new_inode`, with an empty inode. -/
theorem newSuper_good (h : Inv w refs (.iput e none :: R)) (hb : Blank w e)
    (hlive : d ≠ 0 → Live w (total Frame.unmounts R) d) : Good refs R (w.newSuper io d e) := by
  rw [World.newSuper]
  by_cases hd : d = 0
  · have hnone : w.getSuper d = none := if_pos hd
    rw [hnone]
    exact panic_good (by decide)
  · obtain ⟨k, hk, hl, -⟩ := h.getSuper (hlive hd)
    rw [hk]
    dsimp only
    rw [hl.lock, if_neg Bool.false_ne_true]
    cases io.num with
    | none => exact h
    | some num =>
      have hassign := h.assign (g := fun n =>
        { n with count := 1, nlinks := 1#8, dev := d, dirt := true, num := num }) hb rfl hd
        (hlive hd) fun hm => hm
      exact hassign.hand (Or.inl (by rw [setSlot_self]; exact hd))

theorem lookEmpty_spec {n last : ℕ} {r : Option ℕ}
    (hr : ∀ i ∈ r, i < nrInode ∧ (w.slot i).count = 0) :
    ∀ i ∈ (w.lookEmpty n last r).2, i < nrInode ∧ (w.slot i).count = 0 := by
  induction n generalizing last r with
  | zero => exact hr
  | succ n ih =>
    rw [World.lookEmpty]
    have hlt : (if nrInode ≤ last + 1 then 0 else last + 1) < nrInode := by
      split
      · exact Nat.zero_lt_succ _
      · omega
    generalize (if nrInode ≤ last + 1 then 0 else last + 1) = k at hlt ⊢
    by_cases hcount : (w.slot k).count = 0
    · have hnew : ∀ i ∈ some k, i < nrInode ∧ (w.slot i).count = 0 := by
        rintro i ⟨⟩
        exact ⟨hlt, hcount⟩
      rw [if_pos hcount]
      split
      · exact hnew
      · exact ih hnew
    · rw [if_neg hcount]
      exact ih hr

/-- The device that a purpose is about is in use. -/
def Purpose.Ok (w : World) (U : ℕ → ℕ) : Purpose → Prop
  | .iget d _ => d ≠ 0 ∧ Live w U d
  | .new d => d ≠ 0 → Live w U d

/-- **`get_empty_inode`** neither waits nor writes. -/
theorem getEmptyInode_good {p : Purpose} (h : Inv w refs R)
    (hp : p.Ok w (total Frame.unmounts R)) : Good refs R (w.getEmptyInode io p) := by
  have hspec := @lookEmpty_spec w nrInode w.last none
    fun i hi => absurd hi (Option.not_mem_none i)
  rw [World.getEmptyInode]
  generalize w.lookEmpty nrInode w.last none = r at hspec
  obtain ⟨last, _ | i⟩ := r
  · exact panic_good (by decide)
  · obtain ⟨hi, hzero⟩ := hspec i rfl
    dsimp only
    rw [h.idle i hzero, if_neg Bool.false_ne_true, h.clean i hzero, if_neg Bool.false_ne_true]
    have htake := (h.last last).take hi hzero
    have hb : Blank ({ w with last := last }.clear i) i := by
      constructor
      · rw [World.clear, setSlot_self]
        rfl
      · rw [World.clear, setSlot_self]
        rfl
      · rw [World.clear, setSlot_self]
      · exact hi
    have hmono : ∀ d, Live w (total Frame.unmounts R) d →
        Live ({ w with last := last }.clear i) (total Frame.unmounts R) d := fun d hd =>
      hd.mono fun k hk _ => ⟨⟨hk.lt, hk.dev, hk.lock, hk.unmounts⟩, rfl⟩
    cases p with
    | iget d nr => exact igetLoop_good htake hb (hmono d hp.2)
    | new d => exact newSuper_good htake hb fun hd => hmono d (hp hd)

/-! ### `sys_mount` and `sys_umount` -/

/-- **`sys_mount`**, when the super block is there. -/
theorem mountOn_good (h : Inv w refs (.mountSuper d i :: R)) (hk : k < nrSuper)
    (hdev : (w.super k).dev ≠ 0) (hlock : (w.super k).lock = false) :
    Good refs R (w.mountOn k i) := by
  have hreal : Real w i := h.frames _ List.mem_cons_self
  rw [World.mountOn]
  split
  · exact h.putDir rfl rfl rfl
  · next hfree =>
    rw [not_or, Bool.not_eq_true, Option.isSome_eq_false_iff, Option.isNone_iff_eq_none] at hfree
    have hpos : 0 < (w.slot i).count := by
      have := h.count i
      rw [total_cons] at this
      change _ + ([i].count i + _) + _ ≤ _ at this
      rw [List.count_singleton_self] at this
      omega
    have hdirt : Inv (w.setSlot i fun n => { n with dirt := true }) refs
        (.mountSuper d i :: R) := by
      refine h.neutral rfl rfl rfl (fun hm => hm) fun hzero => ?_
      rcases hzero with hzero | hzero
      · omega
      · rcases hreal with hr | hr
        · exact absurd hzero.1 hr
        · rw [hzero.2] at hr
          cases hr
    have hworld : (w.setSlot i fun n => { n with dirt := true }).mounted k i =
        (w.setSuper k fun b => { b with imount := some i }).setSlot i fun n =>
          { n with mount := true, dirt := true } := by
      rw [World.mounted, World.setSlot, World.setSlot, World.setSuper, World.setSlot,
        World.setSuper]
      dsimp only
      rw [Function.update_self, Function.update_idem]
    rw [Good, ← hworld]
    exact hdirt.mounted hk hdev hlock hfree.1

/-- **`read_super`**, if the super block that it takes is not locked. -/
theorem mountSuper_good (h : Inv w refs (.mountSuper d i :: R))
    (hfine : w.getSuper d = none → ∀ k, w.emptySuper = some k → (w.super k).lock = false) :
    Good refs R (w.mountSuper d i) := by
  have hreal : Real w i := h.frames _ List.mem_cons_self
  rw [World.mountSuper]
  split
  · exact h.putDir rfl rfl rfl
  · next hd =>
    cases hget : w.getSuper d with
    | some k =>
      obtain ⟨hlt, hdev, -⟩ := getSuper_spec hget
      dsimp only
      split
      · exact h
      · next hlock =>
        rw [Bool.not_eq_true] at hlock
        exact mountOn_good h hlt (hdev ▸ hd) hlock
    | none =>
      cases hempty : w.emptySuper with
      | none => exact h.putDir rfl rfl rfl
      | some k =>
        have hlock := hfine hget k hempty
        have hlt := List.mem_range.mp (List.mem_of_find?_eq_some hempty)
        have hdev : (w.super k).dev = 0 := by simpa using List.find?_some hempty
        have hother : ∀ j, j < nrSuper → (w.super j).dev ≠ d := by
          intro j hj heq
          rw [World.getSuper, if_neg hd, List.find?_eq_none] at hget
          have := hget j (List.mem_range.mpr hj)
          exact absurd heq (by simpa using this)
        have hzero := h.unmounts_zero (Or.inl hdev)
        have hfree : total Frame.locks (.mountSuper d i :: R) k = 0 := by
          rw [h.locks k, hlock]
          rfl
        dsimp only
        rw [hlock, if_neg Bool.false_ne_true]
        refine h.storeSuper (fun j => le_rfl) (fun j => le_rfl) (fun j => ?_)
          (fun hl => hl.dev hdev) (fun _ _ => rfl) (h.once k)
          (fun j _ hj _ heq => absurd heq.symm (hother j hj)) (fun j hj => ?_) ?_ fun g hg => ?_
        · refine List.countP_mono_left fun j' _ hj' => ?_
          rw [decide_eq_true_eq] at hj' ⊢
          by_cases hne : j' = k
          · rw [hne, setSuper_self] at hj'
            cases hj'.1
          · rwa [setSuper_of_ne w _ hne] at hj'
        · rw [List.singleton_append, total_cons, total_cons]
          change [k].count j + _ = _
          rw [List.count_singleton, if_neg (by simpa using hj.symm)]
          rfl
        · rw [List.singleton_append, total_cons]
          rw [total_cons] at hfree
          change [k].count k + _ = _
          rw [List.count_singleton_self, Nat.eq_zero_of_add_eq_zero_left hfree]
          rfl
        · rcases List.mem_cons.mp hg with rfl | hg
          · refine Or.inr ⟨hreal, hlt, ?_⟩
            rw [setSuper_self]
            exact hd
          · have hmem := List.mem_cons_of_mem (Frame.mountSuper d i) hg
            exact Or.inl ⟨hmem, total_eq_zero hzero hmem, total_eq_zero hfree hmem⟩

/-- **`sys_umount`**, if nobody else unmounts the device or is on the way to it. -/
theorem umount_good (h : Inv w refs (.umount d :: R))
    (hfine : ∀ k, w.unmounts d k → total Frame.unmounts R k = 0 ∧ ∀ f ∈ R, ¬f.enters w d) :
    Good refs R (w.umount d) := by
  have hdone : Inv w refs R := by
    refine h.swap (G := []) (fun _ => Nat.zero_le _) (fun _ => Nat.zero_le _) (fun _ => rfl)
      (fun _ => rfl) fun g hg => absurd hg (List.not_mem_nil)
  rw [World.umount]
  split
  · exact hdone
  · next hroot =>
    cases hget : w.getSuper d with
    | none => exact hdone
    | some k =>
      dsimp only
      split
      · exact h
      · next hlock =>
        rw [Bool.not_eq_true] at hlock
        cases himount : (w.super k).imount with
        | none => exact hdone
        | some i =>
          dsimp only
          split
          · exact hdone
          · next hbusy =>
            rw [Bool.not_eq_true] at hbusy
            have hun : w.unmounts d k := by
              refine ⟨hroot, hget, hlock, ?_, hbusy⟩
              rw [himount]
              exact Option.some_ne_none i
            obtain ⟨hzero, henter⟩ := hfine k hun
            exact h.unmount hun himount hzero henter

/-! ### Steps -/

/-- `read_super` takes no super block that is locked. -/
def World.takesFree (w : World) (d : ℕ) : Prop :=
  w.getSuper d = none → ∀ k, w.emptySuper = some k → (w.super k).lock = false

/-- **What may go on**: a device is unmounted only if no other call unmounts it or is on its way to
an inode of it, and no super block is taken that `put_super` is not done with. -/
def Fine (w : World) (F : List Frame) : Frame → Prop
  | .umount d => ∀ k, w.unmounts d k →
    total Frame.unmounts F k = 0 ∧ ∀ f ∈ F, ¬f.enters w d
  | .sysMount d i => (w.slot i).count = 1 → (w.slot i).num ≠ rootIno → (w.slot i).isDir = true →
    w.takesFree d
  | .mountSuper d _ => w.takesFree d
  | _ => True

/-- **Every call goes on as it should.** -/
theorem Frame.step_good (h : Inv w refs (f :: R)) (hfine : Fine w (f :: R) f) (io : Io) :
    Good refs R (f.step w io) := by
  have hok := h.frames f List.mem_cons_self
  have hclean : ∀ i, (w.slot i).count = 0 ∨ ((w.slot i).dev = 0 ∧ (w.slot i).pipe = false) →
      (w.slot i).dirt = false ∧ (w.slot i).lock = false := by
    intro i hi
    rcases hi with hi | hi
    · exact ⟨h.clean i hi, h.idle i hi⟩
    · exact h.blank i hi.1 hi.2
  cases f with
  | iget d nr =>
    rw [Frame.step]
    split
    · exact panic_good (by decide)
    · next hd =>
      have hlive := hok hd
      rw [total_cons_nil rfl] at hlive
      exact getEmptyInode_good (h.pop rfl rfl) ⟨hd, hlive⟩
  | new d =>
    refine getEmptyInode_good (h.pop rfl rfl) fun hd => ?_
    have hlive := hok hd
    rwa [total_cons_nil rfl] at hlive
  | getEmpty p i => exact hok.elim
  | igetWait d nr e i =>
    obtain ⟨hlive, hb, hi⟩ := hok
    rw [total_cons_nil rfl] at hlive
    have hput : Inv w refs (.iput e none :: R) :=
      h.go rfl rfl rfl rfl fun k d hu => absurd hu (by simp)
    rw [Frame.step]
    split
    · trivial
    · split
      · next hhas =>
        refine found_good hput hb hi ?_
        rw [hhas.1]
        exact hlive
      · exact igetLoop_good hput hb hlive
  | igetCross e k =>
    obtain ⟨hl, hb⟩ := hok
    rw [total_cons_nil rfl] at hl
    have hput : Inv w refs (.iput e none :: R) :=
      h.go rfl rfl rfl rfl fun k d hu => absurd hu (by simp)
    exact igetLoop_good hput hb ⟨k, hl, rfl⟩
  | igetPut i =>
    exact (h.go (c := .iput i none) rfl rfl rfl rfl fun k d hu => absurd hu (by simp)).hand hok
  | igetRead i =>
    exact (h.go (c := .iput i none) rfl rfl rfl rfl fun k d hu => absurd hu (by simp)).hand hok
  | newSuper d i => exact hok.elim
  | iput i u =>
    rw [Frame.step]
    split
    · trivial
    · next hlock => exact iput_good h (Bool.not_eq_true _ ▸ hlock)
  | iputRepeat i u =>
    have hput : Inv w refs (.iput i u :: R) :=
      h.go rfl (by cases u <;> rfl) (by cases u <;> rfl) rfl hok.1
    rw [Frame.step]
    split
    · trivial
    · next hlock => exact iputLoop_good hput (Bool.not_eq_true _ ▸ hlock) hok.2
  | truncate i u =>
    have hput : Inv w refs (.iput i u :: R) :=
      h.go rfl (by cases u <;> rfl) (by cases u <;> rfl) rfl hok.1
    have hdirt : Inv (w.setSlot i fun n => { n with dirt := true }) refs (.iput i u :: R) := by
      refine hput.neutral rfl rfl rfl (fun hm => hm) fun hzero => ?_
      rcases hzero with hzero | hzero
      · have := h.count i
        rw [total_cons, hzero] at this
        change _ + ([i].count i + _) + _ ≤ _ at this
        rw [List.count_singleton_self] at this
        omega
      · exact absurd hzero.1 hok.2
    exact freeInode_good hdirt (by rw [setSlot_self]; exact hok.2)
  | freeSuper i u => exact hok.elim
  | readLock i => exact hok.elim
  | readSuper i => exact hok.elim
  | readBread i =>
    refine bread_good h ?_ (by decide)
    have hread : Inv (w.setSlot i fun n => { n with mode := io.mode, nlinks := io.nlinks }) refs
        R :=
      (h.pop rfl rfl).neutral rfl rfl rfl (fun hm => hm) fun hzero => hclean i hzero
    exact hread.push rfl rfl rfl rfl trivial
  | readDone i =>
    exact (h.pop rfl rfl).neutral rfl rfl rfl (fun hm => hm) fun hzero => ⟨(hclean i hzero).1, rfl⟩
  | writeLock i =>
    rw [Frame.step]
    split
    · trivial
    · exact writeInode_good (h.pop rfl rfl)
  | writeSuper i => exact hok.elim
  | writeBread i =>
    refine bread_good h ?_ (by decide)
    have hwritten : Inv (w.setSlot i fun n => { n with dirt := false }) refs R :=
      (h.pop rfl rfl).neutral rfl rfl rfl (fun hm => hm) fun hzero => ⟨rfl, (hclean i hzero).2⟩
    exact hwritten.push rfl rfl rfl rfl trivial
  | writeDone i =>
    exact (h.pop rfl rfl).neutral rfl rfl rfl (fun hm => hm) fun hzero => ⟨(hclean i hzero).1, rfl⟩
  | syncDev =>
    exact ((h.pop rfl rfl).push (f := .syncBuffers) rfl rfl rfl rfl trivial).push rfl rfl rfl rfl
      trivial
  | syncInodes i =>
    have hnext : Inv w refs (.syncInodes (i + 1) :: R) :=
      (h.pop rfl rfl).push rfl rfl rfl rfl trivial
    rw [Frame.step]
    split
    · exact h.pop rfl rfl
    · split
      · trivial
      · split
        · exact Good.andThen (writeInode_good hnext)
        · exact hnext
  | syncBuffers => exact h.pop rfl rfl
  | sysMount d i =>
    rw [Frame.step]
    split
    · exact h.putDir rfl rfl rfl
    · next hcheck =>
      rw [not_or, not_or, not_not, Bool.not_eq_false] at hcheck
      obtain ⟨hone, hnum, hdir⟩ := hcheck
      exact mountSuper_good (h.claimDir hone) (hfine hone hnum hdir)
  | mountSuper d i => exact mountSuper_good h hfine
  | mountLock k i => exact hok.elim
  | mountRead k i =>
    obtain ⟨hreal, hlt, hdev⟩ := hok
    rw [Frame.step]
    split
    · exact h.push rfl rfl rfl rfl trivial
    · split
      · have hopen : Inv (w.setSuper k fun b => { b with lock := false }) refs
            (.mountSuper 0 i :: R) :=
          h.release rfl rfl rfl (fun _ => le_rfl) rfl rfl rfl rfl (Or.inr rfl) hreal
        refine mountOn_good hopen hlt ?_ ?_
        · rw [setSuper_self]
          exact hdev
        · rw [setSuper_self]
      · exact h.release (c := .iput i none) rfl rfl rfl (fun _ => Nat.zero_le _) rfl rfl rfl rfl
          (Or.inl rfl) fun k d hu => absurd hu (by simp)
  | umount d =>
    refine umount_good h fun k hun => ?_
    obtain ⟨hzero, henter⟩ := hfine k hun
    rw [total_cons_nil rfl] at hzero
    exact ⟨hzero, fun g hg => henter g (List.mem_cons_of_mem _ hg)⟩
  | putSuper d => exact hok.elim
  | putBrelse k =>
    exact h.release (c := .syncDev) rfl rfl rfl (fun _ => le_rfl) rfl rfl rfl rfl (Or.inr rfl)
      trivial
  | keep i =>
    exact (h.go (c := .iput i none) rfl rfl rfl rfl fun k d hu => absurd hu (by simp)).hand hok

/-! ### Runs -/

/-- The invariant, of the tables and the tasks. -/
def State.Inv (s : State) : Prop := Mounting.Inv s.world s.refs s.frames

/-- The inode of a reference is on a device in use. -/
theorem Inv.ref_live (h : Inv w refs F) (hi : i ∈ refs) (hd : (w.slot i).dev ≠ 0) :
    Live w (total Frame.unmounts F) (w.slot i).dev := by
  refine h.live i ?_ hd
  have := h.count i
  have := List.count_pos_iff.mpr hi
  omega

/-- **One step.** -/
theorem State.Inv.step (h : s.Inv) (hs : Step (fun s f => Fine s.world s.frames f) s s') :
    s'.Inv := by
  have hperm : ∀ {i : ℕ} {l₁ l₂ : List ℕ}, s.refs = l₁ ++ i :: l₂ →
      Mounting.Inv s.world (i :: (l₁ ++ l₂)) s.frames := by
    intro i l₁ l₂ hi
    refine Inv.perm h (List.Perm.refl _) ?_
    rw [hi]
    exact List.perm_middle
  have hmem : ∀ {i : ℕ} {l₁ l₂ : List ℕ}, s.refs = l₁ ++ i :: l₂ → i ∈ s.refs := by
    intro i l₁ l₂ hi
    rw [hi]
    exact List.mem_append_right l₁ List.mem_cons_self
  cases hs with
  | @change i hi mode nlinks =>
    refine Inv.neutral (g := fun n => { n with mode := mode, nlinks := nlinks, dirt := true }) h rfl
      rfl rfl (fun hm => hm) fun hzero => ?_
    rcases hzero with hzero | hzero
    · have := Inv.count h i
      have := List.count_pos_iff.mpr hi
      omega
    · rcases Inv.real h i hi with hr | hr
      · exact absurd hzero.1 hr
      · rw [hzero.2] at hr
        cases hr
  | @iput i l₁ l₂ hi =>
    exact (hperm hi).lend (f := .iput i none) rfl rfl rfl rfl fun k d hu => absurd hu (by simp)
  | @lookup i l₁ l₂ hi nr =>
    have hpush : Mounting.Inv s.world (i :: (l₁ ++ l₂))
        (.iget (s.world.slot i).dev nr :: s.frames) :=
      (hperm hi).push rfl rfl rfl rfl fun hd => Inv.ref_live h (hmem hi) hd
    exact hpush.lend (f := .iput i none) rfl rfl rfl rfl fun k d hu => absurd hu (by simp)
  | @iget i l₁ l₂ hi nr =>
    have hkeep : Mounting.Inv s.world (l₁ ++ l₂) (.keep i :: s.frames) :=
      (hperm hi).lend rfl rfl rfl rfl (Inv.real h i (hmem hi))
    refine hkeep.push (f := .iget (s.world.slot i).dev nr) rfl rfl rfl rfl fun hd => ?_
    rw [total_cons_nil rfl]
    exact Inv.ref_live h (hmem hi) hd
  | @new i l₁ l₂ hi =>
    have hkeep : Mounting.Inv s.world (l₁ ++ l₂) (.keep i :: s.frames) :=
      (hperm hi).lend rfl rfl rfl rfl (Inv.real h i (hmem hi))
    refine hkeep.push (f := .new (s.world.slot i).dev) rfl rfl rfl rfl fun hd => ?_
    rw [total_cons_nil rfl]
    exact Inv.ref_live h (hmem hi) hd
  | sync => exact Inv.push h (f := .syncInodes 0) rfl rfl rfl rfl trivial
  | @mount i l₁ l₂ hi dev =>
    exact (hperm hi).lend (f := .sysMount dev i) rfl rfl rfl rfl (Inv.real h i (hmem hi))
  | umount dev => exact Inv.push h (f := .umount dev) rfl rfl rfl rfl trivial
  | @run f st fs l₁ l₂ w out io hc hok hstep =>
    have hframes : ∀ fs, ((l₁ ++ (fs ++ st) :: l₂).flatten).Perm
        (fs ++ (l₁.flatten ++ (st ++ l₂.flatten))) := by
      intro fs
      rw [List.flatten_append, List.flatten_cons, List.append_assoc]
      exact (List.perm_append_comm_assoc _ _ _)
    have hF : s.frames.Perm (f :: (l₁.flatten ++ (st ++ l₂.flatten))) := by
      rw [State.frames, hc]
      exact hframes [f]
    have hgood := Frame.step_good (Inv.perm h hF (List.Perm.refl _)) ?_ io
    · rw [hstep] at hgood
      exact hgood.perm (hframes fs).symm (List.Perm.refl _)
    · have htotal := total_perm Frame.unmounts hF
      cases f with
      | umount d =>
        intro k hun
        obtain ⟨hzero, henter⟩ := hok k hun
        exact ⟨htotal ▸ hzero, fun g hg => henter g (hF.mem_iff.mpr hg)⟩
      | sysMount d i => exact hok
      | mountSuper d i => exact hok
      | _ => trivial

/-- **A machine at rest**: no call is under way, and nothing is locked. References are counted, what
nobody has is clean, and what somebody has is on a device that is mounted. -/
structure Start (s : State) : Prop where
  calls : s.calls = []
  count : ∀ i, s.refs.count i + pins s.world (fun _ => 0) i ≤ (s.world.slot i).count
  claim : ∀ i, pins s.world (fun _ => 0) i ≤ 1
  unlocked : ∀ i, (s.world.slot i).lock = false
  clean : ∀ i, (s.world.slot i).count = 0 → (s.world.slot i).dirt = false
  blank : ∀ i, (s.world.slot i).dev = 0 → (s.world.slot i).pipe = false →
    (s.world.slot i).dirt = false
  table : ∀ i, nrInode ≤ i → (s.world.slot i).count = 0
  real : ∀ i ∈ s.refs, Real s.world i
  live : ∀ i, 0 < (s.world.slot i).count → (s.world.slot i).dev ≠ 0 →
    ∃ k < nrSuper, (s.world.super k).dev = (s.world.slot i).dev
  free : ∀ k, (s.world.super k).lock = false
  devs : ∀ k k', k < nrSuper → k' < nrSuper → (s.world.super k).dev ≠ 0 →
    (s.world.super k).dev = (s.world.super k').dev → k = k'
  mount : ∀ i, (s.world.slot i).mount = true →
    ∃ k < nrSuper, (s.world.super k).imount = some i ∧ (s.world.super k).dev ≠ 0

theorem Start.inv (h : Start s) : s.Inv := by
  have hF : s.frames = [] := by
    rw [State.frames, h.calls]
    rfl
  have htotal : ∀ g : Frame → List ℕ, total g s.frames = fun _ => 0 := by
    intro g
    rw [hF]
    rfl
  constructor
  · intro i
    rw [htotal, htotal]
    exact h.count i
  · intro i
    rw [htotal, htotal]
    exact (Nat.zero_add _).trans_le (h.claim i)
  · exact h.clean
  · exact fun i _ => h.unlocked i
  · exact fun i h0 h1 => ⟨h.blank i h0 h1, h.unlocked i⟩
  · exact h.table
  · exact h.real
  · intro i h0 h1
    obtain ⟨k, hk, hd⟩ := h.live i h0 h1
    rw [htotal]
    exact ⟨k, ⟨hk, hd ▸ h1, h.free k, rfl⟩, hd⟩
  · exact h.devs
  · intro k
    rw [htotal, h.free k]
    rfl
  · intro k
    rw [htotal]
    exact Nat.zero_le 1
  · intro i hi
    obtain ⟨k, hk, himount, hd⟩ := h.mount i hi
    rw [htotal]
    exact ⟨k, himount, hk, hd, h.free k, rfl⟩
  · rw [hF]
    exact fun f hf => absurd hf List.not_mem_nil

theorem inv_reachable
    (h : Reachable Start (Step fun s f => Fine s.world s.frames f) s) : s.Inv :=
  h.inv (fun _ hs => hs.inv) fun _ _ hs hstep => hs.step hstep

/-- `sys_mount` and `sys_umount` write no inode themselves. -/
theorem mountOn_ne {message : String} : w.mountOn k i ≠ .panic message := by
  rw [World.mountOn]
  split
  · exact Turn.noConfusion
  · exact Turn.noConfusion

theorem mountSuper_ne {message : String} : w.mountSuper d i ≠ .panic message := by
  rw [World.mountSuper]
  split
  · exact Turn.noConfusion
  · split
    · split
      · exact Turn.noConfusion
      · exact mountOn_ne
    · split
      · exact Turn.noConfusion
      · exact Turn.noConfusion

theorem umount_ne {message : String} : w.umount d ≠ .panic message := by
  rw [World.umount]
  split
  · exact Turn.noConfusion
  · split
    · exact Turn.noConfusion
    · split
      · exact Turn.noConfusion
      · split
        · exact Turn.noConfusion
        · split
          · exact Turn.noConfusion
          · exact Turn.noConfusion

/-- **`write_inode` finds the device**, whoever calls it. -/
theorem Inv.finds_device (h : Inv w refs (f :: R)) :
    f.step w io ≠ .panic "trying to write inode without device" := by
  intro heq
  cases f with
  | umount d => exact umount_ne heq
  | mountSuper d i => exact mountSuper_ne heq
  | sysMount d i =>
    rw [Frame.step] at heq
    split at heq
    · cases heq
    · exact mountSuper_ne heq
  | _ =>
    have hgood := Frame.step_good h trivial io
    rw [heq] at hgood
    exact hgood rfl

/-- **Inodes that nobody has are clean**, in every run in which all goes on as it may
(`Linux011.Inodes.Mounting.Fine`): `get_empty_inode` need not wait for the inode it has found nor
write it, and no call that writes an inode finds that there is no device. -/
theorem unreferenced_clean
    (s : State) (h : Reachable Start (Step fun s f => Fine s.world s.frames f) s) :
    (∀ i, (s.world.slot i).count = 0 → (s.world.slot i).dev ≠ 0 →
      (s.world.slot i).dirt = false) ∧
    (∀ i ∈ (s.world.lookEmpty nrInode s.world.last none).2,
      (s.world.slot i).lock = false ∧ (s.world.slot i).dirt = false) ∧
    (∀ p i, Frame.getEmpty p i ∉ s.frames) ∧
    ∀ f st, f :: st ∈ s.calls → ∀ io,
      f.step s.world io ≠ .panic "trying to write inode without device" := by
  have hinv := inv_reachable h
  refine ⟨fun i hi _ => Inv.clean hinv i hi, fun i hi => ?_, fun p i hmem => ?_,
    fun f st hmem io => ?_⟩
  · have hzero := (lookEmpty_spec (fun i hi => absurd hi (Option.not_mem_none i)) i hi).2
    exact ⟨Inv.idle hinv i hzero, Inv.clean hinv i hzero⟩
  · exact (Inv.frames hinv _ hmem).elim
  · obtain ⟨l₁, l₂, hc⟩ := List.append_of_mem hmem
    have hF : s.frames.Perm (f :: (l₁.flatten ++ (st ++ l₂.flatten))) := by
      rw [State.frames, hc, List.flatten_append, List.flatten_cons]
      exact List.perm_middle
    exact (Inv.perm hinv hF (List.Perm.refl _)).finds_device

/-! ### Schedules -/

/-- What is done next. -/
inductive Act
  /-- The inode of the reference at this place is changed. -/
  | change (n : ℕ)
  | iput (n : ℕ)
  | lookup (n nr : ℕ)
  | umount (dev : ℕ)
  /-- The call at this place goes on; what is read is an inode with these fields. -/
  | run (n : ℕ)

/-- All can be read. -/
def Io.plain : Io := ⟨false, true, 0x81a4#16, 1#8, none⟩

namespace State

/-- The state that comes of it. -/
def act (s : State) : Act → Option State
  | .change n =>
    match s.refs.drop n with
    | [] => none
    | i :: _ =>
      some { s with world := s.world.setSlot i fun n =>
        { n with mode := 0x81a4#16, nlinks := 1#8, dirt := true } }
  | .iput n =>
    match s.refs.drop n with
    | [] => none
    | i :: l₂ => some { s with refs := s.refs.take n ++ l₂, calls := [.iput i none] :: s.calls }
  | .lookup n nr =>
    match s.refs.drop n with
    | [] => none
    | i :: l₂ => some { s with
      refs := s.refs.take n ++ l₂
      calls := [.iput i none, .iget (s.world.slot i).dev nr] :: s.calls }
  | .umount dev => some { s with calls := [.umount dev] :: s.calls }
  | .run n =>
    match s.calls.drop n with
    | (f :: st) :: l₂ =>
      match f.step s.world .plain with
      | .go w fs out => some ⟨w, out ++ s.refs, s.calls.take n ++ (fs ++ st) :: l₂⟩
      | _ => none
    | _ => none

/-- One after the other. -/
def replay (s : State) : List Act → Option State
  | [] => some s
  | a :: as =>
    match s.act a with
    | none => none
    | some t => replay t as

end State

/-- **What is replayed is a step.** -/
theorem act_step {a : Act} (h : s.act a = some s') : Step (fun _ _ => True) s s' := by
  have hdrop : ∀ {n i : ℕ} {l₂ : List ℕ}, s.refs.drop n = i :: l₂ →
      s.refs = s.refs.take n ++ i :: l₂ := by
    intro n i l₂ hr
    rw [← hr, List.take_append_drop]
  cases a with
  | change n =>
    rw [State.act] at h
    split at h
    · cases h
    · next i l₂ hr =>
      obtain rfl := Option.some.inj h
      refine .change ?_ _ _
      rw [hdrop hr]
      exact List.mem_append_right _ List.mem_cons_self
  | iput n =>
    rw [State.act] at h
    split at h
    · cases h
    · next i l₂ hr =>
      obtain rfl := Option.some.inj h
      exact .iput (hdrop hr)
  | lookup n nr =>
    rw [State.act] at h
    split at h
    · cases h
    · next i l₂ hr =>
      obtain rfl := Option.some.inj h
      exact .lookup (hdrop hr) nr
  | umount dev =>
    obtain rfl := Option.some.inj h
    exact .umount dev
  | run n =>
    rw [State.act] at h
    split at h
    · next f st l₂ hc =>
      split at h
      · next w fs out hgo =>
        obtain rfl := Option.some.inj h
        refine .run .plain ?_ trivial hgo
        rw [← hc, List.take_append_drop]
      · cases h
    · cases h

/-- **What is replayed is a run.** -/
theorem replay_steps {as : List Act} (h : s.replay as = some s') :
    Relation.ReflTransGen (Step fun _ _ => True) s s' := by
  induction as generalizing s with
  | nil =>
    obtain rfl := Option.some.inj h
    exact .refl
  | cons a as ih =>
    rw [State.replay] at h
    split at h
    · cases h
    · next t ha => exact .head (act_step ha) (ih h)

/-! ### A device that is unmounted too early -/

/-- **Device 2 is mounted** on inode 5 of device 1. Somebody has its root, and somebody a file. -/
def floppy : State where
  world :=
    { slot := fun i =>
        if i = 0 then ⟨0x41ed#16, 2#8, 1, 1, 4, false, false, false, false⟩
        else if i = 1 then ⟨0x41ed#16, 2#8, 1, 5, 1, false, false, false, true⟩
        else if i = 2 then ⟨0x41ed#16, 2#8, 2, 1, 1, false, false, false, false⟩
        else if i = 3 then ⟨0x81a4#16, 1#8, 2, 9, 1, true, false, false, false⟩
        else .zero
      last := 3
      super := fun k =>
        if k = 0 then ⟨1, false, some 0⟩ else if k = 1 then ⟨2, false, some 1⟩ else ⟨0, false, none⟩
      rootDev := 1 }
  refs := [2, 3]
  calls := []

/-- The file is closed, and is written, while somebody looks it up; device 2 is unmounted as soon as
it has been written, and then the lookup has it. -/
def early : List Act :=
  [.iput 1, .run 0, .lookup 0 9, .run 0, .run 0, .run 1, .run 1, .run 1, .umount 2, .run 0, .run 0,
    .run 0, .run 1, .run 1, .run 1, .change 0, .run 0, .run 0, .run 0, .run 0]

theorem floppy_start : Start floppy := by
  have hslot : ∀ i, 4 ≤ i → floppy.world.slot i = .zero := by
    intro i hi
    change (if i = 0 then _ else if i = 1 then _ else if i = 2 then _
      else if i = 3 then _ else _) = _
    rw [if_neg (by omega), if_neg (by omega), if_neg (by omega), if_neg (by omega)]
  have hcases : ∀ P : ℕ → Prop, P 0 → P 1 → P 2 → P 3 → (∀ i, 4 ≤ i → P i) → ∀ i, P i := by
    intro P h0 h1 h2 h3 hrest i
    match i with
    | 0 => exact h0
    | 1 => exact h1
    | 2 => exact h2
    | 3 => exact h3
    | n + 4 => exact hrest (n + 4) (Nat.le_add_left 4 n)
  have hsuper : ∀ k, 2 ≤ k → floppy.world.super k = ⟨0, false, none⟩ := by
    intro k hk
    change (if k = 0 then _ else if k = 1 then _ else _) = _
    rw [if_neg (by omega), if_neg (by omega)]
  have hpins : ∀ i, 4 ≤ i → pins floppy.world (fun _ => 0) i = 0 := by
    intro i hi
    refine List.countP_eq_zero.mpr fun k _ h => ?_
    rw [decide_eq_true_eq] at h
    match k with
    | 0 => exact absurd (Option.some.inj h.1) (by omega)
    | 1 => exact absurd (Option.some.inj h.1) (by omega)
    | n + 2 =>
      rw [hsuper (n + 2) (Nat.le_add_left 2 n)] at h
      cases h.1
  constructor
  · rfl
  · refine hcases _ (by decide) (by decide) (by decide) (by decide) fun i hi => ?_
    have hnot : i ∉ floppy.refs := by
      intro hmem
      have : i = 2 ∨ i = 3 := by simpa [floppy] using hmem
      omega
    rw [hpins i hi, List.count_eq_zero.mpr hnot]
    exact Nat.zero_le _
  · refine hcases _ (by decide) (by decide) (by decide) (by decide) fun i hi => ?_
    rw [hpins i hi]
    exact Nat.zero_le 1
  · exact hcases _ rfl rfl rfl rfl fun i hi => by rw [hslot i hi]; rfl
  · exact hcases _ (by decide) (by decide) (by decide) (by decide) fun i hi _ => by
      rw [hslot i hi]; rfl
  · exact hcases _ (by decide) (by decide) (by decide) (by decide) fun i hi _ _ => by
      rw [hslot i hi]; rfl
  · intro i hi
    rw [hslot i (le_trans (by decide) hi)]
    rfl
  · intro i hi
    have : i = 2 ∨ i = 3 := by simpa [floppy] using hi
    rcases this with rfl | rfl
    · exact Or.inl (by decide)
    · exact Or.inl (by decide)
  · refine hcases _ ?_ ?_ ?_ ?_ fun i hi h0 => ?_
    · exact fun _ _ => ⟨0, by decide, rfl⟩
    · exact fun _ _ => ⟨0, by decide, rfl⟩
    · exact fun _ _ => ⟨1, by decide, rfl⟩
    · exact fun _ _ => ⟨1, by decide, rfl⟩
    · rw [hslot i hi] at h0
      exact absurd h0 (Nat.lt_irrefl 0)
  · intro k
    match k with
    | 0 => rfl
    | 1 => rfl
    | n + 2 =>
      rw [hsuper (n + 2) (Nat.le_add_left 2 n)]
  · have hused : ∀ k, (floppy.world.super k).dev ≠ 0 → k < 2 := by
      intro k h0
      by_contra hk
      rw [hsuper k (Nat.le_of_not_lt hk)] at h0
      exact h0 rfl
    have hall : ∀ k < 2, ∀ k' < 2,
        (floppy.world.super k).dev = (floppy.world.super k').dev → k = k' := by decide
    intro k k' _ _ h0 heq
    exact hall k (hused k h0) k' (hused k' (heq ▸ h0)) heq
  · refine hcases _ (by decide) ?_ (by decide) (by decide) fun i hi hm => ?_
    · exact fun _ => ⟨1, by decide, rfl, by decide⟩
    · rw [hslot i hi] at hm
      exact absurd hm Bool.false_ne_true

/-- What a call that panics says. -/
def Turn.message : Turn → Option String
  | .panic message => some message
  | _ => none

/-- **A file is closed**: at the end nobody has it, and it is clean. -/
theorem unreferenced_clean_closed : ∃ s, Reachable Start
    (Step fun s f => Fine s.world s.frames f) s ∧ (s.world.slot 3).count = 0 ∧
    (s.world.slot 3).dirt = false := by
  have h₁ := (Reachable.start floppy_start).next
    (@Step.iput (fun s f => Fine s.world s.frames f) floppy 3 [2] [] rfl)
  have h₂ := h₁.next (@Step.run _ _ (.iput 3 none) [] [.writeBread 3, .iputRepeat 3 none] [] [] _ []
    .plain rfl trivial rfl)
  have h₃ := h₂.next (@Step.run _ _ (.writeBread 3) [.iputRepeat 3 none] [.writeDone 3] [] [] _ []
    .plain rfl trivial rfl)
  have h₄ := h₃.next (@Step.run _ _ (.writeDone 3) [.iputRepeat 3 none] [] [] [] _ []
    .plain rfl trivial rfl)
  have h₅ := h₄.next (@Step.run _ _ (.iputRepeat 3 none) [] [] [] [] _ [] .plain rfl trivial rfl)
  exact ⟨_, h₅, rfl, (unreferenced_clean _ h₅).1 3 rfl (by decide)⟩

/-- **A device is unmounted too early**: it is gone when `sync_dev` comes to the file. -/
theorem not_unreferenced_clean : ∃ s, Reachable Start (Step fun _ _ => True) s ∧
    ∃ f st, f :: st ∈ s.calls ∧ ∃ io,
      f.step s.world io = .panic "trying to write inode without device" := by
  have hrun : (floppy.replay early).map (fun s => (s.calls.head?.bind List.head?).bind fun f =>
      (f.step s.world .plain).message) = some (some "trying to write inode without device") := by
    decide +kernel
  obtain ⟨s, hs, hpanic⟩ := Option.map_eq_some_iff.mp hrun
  refine ⟨s, ⟨floppy, floppy_start, replay_steps hs⟩, ?_⟩
  rcases hc : s.calls with _ | ⟨_ | ⟨f, st⟩, cs⟩
  · rw [hc] at hpanic
    cases hpanic
  · rw [hc] at hpanic
    cases hpanic
  · rw [hc] at hpanic
    change (f.step s.world .plain).message = _ at hpanic
    refine ⟨f, st, List.mem_cons_self, .plain, ?_⟩
    cases hstep : f.step s.world .plain with
    | wait =>
      rw [hstep] at hpanic
      cases hpanic
    | panic message =>
      rw [hstep] at hpanic
      rw [Option.some.inj hpanic]
    | go w fs out =>
      rw [hstep] at hpanic
      cases hpanic

end Linux011.Inodes.Mounting

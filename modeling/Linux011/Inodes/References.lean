import Linux011.Inodes.Mounting
import Mathlib.Data.List.Nodup
import Mathlib.Data.List.Perm.Basic

/-!
# References, counted

All references to an inode are counted: those that tasks have, those of the calls under way, and one
for every super block that is mounted on it (`Linux011.Inodes.Mounting.Inv`). The invariant also
tells what is known at each place where a call may be, and which devices are in use.

This file has the invariant, and what becomes of it when calls come and go and when one inode
changes.
-/

namespace Linux011.Inodes.Mounting

variable {w w' : World} {refs refs' : List ℕ} {f : Frame} {F R G : List Frame} {i j k e d : ℕ}
  {u : Option (ℕ × ℕ)} {U U' : ℕ → ℕ}

/-! ### What calls have -/

/-- The references of a call. -/
def Frame.holds : Frame → List ℕ
  | .igetWait _ _ e _ => [e]
  | .igetCross e _ => [e]
  | .igetPut i => [i]
  | .igetRead i => [i]
  | .iput i _ => [i]
  | .iputRepeat i _ => [i]
  | .truncate i _ => [i]
  | .sysMount _ i => [i]
  | .mountSuper _ i => [i]
  | .mountRead _ i => [i]
  | .keep i => [i]
  | _ => []

/-- The inode that something is being mounted on, or has been. -/
def Frame.claims : Frame → List ℕ
  | .iput i (some _) => [i]
  | .iputRepeat i (some _) => [i]
  | .truncate i (some _) => [i]
  | .mountSuper _ i => [i]
  | .mountRead _ i => [i]
  | _ => []

/-- The super block of a device that is being unmounted, still with its inode. -/
def Frame.unmounts : Frame → List ℕ
  | .iput _ (some u) => [u.1]
  | .iputRepeat _ (some u) => [u.1]
  | .truncate _ (some u) => [u.1]
  | _ => []

/-- The super block that a call has locked. -/
def Frame.locks : Frame → List ℕ
  | .mountRead k _ => [k]
  | .putBrelse k => [k]
  | _ => []

/-- **A call is on its way to an inode of this device**, and has none yet. -/
def Frame.enters (w : World) (dev : ℕ) : Frame → Prop
  | .iget d _ => d = dev
  | .new d => d = dev
  | .getEmpty (.iget d _) _ => d = dev
  | .getEmpty (.new d) _ => d = dev
  | .igetWait d _ _ _ => d = dev
  | .igetCross _ k => (w.super k).dev = dev
  | .newSuper d _ => d = dev
  | _ => False

/-- How often something occurs in all calls. -/
def total (g : Frame → List ℕ) (F : List Frame) (i : ℕ) : ℕ := (F.flatMap g).count i

@[simp] theorem total_cons (g : Frame → List ℕ) :
    total g (f :: F) i = (g f).count i + total g F i := by
  rw [total, List.flatMap_cons, List.count_append]
  rfl

@[simp] theorem total_append (g : Frame → List ℕ) :
    total g (F ++ R) i = total g F i + total g R i := by
  rw [total, List.flatMap_append, List.count_append]
  rfl

/-- A call adds nothing of a kind. -/
theorem total_cons_nil {g : Frame → List ℕ} (hg : g f = []) : total g (f :: R) = total g R := by
  ext i
  rw [total_cons, hg]
  exact Nat.zero_add _

theorem total_perm (g : Frame → List ℕ) (h : F.Perm R) : total g F = total g R := by
  ext i
  exact (h.flatMap_right g).count_eq i

theorem total_eq_zero {g : Frame → List ℕ} (h : total g F i = 0) (hf : f ∈ F) : i ∉ g f := by
  intro hi
  exact List.count_eq_zero.mp h (List.mem_flatMap.mpr ⟨f, hf, hi⟩)

theorem total_pos {g : Frame → List ℕ} (hf : f ∈ F) (hi : i ∈ g f) : 0 < total g F i :=
  Nat.pos_of_ne_zero fun h => total_eq_zero h hf hi

/-! ### The invariant -/

/-- **A super block in use**, and not about to be given up. -/
structure LiveAt (w : World) (U : ℕ → ℕ) (k : ℕ) : Prop where
  lt : k < nrSuper
  dev : (w.super k).dev ≠ 0
  lock : (w.super k).lock = false
  unmounts : U k = 0

/-- The device has one. -/
def Live (w : World) (U : ℕ → ℕ) (d : ℕ) : Prop := ∃ k, LiveAt w U k ∧ (w.super k).dev = d

/-- The super blocks that count for a reference to the inode. -/
def pins (w : World) (U : ℕ → ℕ) (i : ℕ) : ℕ :=
  (List.range nrSuper).countP fun k => (w.super k).imount = some i ∧ U k = 0

/-- An empty inode that a call has taken. -/
structure Blank (w : World) (i : ℕ) : Prop where
  dev : (w.slot i).dev = 0
  pipe : (w.slot i).pipe = false
  count : (w.slot i).count = 1
  lt : i < nrInode

/-- An inode that is what it is. -/
def Real (w : World) (i : ℕ) : Prop := (w.slot i).dev ≠ 0 ∨ (w.slot i).pipe = true

/-- What the call that unmounts knows of the super block. -/
def Mounted (w : World) (i : ℕ) (u : Option (ℕ × ℕ)) : Prop :=
  ∀ k d, u = some (k, d) → k < nrSuper ∧ (w.super k).imount = some i ∧ (w.super k).dev = d ∧
    d ≠ 0 ∧ (w.super k).lock = false

/-- **What holds at the place a call is at.** There are places where no task ever sleeps. -/
def FrameOk (w : World) (U : ℕ → ℕ) : Frame → Prop
  | .iget d _ => d ≠ 0 → Live w U d
  | .new d => d ≠ 0 → Live w U d
  | .igetWait d _ e i => Live w U d ∧ Blank w e ∧ i < nrInode
  | .igetCross e k => LiveAt w U k ∧ Blank w e
  | .igetPut i => Real w i
  | .igetRead i => Real w i
  | .iput i u => Mounted w i u
  | .iputRepeat i u => Mounted w i u ∧ (w.slot i).dev ≠ 0
  | .truncate i u => Mounted w i u ∧ (w.slot i).dev ≠ 0
  | .sysMount _ i => Real w i
  | .mountSuper _ i => Real w i
  | .mountRead k i => Real w i ∧ k < nrSuper ∧ (w.super k).dev ≠ 0
  | .putBrelse k => (w.super k).dev = 0
  | .keep i => Real w i
  | .getEmpty _ _ => False
  | .newSuper _ _ => False
  | .freeSuper _ _ => False
  | .readLock _ => False
  | .readSuper _ => False
  | .writeSuper _ => False
  | .mountLock _ _ => False
  | .putSuper _ => False
  | _ => True

/-- **The references are counted**, and what nobody has is clean. -/
structure Inv (w : World) (refs : List ℕ) (F : List Frame) : Prop where
  count : ∀ i, refs.count i + total Frame.holds F i + pins w (total Frame.unmounts F) i ≤
    (w.slot i).count
  claim : ∀ i, total Frame.claims F i + pins w (total Frame.unmounts F) i ≤ 1
  /-- **What nobody has is clean.** -/
  clean : ∀ i, (w.slot i).count = 0 → (w.slot i).dirt = false
  idle : ∀ i, (w.slot i).count = 0 → (w.slot i).lock = false
  blank : ∀ i, (w.slot i).dev = 0 → (w.slot i).pipe = false →
    (w.slot i).dirt = false ∧ (w.slot i).lock = false
  table : ∀ i, nrInode ≤ i → (w.slot i).count = 0
  real : ∀ i ∈ refs, Real w i
  /-- **What somebody has is on a device in use.** -/
  live : ∀ i, 0 < (w.slot i).count → (w.slot i).dev ≠ 0 →
    Live w (total Frame.unmounts F) (w.slot i).dev
  devs : ∀ k k', k < nrSuper → k' < nrSuper → (w.super k).dev ≠ 0 →
    (w.super k).dev = (w.super k').dev → k = k'
  locks : ∀ k, total Frame.locks F k = if (w.super k).lock then 1 else 0
  once : ∀ k, total Frame.unmounts F k ≤ 1
  mount : ∀ i, (w.slot i).mount = true →
    ∃ k, (w.super k).imount = some i ∧ LiveAt w (total Frame.unmounts F) k
  frames : ∀ f ∈ F, FrameOk w (total Frame.unmounts F) f

/-! ### Calls that come and go -/

/-- **Calls come and go**, and hand references on. -/
theorem Inv.calls (h : Inv w refs F)
    (hcount : ∀ i, refs'.count i + total Frame.holds R i ≤ refs.count i + total Frame.holds F i)
    (hclaim : ∀ i, total Frame.claims R i + pins w (total Frame.unmounts F) i ≤ 1)
    (hU : total Frame.unmounts R = total Frame.unmounts F)
    (hL : total Frame.locks R = total Frame.locks F) (hreal : ∀ i ∈ refs', Real w i)
    (hframes : ∀ f ∈ R, FrameOk w (total Frame.unmounts F) f) : Inv w refs' R := by
  constructor
  · intro i
    have := h.count i
    have := hcount i
    rw [hU]
    omega
  · rw [hU]
    exact hclaim
  · exact h.clean
  · exact h.idle
  · exact h.blank
  · exact h.table
  · exact hreal
  · rw [hU]
    exact h.live
  · exact h.devs
  · rw [hL]
    exact h.locks
  · rw [hU]
    exact h.once
  · rw [hU]
    exact h.mount
  · rw [hU]
    exact hframes

/-- The order does not matter. -/
theorem Inv.perm (h : Inv w refs F) (hF : F.Perm R) (hr : refs.Perm refs') :
    Inv w refs' R := by
  refine h.calls (fun i => ?_) (fun i => ?_) (total_perm _ hF).symm (total_perm _ hF).symm
    (fun i hi => h.real i (hr.mem_iff.mpr hi)) fun f hf => h.frames f (hF.mem_iff.mpr hf)
  · rw [hr.count_eq, total_perm _ hF]
  · rw [← total_perm _ hF]
    exact h.claim i

/-- A call is replaced by calls that have no more than it has. -/
theorem Inv.swap (h : Inv w refs (f :: R)) (hh : ∀ i, total Frame.holds G i ≤ f.holds.count i)
    (hc : ∀ i, total Frame.claims G i ≤ f.claims.count i)
    (hu : ∀ k, total Frame.unmounts G k = f.unmounts.count k)
    (hl : ∀ k, total Frame.locks G k = f.locks.count k)
    (hok : ∀ g ∈ G, FrameOk w (total Frame.unmounts (f :: R)) g) : Inv w refs (G ++ R) := by
  refine h.calls (fun i => ?_) (fun i => ?_) ?_ ?_ h.real fun g hg => ?_
  · have := hh i
    rw [total_append, total_cons]
    omega
  · have := h.claim i
    have := hc i
    rw [total_append]
    rw [total_cons] at *
    omega
  · ext k
    rw [total_append, total_cons, hu]
  · ext k
    rw [total_append, total_cons, hl]
  · rcases List.mem_append.mp hg with hg | hg
    · exact hok g hg
    · exact h.frames g (List.mem_cons_of_mem f hg)

/-- A call goes on with what it has, at another place. -/
theorem Inv.go {c : Frame} (h : Inv w refs (f :: R)) (hh : c.holds = f.holds)
    (hc : c.claims = f.claims) (hu : c.unmounts = f.unmounts) (hl : c.locks = f.locks)
    (hok : FrameOk w (total Frame.unmounts (f :: R)) c) : Inv w refs (c :: R) := by
  refine h.swap (G := [c]) (fun i => ?_) (fun i => ?_) (fun i => ?_) (fun i => ?_) fun g hg => ?_
  · rw [total_cons, hh]
    exact le_rfl
  · rw [total_cons, hc]
    exact le_rfl
  · rw [total_cons, hu]
    rfl
  · rw [total_cons, hl]
    rfl
  · rw [List.mem_singleton.mp hg]
    exact hok

/-- A call that has nothing. -/
theorem Inv.push (h : Inv w refs R) (hh : f.holds = []) (hc : f.claims = []) (hu : f.unmounts = [])
    (hl : f.locks = []) (hok : FrameOk w (total Frame.unmounts R) f) : Inv w refs (f :: R) := by
  refine h.calls (fun i => ?_) (fun i => ?_) (total_cons_nil hu) (total_cons_nil hl) h.real
    fun g hg => ?_
  · rw [total_cons_nil hh]
  · rw [total_cons_nil hc]
    exact h.claim i
  · rcases List.mem_cons.mp hg with rfl | hg
    · exact hok
    · exact h.frames g hg

/-- A call is over. -/
theorem Inv.pop (h : Inv w refs (f :: R)) (hu : f.unmounts = []) (hl : f.locks = []) :
    Inv w refs R := by
  refine h.swap (G := []) (fun _ => Nat.zero_le _) (fun _ => Nat.zero_le _) (fun _ => ?_)
    (fun _ => ?_) fun g hg => absurd hg List.not_mem_nil
  · rw [hu]
    rfl
  · rw [hl]
    rfl

/-- The directory is given back. -/
theorem Inv.putDir (h : Inv w refs (f :: R)) (hh : f.holds = [i]) (hu : f.unmounts = [])
    (hl : f.locks = []) : Inv w refs (.iput i none :: R) := by
  refine h.swap (G := [.iput i none]) (fun j => ?_) (fun j => ?_) (fun j => ?_) (fun j => ?_)
    fun g hg => ?_
  · rw [total_cons, hh]
    exact le_rfl
  · exact Nat.zero_le _
  · rw [hu]
    rfl
  · rw [hl]
    rfl
  · rw [List.mem_singleton.mp hg]
    exact fun k d hu => absurd hu (by simp)

/-- A reference of a task becomes one of a call. -/
theorem Inv.lend (h : Inv w (i :: refs) R) (hh : f.holds = [i]) (hc : f.claims = [])
    (hu : f.unmounts = []) (hl : f.locks = []) (hok : FrameOk w (total Frame.unmounts R) f) :
    Inv w refs (f :: R) := by
  refine h.calls (fun j => ?_) (fun j => ?_) (total_cons_nil hu) (total_cons_nil hl)
    (fun j hj => h.real j (List.mem_cons_of_mem i hj)) fun g hg => ?_
  · have hcons : (i :: refs).count j = refs.count j + [i].count j := by
      rw [← List.singleton_append, List.count_append, Nat.add_comm]
    rw [total_cons, hh, hcons]
    omega
  · rw [total_cons_nil hc]
    exact h.claim j
  · rcases List.mem_cons.mp hg with rfl | hg
    · exact hok
    · exact h.frames g hg

/-- A reference that is about to be given back tells nothing of super blocks. -/
theorem unmounts_iput (i : ℕ) (F : List Frame) :
    total Frame.unmounts (.iput i none :: F) = total Frame.unmounts F := total_cons_nil rfl

theorem locks_iput (i : ℕ) (F : List Frame) :
    total Frame.locks (.iput i none :: F) = total Frame.locks F := total_cons_nil rfl

theorem claims_iput (i : ℕ) (F : List Frame) :
    total Frame.claims (.iput i none :: F) = total Frame.claims F := total_cons_nil rfl

theorem holds_iput (i : ℕ) (F : List Frame) (j : ℕ) :
    total Frame.holds (.iput i none :: F) j = [i].count j + total Frame.holds F j := total_cons _

/-- **The caller has the inode.** -/
theorem Inv.hand (h : Inv w refs (.iput i none :: R)) (hr : Real w i) : Inv w (i :: refs) R := by
  refine h.calls (fun j => ?_) (fun j => ?_) (unmounts_iput i R).symm (locks_iput i R).symm
    (fun j hj => ?_) fun g hg => h.frames g (List.mem_cons_of_mem _ hg)
  · have hcons : (i :: refs).count j = refs.count j + [i].count j := by
      rw [← List.singleton_append, List.count_append, Nat.add_comm]
    rw [holds_iput, hcons]
    omega
  · have := h.claim j
    rwa [claims_iput] at this
  · rcases List.mem_cons.mp hj with rfl | hj
    · exact hr
    · exact h.real j hj

theorem claims_le_holds (F : List Frame) (i : ℕ) :
    total Frame.claims F i ≤ total Frame.holds F i := by
  have hframe : ∀ f : Frame, f.claims.count i ≤ f.holds.count i := by
    intro f
    cases f with
    | iput i u => cases u <;> exact List.Sublist.count_le _ (by simp [Frame.claims, Frame.holds])
    | iputRepeat i u =>
      cases u <;> exact List.Sublist.count_le _ (by simp [Frame.claims, Frame.holds])
    | truncate i u =>
      cases u <;> exact List.Sublist.count_le _ (by simp [Frame.claims, Frame.holds])
    | mountSuper d i => exact le_rfl
    | mountRead k i => exact le_rfl
    | _ => exact Nat.zero_le _
  induction F with
  | nil => exact le_rfl
  | cons f F ih =>
    rw [total_cons, total_cons]
    exact Nat.add_le_add (hframe f) ih

/-- **The only reference** may become a claim. -/
theorem Inv.claimDir (h : Inv w refs (.sysMount d i :: R)) (hone : (w.slot i).count = 1) :
    Inv w refs (.mountSuper d i :: R) := by
  refine h.calls (fun j => le_rfl) (fun j => ?_) rfl rfl h.real fun g hg => ?_
  · rw [total_cons, total_cons_nil rfl]
    by_cases hj : j = i
    · have h1 := h.count i
      have h2 := claims_le_holds R i
      rw [total_cons, hone, total_cons_nil rfl] at h1
      change _ + ([i].count i + _) + _ ≤ _ at h1
      rw [List.count_singleton_self] at h1
      rw [hj]
      change [i].count i + _ + _ ≤ _
      rw [List.count_singleton_self]
      omega
    · have h1 := h.claim j
      rw [total_cons, total_cons_nil rfl] at h1
      change 0 + _ + _ ≤ 1 at h1
      change [i].count j + _ + _ ≤ _
      rw [List.count_singleton, if_neg (by simpa using Ne.symm hj)]
      exact h1
  · rcases List.mem_cons.mp hg with rfl | hg
    · have hreal : Real w i := h.frames (.sysMount d i) List.mem_cons_self
      exact hreal
    · exact h.frames g (List.mem_cons_of_mem _ hg)

/-! ### Changes of one inode -/

variable {g : MInode → MInode}

@[simp] theorem setSlot_self (w : World) (i : ℕ) (g : MInode → MInode) :
    (w.setSlot i g).slot i = g (w.slot i) := Function.update_self ..

theorem setSlot_of_ne (w : World) (g : MInode → MInode) (h : j ≠ i) :
    (w.setSlot i g).slot j = w.slot j := Function.update_of_ne h ..

theorem Live.mono (h : Live w U d)
    (hlive : ∀ k, LiveAt w U k → (w.super k).dev = d →
      LiveAt w' U' k ∧ (w'.super k).dev = (w.super k).dev) : Live w' U' d := by
  obtain ⟨k, hk, hd⟩ := h
  obtain ⟨hk', hsame⟩ := hlive k hk hd
  exact ⟨k, hk', hsame.trans hd⟩

theorem Mounted.mono (h : Mounted w i u) (hs : ∀ v, u = some v → w'.super v.1 = w.super v.1) :
    Mounted w' i u := by
  intro k d hu
  rw [hs (k, d) hu]
  exact h k d hu

/-- **What a call knows stays true** while others change what is not its own. -/
theorem FrameOk.mono (h : FrameOk w U f)
    (hkind : ∀ i ∈ f.holds, (w'.slot i).dev = (w.slot i).dev ∧ (w'.slot i).pipe = (w.slot i).pipe)
    (hblank : ∀ i ∈ f.holds, Blank w i → Blank w' i)
    (hlive : ∀ k, LiveAt w U k → f.enters w (w.super k).dev →
      LiveAt w' U' k ∧ (w'.super k).dev = (w.super k).dev)
    (hun : ∀ k ∈ f.unmounts, w'.super k = w.super k)
    (hlk : ∀ k ∈ f.locks, (w'.super k).dev = (w.super k).dev) : FrameOk w' U' f := by
  have hreal : ∀ i ∈ f.holds, Real w i → Real w' i := by
    intro i hi hr
    rw [Real, (hkind i hi).1, (hkind i hi).2]
    exact hr
  cases f with
  | iget d nr => exact fun hd => (h hd).mono fun k hk hdev => hlive k hk hdev.symm
  | new d => exact fun hd => (h hd).mono fun k hk hdev => hlive k hk hdev.symm
  | igetWait d nr e i =>
    exact ⟨h.1.mono fun k hk hdev => hlive k hk hdev.symm,
      hblank e (List.mem_singleton_self e) h.2.1, h.2.2⟩
  | igetCross e k => exact ⟨(hlive k h.1 rfl).1, hblank e (List.mem_singleton_self e) h.2⟩
  | igetPut i => exact hreal i (List.mem_singleton_self i) h
  | igetRead i => exact hreal i (List.mem_singleton_self i) h
  | iput i u =>
    refine Mounted.mono h fun v hv => hun v.1 ?_
    subst hv
    exact List.mem_singleton_self v.1
  | iputRepeat i u =>
    have hdev := (hkind i (List.mem_singleton_self i)).1
    refine ⟨h.1.mono fun v hv => hun v.1 ?_, fun h0 => h.2 (hdev ▸ h0)⟩
    subst hv
    exact List.mem_singleton_self v.1
  | truncate i u =>
    have hdev := (hkind i (List.mem_singleton_self i)).1
    refine ⟨h.1.mono fun v hv => hun v.1 ?_, fun h0 => h.2 (hdev ▸ h0)⟩
    subst hv
    exact List.mem_singleton_self v.1
  | sysMount d i => exact hreal i (List.mem_singleton_self i) h
  | mountSuper d i => exact hreal i (List.mem_singleton_self i) h
  | mountRead k i =>
    refine ⟨hreal i (List.mem_singleton_self i) h.1, h.2.1, ?_⟩
    rw [hlk k (List.mem_singleton_self k)]
    exact h.2.2
  | putBrelse k => exact (hlk k (List.mem_singleton_self k)).trans h
  | keep i => exact hreal i (List.mem_singleton_self i) h
  | getEmpty p i => exact h
  | newSuper d i => exact h
  | freeSuper i u => exact h
  | readLock i => exact h
  | readSuper i => exact h
  | writeSuper i => exact h
  | mountLock k i => exact h
  | putSuper d => exact h
  | readBread i => trivial
  | readDone i => trivial
  | writeLock i => trivial
  | writeBread i => trivial
  | writeDone i => trivial
  | syncDev => trivial
  | syncInodes i => trivial
  | syncBuffers => trivial
  | umount d => trivial

/-- Only one inode has changed, and calls have come and gone. -/
theorem FrameOk.setSlot (h : FrameOk w U f)
    (hkind : i ∈ f.holds → (g (w.slot i)).dev = (w.slot i).dev ∧
      (g (w.slot i)).pipe = (w.slot i).pipe)
    (hblank : i ∈ f.holds → Blank w i → Blank (w.setSlot i g) i) :
    FrameOk (w.setSlot i g) U f := by
  refine h.mono (fun j hj => ?_) (fun j hj hb => ?_) (fun k hk _ => ⟨?_, rfl⟩) (fun _ _ => rfl)
    fun _ _ => rfl
  · by_cases hji : j = i
    · subst hji
      rw [setSlot_self]
      exact hkind hj
    · rw [setSlot_of_ne w g hji]
      exact ⟨rfl, rfl⟩
  · by_cases hji : j = i
    · subst hji
      exact hblank hj hb
    · obtain ⟨hdev, hpipe, hcount, hlt⟩ := hb
      constructor
      · rwa [setSlot_of_ne w g hji]
      · rwa [setSlot_of_ne w g hji]
      · rwa [setSlot_of_ne w g hji]
      · exact hlt
  · exact ⟨hk.lt, hk.dev, hk.lock, hk.unmounts⟩

/-- **A store into one inode**, by a call that becomes others. -/
theorem Inv.store (h : Inv w refs F) (hU : total Frame.unmounts R = total Frame.unmounts F)
    (hL : total Frame.locks R = total Frame.locks F)
    (hC : ∀ j, total Frame.claims R j ≤ total Frame.claims F j)
    (hcount : ∀ j, refs'.count j + total Frame.holds R j + pins w (total Frame.unmounts F) j ≤
      ((w.setSlot i g).slot j).count)
    (hclean : (g (w.slot i)).count = 0 → (g (w.slot i)).dirt = false ∧ (g (w.slot i)).lock = false)
    (hblank : (g (w.slot i)).dev = 0 → (g (w.slot i)).pipe = false →
      (g (w.slot i)).dirt = false ∧ (g (w.slot i)).lock = false)
    (htable : nrInode ≤ i → (g (w.slot i)).count = 0)
    (hreal : ∀ j ∈ refs', Real (w.setSlot i g) j)
    (hlive : 0 < (g (w.slot i)).count → (g (w.slot i)).dev ≠ 0 →
      Live w (total Frame.unmounts F) (g (w.slot i)).dev)
    (hmount : (g (w.slot i)).mount = true → (w.slot i).mount = true)
    (hframes : ∀ f ∈ R, FrameOk (w.setSlot i g) (total Frame.unmounts F) f) :
    Inv (w.setSlot i g) refs' R := by
  have hslot : ∀ P : MInode → Prop, ∀ j, P (g (w.slot i)) → P (w.slot j) →
      P ((w.setSlot i g).slot j) := by
    intro P j hi hj
    by_cases hji : j = i
    · rw [hji, setSlot_self]
      exact hi
    · rw [setSlot_of_ne w g hji]
      exact hj
  have hlive' : ∀ d, Live w (total Frame.unmounts F) d →
      Live (w.setSlot i g) (total Frame.unmounts F) d := fun d hd =>
    hd.mono fun k hk _ => ⟨⟨hk.lt, hk.dev, hk.lock, hk.unmounts⟩, rfl⟩
  constructor
  · rw [hU]
    exact hcount
  · intro j
    rw [hU]
    exact (Nat.add_le_add_right (hC j) _).trans (h.claim j)
  · exact fun j =>
      hslot (fun n => n.count = 0 → n.dirt = false) j (fun h0 => (hclean h0).1) (h.clean j)
  · exact fun j =>
      hslot (fun n => n.count = 0 → n.lock = false) j (fun h0 => (hclean h0).2) (h.idle j)
  · exact fun j => hslot (fun n => n.dev = 0 → n.pipe = false → n.dirt = false ∧ n.lock = false) j
      hblank (h.blank j)
  · intro j hj
    by_cases hji : j = i
    · rw [hji, setSlot_self]
      exact htable (hji ▸ hj)
    · rw [setSlot_of_ne w g hji]
      exact h.table j hj
  · exact hreal
  · rw [hU]
    exact fun j => hslot (fun n => 0 < n.count → n.dev ≠ 0 →
      Live (w.setSlot i g) (total Frame.unmounts F) n.dev) j
      (fun h0 hd => hlive' _ (hlive h0 hd)) fun h0 hd => hlive' _ (h.live j h0 hd)
  · exact h.devs
  · rw [hL]
    exact h.locks
  · rw [hU]
    exact h.once
  · intro j hj
    rw [hU]
    have hj' : (w.slot j).mount = true := by
      by_cases hji : j = i
      · rw [hji] at hj ⊢
        rw [setSlot_self] at hj
        exact hmount hj
      · rwa [setSlot_of_ne w g hji] at hj
    obtain ⟨k, hk, hl⟩ := h.mount j hj'
    exact ⟨k, hk, hl.lt, hl.dev, hl.lock, hl.unmounts⟩
  · rw [hU]
    exact hframes

/-- The reference is counted. -/
theorem Inv.own (h : Inv w refs (.iput i none :: R)) :
    refs.count i + total Frame.holds R i + pins w (total Frame.unmounts R) i + 1 ≤
      (w.slot i).count := by
  have := h.count i
  rw [holds_iput, unmounts_iput, List.count_singleton_self] at this
  omega

/-- **The inode stays what it is**, and as clean as it has to be. -/
theorem Inv.neutral (h : Inv w refs F) (hc : (g (w.slot i)).count = (w.slot i).count)
    (hd : (g (w.slot i)).dev = (w.slot i).dev) (hp : (g (w.slot i)).pipe = (w.slot i).pipe)
    (hm : (g (w.slot i)).mount = true → (w.slot i).mount = true)
    (hclean : (w.slot i).count = 0 ∨ ((w.slot i).dev = 0 ∧ (w.slot i).pipe = false) →
      (g (w.slot i)).dirt = false ∧ (g (w.slot i)).lock = false) :
    Inv (w.setSlot i g) refs F := by
  have hreal : Real w i → Real (w.setSlot i g) i := by
    intro hr
    rw [Real, setSlot_self, hd, hp]
    exact hr
  refine h.store rfl rfl (fun _ => le_rfl) (fun j => ?_) (fun h0 => hclean (Or.inl (hc ▸ h0)))
    (fun h0 h1 => hclean (Or.inr ⟨hd ▸ h0, hp ▸ h1⟩)) (fun hi => ?_) (fun j hj => ?_)
    (fun h0 h1 => ?_) hm fun f hf => ?_
  · have := h.count j
    by_cases hji : j = i
    · rw [hji, setSlot_self, hc]
      rwa [hji] at this
    · rwa [setSlot_of_ne w g hji]
  · rw [hc]
    exact h.table i hi
  · by_cases hji : j = i
    · rw [hji]
      exact hreal (hji ▸ h.real j hj)
    · rw [Real, setSlot_of_ne w g hji]
      exact h.real j hj
  · rw [hd] at h1 ⊢
    rw [hc] at h0
    exact h.live i h0 h1
  · refine (h.frames f hf).setSlot (fun _ => ⟨hd, hp⟩) fun _ hb => ?_
    constructor
    · rw [setSlot_self, hd]
      exact hb.dev
    · rw [setSlot_self, hp]
      exact hb.pipe
    · rw [setSlot_self, hc]
      exact hb.count
    · exact hb.lt

/-- **One reference more.** -/
theorem Inv.inc (h : Inv w refs F) (hi : i < nrInode) (hdev : (w.slot i).dev ≠ 0)
    (hlive : Live w (total Frame.unmounts F) (w.slot i).dev) :
    Inv (w.inc i) refs (.iput i none :: F) := by
  refine h.store (unmounts_iput i F) (locks_iput i F) (fun j => (congrFun (claims_iput i F) j).le)
    (fun j => ?_) (fun h0 => absurd h0 (Nat.succ_ne_zero _))
    (fun h0 => absurd h0 hdev) (fun hi' => absurd hi (Nat.not_lt_of_le hi')) (fun j hj => ?_)
    (fun _ _ => hlive) (fun hm => hm) fun f hf => ?_
  · have := h.count j
    rw [holds_iput]
    by_cases hji : j = i
    · rw [hji, setSlot_self, List.count_singleton_self]
      rw [hji] at this
      dsimp only
      omega
    · rw [setSlot_of_ne w _ hji, List.count_singleton, if_neg (by simpa using Ne.symm hji)]
      omega
  · by_cases hji : j = i
    · rw [hji]
      left
      rw [setSlot_self]
      exact hdev
    · rw [Real, setSlot_of_ne w _ hji]
      exact h.real j hj
  · rcases List.mem_cons.mp hf with rfl | hf
    · exact fun k d hu => absurd hu (by simp)
    · exact (h.frames f hf).setSlot (fun _ => ⟨rfl, rfl⟩) fun _ hb => absurd hb.dev hdev

/-- **One reference less**: of the last, nothing remains to be done. -/
theorem Inv.drop (h : Inv w refs (.iput i none :: R))
    (hc : (g (w.slot i)).count = (w.slot i).count - 1)
    (hd : (g (w.slot i)).dev = (w.slot i).dev)
    (hp : (g (w.slot i)).pipe = (w.slot i).pipe ∨ (w.slot i).count ≤ 1)
    (hm : (g (w.slot i)).mount = true → (w.slot i).mount = true)
    (hclean : (w.slot i).count ≤ 1 ∨ ((w.slot i).dev = 0 ∧ (w.slot i).pipe = false) →
      (g (w.slot i)).dirt = false ∧ (g (w.slot i)).lock = false) :
    Inv (w.setSlot i g) refs R := by
  have hown := h.own
  have hreal : 1 < (w.slot i).count → Real w i → Real (w.setSlot i g) i := by
    intro hlt hr
    rw [Real, setSlot_self, hd, hp.resolve_right (Nat.not_le_of_lt hlt)]
    exact hr
  refine h.store (unmounts_iput i R).symm (locks_iput i R).symm
    (fun j => (congrFun (claims_iput i R) j).ge) (fun j => ?_)
    (fun h0 => hclean (Or.inl (by omega))) (fun h0 h1 => hclean ?_) (fun hi => ?_) (fun j hj => ?_)
    (fun h0 h1 => ?_) hm fun f hf => ?_
  · have := h.count j
    rw [holds_iput, unmounts_iput] at this
    rw [unmounts_iput]
    by_cases hji : j = i
    · rw [hji, setSlot_self, hc]
      omega
    · rw [setSlot_of_ne w g hji]
      omega
  · rcases hp with hp | hp
    · exact Or.inr ⟨hd ▸ h0, hp ▸ h1⟩
    · exact Or.inl hp
  · rw [hc, h.table i hi]
  · by_cases hji : j = i
    · rw [hji] at hj ⊢
      have := List.count_pos_iff.mpr hj
      exact hreal (by omega) (h.real i hj)
    · rw [Real, setSlot_of_ne w g hji]
      exact h.real j hj
  · rw [hd] at h1 ⊢
    exact h.live i (by omega) h1
  · have hf' := h.frames f (List.mem_cons_of_mem _ hf)
    refine hf'.setSlot (fun hi => ?_) fun hi hb => ?_
    · have := total_pos hf hi
      exact ⟨hd, hp.resolve_right (by omega)⟩
    · have := total_pos hf hi
      have := hb.count
      omega

/-- **The last reference goes**, and the inode with it. -/
theorem Inv.gone (h : Inv w refs (.iput i none :: R)) (hone : (w.slot i).count ≤ 1) :
    Inv (w.reset i) refs R := by
  have hown := h.own
  refine h.store (unmounts_iput i R).symm (locks_iput i R).symm
    (fun j => (congrFun (claims_iput i R) j).ge) (fun j => ?_) (fun _ => ⟨rfl, rfl⟩)
    (fun _ _ => ⟨rfl, rfl⟩)
    (fun _ => rfl) (fun j hj => ?_) (fun h0 => absurd h0 (Nat.lt_irrefl 0))
    (fun hm => absurd hm Bool.false_ne_true) fun f hf => ?_
  · have := h.count j
    rw [holds_iput, unmounts_iput] at this
    rw [unmounts_iput]
    by_cases hji : j = i
    · rw [hji, setSlot_self]
      omega
    · rw [setSlot_of_ne w _ hji]
      omega
  · by_cases hji : j = i
    · rw [hji] at hj
      have := List.count_pos_iff.mpr hj
      omega
    · rw [Real, setSlot_of_ne w _ hji]
      exact h.real j hj
  · have hf' := h.frames f (List.mem_cons_of_mem _ hf)
    refine hf'.setSlot (fun hi => ?_) fun hi => ?_
    · have := total_pos hf hi
      omega
    · have := total_pos hf hi
      omega

/-- **An inode that nobody has is taken.** -/
theorem Inv.take (h : Inv w refs F) (hi : i < nrInode) (hzero : (w.slot i).count = 0) :
    Inv (w.clear i) refs (.iput i none :: F) := by
  have hnone : refs.count i + total Frame.holds F i + pins w (total Frame.unmounts F) i = 0 := by
    have := h.count i
    omega
  refine h.store (unmounts_iput i F) (locks_iput i F) (fun j => (congrFun (claims_iput i F) j).le)
    (fun j => ?_) (fun h0 => absurd h0 Nat.one_ne_zero)
    (fun _ _ => ⟨rfl, rfl⟩) (fun hi' => absurd hi (Nat.not_lt_of_le hi')) (fun j hj => ?_)
    (fun _ h1 => absurd rfl h1) (fun hm => absurd hm Bool.false_ne_true) fun f hf => ?_
  · have := h.count j
    rw [holds_iput]
    by_cases hji : j = i
    · rw [hji, setSlot_self, List.count_singleton_self]
      dsimp only
      omega
    · rw [setSlot_of_ne w _ hji, List.count_singleton, if_neg (by simpa using Ne.symm hji)]
      omega
  · by_cases hji : j = i
    · rw [hji] at hj
      have := List.count_pos_iff.mpr hj
      omega
    · rw [Real, setSlot_of_ne w _ hji]
      exact h.real j hj
  · rcases List.mem_cons.mp hf with rfl | hf
    · exact fun k d hu => absurd hu (by simp)
    · refine (h.frames f hf).setSlot (fun hi => ?_) fun hi => ?_
      · have := total_pos hf hi
        omega
      · have := total_pos hf hi
        omega

/-- **What has been taken becomes an inode** of a device in use. -/
theorem Inv.assign (h : Inv w refs (.iput i none :: R)) (hb : Blank w i)
    (hc : (g (w.slot i)).count = 1) (hd : (g (w.slot i)).dev ≠ 0)
    (hlive : Live w (total Frame.unmounts R) (g (w.slot i)).dev)
    (hm : (g (w.slot i)).mount = true → (w.slot i).mount = true) :
    Inv (w.setSlot i g) refs (.iput i none :: R) := by
  have hown := h.own
  rw [hb.count] at hown
  refine h.store rfl rfl (fun _ => le_rfl) (fun j => ?_) (fun h0 => ?_) (fun h0 => absurd h0 hd)
    (fun hi' => absurd hb.lt (Nat.not_lt_of_le hi')) (fun j hj => ?_) (fun _ _ => ?_) hm
    fun f hf => ?_
  · have := h.count j
    by_cases hji : j = i
    · rw [hji, setSlot_self, hc, ← hb.count]
      rwa [hji] at this
    · rwa [setSlot_of_ne w _ hji]
  · rw [hc] at h0
    exact absurd h0 Nat.one_ne_zero
  · by_cases hji : j = i
    · rw [hji] at hj
      have := List.count_pos_iff.mpr hj
      omega
    · rw [Real, setSlot_of_ne w _ hji]
      exact h.real j hj
  · rw [unmounts_iput]
    exact hlive
  · rcases List.mem_cons.mp hf with rfl | hf'
    · exact fun k d hu => absurd hu (by simp)
    · refine (h.frames f hf).setSlot (fun hi => ?_) fun hi => ?_
      · have := total_pos hf' hi
        omega
      · have := total_pos hf' hi
        omega

/-- `last_inode` does not matter. -/
theorem Inv.last (h : Inv w refs F) (n : ℕ) : Inv { w with last := n } refs F := by
  have hlive : ∀ {U : ℕ → ℕ} {k : ℕ}, LiveAt w U k → LiveAt { w with last := n } U k :=
    fun hl => ⟨hl.lt, hl.dev, hl.lock, hl.unmounts⟩
  refine ⟨h.count, h.claim, h.clean, h.idle, h.blank, h.table, h.real, fun i h0 h1 => ?_, h.devs,
    h.locks, h.once, fun i hi => ?_, fun f hf => ?_⟩
  · exact (h.live i h0 h1).mono fun k hk _ => ⟨hlive hk, rfl⟩
  · obtain ⟨k, hk, hl⟩ := h.mount i hi
    exact ⟨k, hk, hlive hl⟩
  · exact (h.frames f hf).mono (fun _ _ => ⟨rfl, rfl⟩)
      (fun _ _ hb => ⟨hb.dev, hb.pipe, hb.count, hb.lt⟩)
      (fun k hk _ => ⟨hlive hk, rfl⟩) (fun _ _ => rfl) fun _ _ => rfl

end Linux011.Inodes.Mounting

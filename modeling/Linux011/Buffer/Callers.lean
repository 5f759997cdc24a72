import Linux011.Buffer.Content
import Linux011.Buffer.Writers

/-!
# Who calls whom inside the cache

A call of `bread` or `breada` returns a buffer only while it is up to date, a request is made
only on a device that has a request function, and a call that waits to lock a buffer for
reading has a reference to it. All of this is about which frame stands on which
(`Linux011.Buffer.Fitting`), and `Linux011.Buffer.Frame.shape` goes through the frames once.
-/

namespace Linux011.Buffer

/-- `ll_rw_block` has a request function for the device. -/
def Sys.HasDriver (s : Sys) (dev : ℕ) : Prop :=
  major dev < nrBlkDev ∧ s.requestFn (major dev) = true

namespace Frame

/-- The call of which the frame is the caller. -/
def callOf : Frame → Option (Option Call)
  | .caller c => some c
  | _ => none

/-- The frame is a caller of `bread` or `breada`, -/
def wantsRead : Frame → Bool
  | .caller (some (.bread _ _)) => true
  | .caller (some (.breada _ _ _)) => true
  | _ => false

/-- and these are the frames of the two. -/
def reads : Frame → Bool
  | .bread _ _ => true
  | .breadGot _ _ => true
  | .breadWait _ => true
  | .breada _ _ _ => true
  | .breadaGot _ _ _ => true
  | .breadaNext _ _ _ => true
  | .breadaAhead _ _ _ _ => true
  | .breadaDrop _ _ _ _ => true
  | .brelse _ => true
  | _ => false

/-- The buffer that the frame waits to lock for reading. -/
def awaitsLock : Frame → Option ℕ
  | .lockBuffer .read _ _ bh => some bh
  | _ => none

/-- A request that the frame is about to make is for a device that has a driver. -/
def Served (s : Sys) : Frame → Prop
  | .lockBuffer .read _ _ bh => s.HasDriver (s.cache.head bh).dev
  | .makeRequest _ _ _ bh => s.HasDriver (s.cache.head bh).dev
  | _ => True

end Frame

/-- **Which frame stands on which.** -/
def Fitting : List Frame → Prop
  | [] => True
  | f :: st => (∀ g ∈ st.head?, g.wantsRead = true → f.reads = true) ∧
      (∀ bh ∈ f.awaitsLock, ∃ g ∈ st.head?, ∃ e ∈ g.refs, e.bh = bh) ∧ Fitting st

section Shape

variable {s s' : Sys} {f : Frame} {fs st : List Frame} {ret ret' : Option Ref} {now : Bool}
  {maj bh : ℕ} {cmd : Cmd}

/-- **What a step of a frame does to the stack.** -/
structure Frame.Shape (f : Frame) (s' : Sys) (fs : List Frame) (ret' : Option Ref) : Prop where
  /-- No frame calls a function outside the cache. -/
  callers : fs.filterMap Frame.callOf = []
  fitting : ∀ st, Fitting (f :: st) → Fitting (fs ++ st)
  served : ∀ g ∈ fs, g.Served s'
  /-- What `bread` and `breada` return is up to date. -/
  ret : f.reads = true → ∀ e ∈ ret', (s'.cache.head e.bh).uptodate = true

/-- Frames that no request comes from. -/
theorem Frame.Shape.of_plain (hcall : fs.filterMap Frame.callOf = [])
    (hfit : ∀ st, Fitting (f :: st) → Fitting (fs ++ st)) (hserved : ∀ g ∈ fs, g.Served s')
    (hret : f.reads = true → ret' = none) : f.Shape s' fs ret' := by
  refine ⟨hcall, hfit, hserved, fun hf e he => ?_⟩
  rw [hret hf] at he
  cases he

/-- `lock_buffer` and what follows it. -/
theorem lockAndTest_served (h : s.lockAndTest cmd now maj bh fs = .go s' st ret')
    (hdrv : cmd = .read ∨ (s.cache.head bh).dirt = true → s.HasDriver (s.cache.head bh).dev) :
    (st = fs ∧ s' = s) ∨ (st = .makeRequest cmd now maj bh :: fs ∧
      s'.HasDriver (s'.cache.head bh).dev ∧
      ∀ b, (s'.cache.head b).dev = (s.cache.head b).dev) := by
  rw [Sys.lockAndTest] at h
  split at h
  · cases h
    exact Or.inl ⟨rfl, rfl⟩
  · next htest =>
    cases h
    have hdev : ∀ b, ((s.setHead bh fun h => { h with lock := true }).cache.head b).dev =
        (s.cache.head b).dev := fun b => by
      rw [Sys.head_setHead]
      split
      · next hb => rw [hb]
      · rfl
    refine Or.inr ⟨rfl, ?_, hdev⟩
    rw [hdev]
    refine hdrv ?_
    cases cmd with
    | read => exact Or.inl rfl
    | write => exact Or.inr (Bool.eq_true_of_not_eq_false fun hd => htest (Or.inl ⟨rfl, hd⟩))

/-- `ll_rw_block` refuses a device without a driver. -/
theorem llRwBlock_served (h : s.llRwBlock cmd now bh fs = .go s' st ret') :
    (st = fs ∧ s' = s) ∨ (∃ g, st = g :: fs ∧ g.callOf = none ∧ g.Served s' ∧
      g.wantsRead = false ∧ ∀ b ∈ g.awaitsLock, b = bh ∧ cmd = .read) ∧
      ∀ b, (s'.cache.head b).dev = (s.cache.head b).dev := by
  rw [Sys.llRwBlock] at h
  split at h
  · cases h
    exact Or.inl ⟨rfl, rfl⟩
  next hdrv =>
  rw [not_or, not_le, Bool.not_eq_false] at hdrv
  split at h
  · split at h
    · cases h
      exact Or.inl ⟨rfl, rfl⟩
    · cases h
      refine Or.inr ⟨⟨_, rfl, rfl, ?_, rfl, ?_⟩, fun _ => rfl⟩
      · cases cmd with
        | read => exact hdrv
        | write => trivial
      · cases cmd with
        | read => exact fun b hb => ⟨(Option.some.inj hb).symm, rfl⟩
        | write => exact fun b hb => by cases hb
  · rcases lockAndTest_served h fun _ => hdrv with hsame | ⟨hst, hserved, hdev⟩
    · exact Or.inl hsame
    · refine Or.inr ⟨⟨_, hst, rfl, hserved, rfl, ?_⟩, hdev⟩
      exact fun b hb => by cases hb

/-- A frame that goes through `ll_rw_block` on a buffer it has a reference to. -/
theorem Frame.Shape.transfer {g : Frame} (h : s.llRwBlock cmd now bh [g] = .go s' fs ret')
    (hnone : ret' = none) (hg : g.callOf = none) (hserved : ∀ s, g.Served s)
    (hwants : g.wantsRead = false) (hlock : g.awaitsLock = none)
    (href : cmd = .read → ∃ e ∈ g.refs, e.bh = bh) (hreads : f.reads = true → g.reads = true) :
    f.Shape s' fs ret' := by
  have hfit : ∀ st, Fitting (f :: st) → Fitting (g :: st) := by
    rintro st ⟨hread, -, hst⟩
    refine ⟨fun g' hg' hw => hreads (hread g' hg' hw), ?_, hst⟩
    rw [hlock]
    simp
  rcases llRwBlock_served h with ⟨rfl, rfl⟩ | ⟨⟨g', rfl, hg', hs', hw', hl'⟩, -⟩
  · refine .of_plain (by simp [hg]) hfit ?_ fun _ => hnone
    intro x hx
    obtain rfl := List.mem_singleton.mp hx
    exact hserved _
  · refine .of_plain (by simp [hg, hg']) (fun st hst => ?_) (fun x hx => ?_) fun _ => hnone
    · refine ⟨fun x hx hw => ?_, fun b hb => ?_, hfit st hst⟩
      · obtain rfl := Option.some.inj hx
        rw [hwants] at hw
        cases hw
      · obtain ⟨rfl, hc⟩ := hl' b hb
        exact ⟨g, rfl, href hc⟩
    · rcases List.mem_cons.mp hx with rfl | hx
      · exact hs'
      · obtain rfl := List.mem_singleton.mp hx
        exact hserved _

/-- A frame that puts one frame of its kind in its place. -/
theorem Frame.Shape.replace {g : Frame} (hg : g.callOf = none) (hserved : ∀ s, g.Served s)
    (hlock : g.awaitsLock = none) (hreads : f.reads = true → g.reads = true) :
    f.Shape s' [g] none := by
  refine .of_plain (by simp [hg]) (fun st hst => ?_) (fun x hx => ?_) fun _ => rfl
  · obtain ⟨hread, -, hst⟩ := hst
    refine ⟨fun g' hg' hw => hreads (hread g' hg' hw), ?_, hst⟩
    rw [hlock]
    simp
  · obtain rfl := List.mem_singleton.mp hx
    exact hserved _

/-- A frame that calls another one, and goes on as the frame `g'`. -/
theorem Frame.Shape.call {g g' : Frame} (hg : g.callOf = none ∧ g'.callOf = none)
    (hserved : ∀ s, g.Served s ∧ g'.Served s) (hlock : g.awaitsLock = none ∧ g'.awaitsLock = none)
    (hwants : g'.wantsRead = false) (hreads : f.reads = true → g'.reads = true) :
    f.Shape s' [g, g'] none := by
  refine .of_plain (by simp [hg]) (fun st hst => ?_) (fun x hx => ?_) fun _ => rfl
  · obtain ⟨hread, -, hst⟩ := hst
    refine ⟨fun x hx hw => ?_, ?_, fun x hx hw => hreads (hread x hx hw), ?_, hst⟩
    · obtain rfl := Option.some.inj hx
      rw [hwants] at hw
      cases hw
    · rw [hlock.1]
      simp
    · rw [hlock.2]
      simp
  · rcases List.mem_cons.mp hx with rfl | hx
    · exact (hserved _).1
    · obtain rfl := List.mem_singleton.mp hx
      exact (hserved _).2

/-- A frame that returns. -/
theorem Frame.Shape.pop
    (hret : f.reads = true → ∀ e ∈ ret', (s'.cache.head e.bh).uptodate = true) :
    f.Shape s' [] ret' :=
  ⟨rfl, fun _ hst => hst.2.2, by simp, hret⟩

/-- **Every step of every frame**: a buffer that is dirty is one of a device with a driver. -/
theorem Frame.shape (h : f.step s ret = .go s' fs ret') (hserved : f.Served s)
    (hdirt : ∀ b ∈ f.target, (s.cache.head b).dirt = true → s.HasDriver (s.cache.head b).dev) :
    f.Shape s' fs ret' := by
  cases f with
  | getHashTable dev block =>
    rw [step] at h
    split at h
    · cases h
      exact .pop (by simp [reads])
    · cases h
      exact .replace rfl (fun _ => trivial) rfl (by simp [reads])
  | hashWait e =>
    rw [step] at h
    split at h
    · cases h
    split at h
    · cases h
      exact .pop (by simp [reads])
    · cases h
      exact .replace rfl (fun _ => trivial) rfl (by simp [reads])
  | getblk dev block =>
    cases h
    exact .call ⟨rfl, rfl⟩ (fun _ => ⟨trivial, trivial⟩) ⟨rfl, rfl⟩ rfl (by simp [reads])
  | getblkHashed dev block =>
    cases ret with
    | some e =>
      cases h
      exact .pop (by simp [reads])
    | none =>
      dsimp only [step] at h
      split at h
      · cases h
        exact .replace rfl (fun _ => trivial) rfl (by simp [reads])
      · cases h
        exact .replace rfl (fun _ => trivial) rfl (by simp [reads])
  | getblkAsleep dev block =>
    cases h
    exact .replace rfl (fun _ => trivial) rfl (by simp [reads])
  | getblkWait dev block bh =>
    rw [step] at h
    split at h
    · cases h
    split at h
    · cases h
      exact .replace rfl (fun _ => trivial) rfl (by simp [reads])
    split at h
    · cases h
      exact .call ⟨rfl, rfl⟩ (fun _ => ⟨trivial, trivial⟩) ⟨rfl, rfl⟩ rfl (by simp [reads])
    split at h
    · cases h
      exact .replace rfl (fun _ => trivial) rfl (by simp [reads])
    split at h
    · cases h
    · cases h
      exact .pop (by simp [reads])
  | sync only again i =>
    rw [step] at h
    split at h
    · split at h
      · cases h
        exact .pop (by simp [reads])
      · cases h
        exact .replace rfl (fun _ => trivial) rfl (by simp [reads])
    · split at h
      · cases h
        exact .replace rfl (fun _ => trivial) rfl (by simp [reads])
      · cases h
        exact .replace rfl (fun _ => trivial) rfl (by simp [reads])
  | syncWait only again i =>
    rw [step] at h
    split at h
    · cases h
    split at h
    · refine .transfer h (Sys.llRwBlock_go h).1 rfl (fun _ => trivial) rfl rfl ?_ (by simp [reads])
      intro hc
      cases hc
    · cases h
      exact .replace rfl (fun _ => trivial) rfl (by simp [reads])
  | syncInodes only =>
    cases h
    exact .replace rfl (fun _ => trivial) rfl (by simp [reads])
  | lockBuffer cmd now maj bh =>
    rw [step] at h
    split at h
    · cases h
    have hdrv : cmd = .read ∨ (s.cache.head bh).dirt = true →
        s.HasDriver (s.cache.head bh).dev := by
      rintro (rfl | hd)
      · exact hserved
      · exact hdirt bh rfl hd
    obtain rfl := (Sys.lockAndTest_go h).1
    rcases lockAndTest_served h hdrv with ⟨rfl, -⟩ | ⟨rfl, hs', -⟩
    · exact .pop (by simp [reads])
    · refine .of_plain rfl (fun st hst => ⟨?_, by simp [awaitsLock], hst.2.2⟩) (fun x hx => ?_)
        fun _ => rfl
      · exact fun g hg hw => absurd (hst.1 g hg hw) (by simp [reads])
      · obtain rfl := List.mem_singleton.mp hx
        exact hs'
  | makeRequest cmd now maj bh =>
    rw [step] at h
    split at h
    · split at h
      · cases h
        exact .pop (by simp [reads])
      · cases h
    · cases h
      exact .pop (by simp [reads])
  | brelse e =>
    rw [step] at h
    split at h
    · cases h
    split at h
    · cases h
    · cases h
      exact .pop (by simp)
  | bread dev block =>
    cases h
    exact .call ⟨rfl, rfl⟩ (fun _ => ⟨trivial, trivial⟩) ⟨rfl, rfl⟩ rfl (by simp [reads])
  | breadGot dev block =>
    cases ret with
    | none => cases h
    | some e =>
      dsimp only [step] at h
      split at h
      · next hup =>
        cases h
        refine .pop fun _ e' he' => ?_
        obtain rfl := Option.some.inj he'
        exact hup
      · exact .transfer h (Sys.llRwBlock_go h).1 rfl (fun _ => trivial) rfl rfl
          (fun _ => ⟨e, List.mem_cons_self, rfl⟩) (by simp [reads])
  | breadWait e =>
    rw [step] at h
    split at h
    · cases h
    split at h
    · next hup =>
      cases h
      refine .pop fun _ e' he' => ?_
      obtain rfl := Option.some.inj he'
      exact hup
    · cases h
      exact .replace rfl (fun _ => trivial) rfl (by simp [reads])
  | breada dev first ahead =>
    cases h
    exact .call ⟨rfl, rfl⟩ (fun _ => ⟨trivial, trivial⟩) ⟨rfl, rfl⟩ rfl (by simp [reads])
  | breadaGot dev first ahead =>
    cases ret with
    | none => cases h
    | some e =>
      dsimp only [step] at h
      split at h
      · cases h
        exact .replace rfl (fun _ => trivial) rfl (by simp [reads])
      · exact .transfer h (Sys.llRwBlock_go h).1 rfl (fun _ => trivial) rfl rfl
          (fun _ => ⟨e, List.mem_cons_self, rfl⟩) (by simp [reads])
  | breadaNext e dev ahead =>
    cases ahead with
    | nil =>
      cases h
      exact .replace rfl (fun _ => trivial) rfl (by simp [reads])
    | cons block ahead =>
      cases h
      exact .call ⟨rfl, rfl⟩ (fun _ => ⟨trivial, trivial⟩) ⟨rfl, rfl⟩ rfl (by simp [reads])
  | breadaAhead e dev block ahead =>
    cases ret with
    | none =>
      cases h
      exact .replace rfl (fun _ => trivial) rfl (by simp [reads])
    | some tmp =>
      dsimp only [step] at h
      split at h
      · cases h
        exact .replace rfl (fun _ => trivial) rfl (by simp [reads])
      · exact .transfer h (Sys.llRwBlock_go h).1 rfl (fun _ => trivial) rfl rfl
          (fun _ => ⟨e, List.mem_cons_of_mem _ List.mem_cons_self, rfl⟩) (by simp [reads])
  | breadaDrop e tmp dev ahead =>
    cases h
    exact .replace rfl (fun _ => trivial) rfl (by simp [reads])
  | caller c => cases h

end Shape

end Linux011.Buffer

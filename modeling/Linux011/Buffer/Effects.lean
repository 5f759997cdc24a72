import Linux011.Buffer.Calls

/-!
# What a step of a call does to the data, the flags and the requests

Twenty kinds of call under way, but only four ways in which a step of one touches
more than counts and queues: a buffer is taken for another block, a buffer is locked
for a transfer, the lock is given back, a request is added. `Linux011.Buffer.Effect` lists them, and
`Linux011.Buffer.Frame.effect` is the only place that looks at the calls one by one.
-/

namespace Linux011.Buffer

/-- A head without its count and its links. -/
def BufferHead.face (h : BufferHead) : BufferHead :=
  { h with count := 0, prev := none, next := none, prevFree := none, nextFree := none }

/-- **Nothing but counts and queues has changed.** -/
structure Sys.Still (s s' : Sys) : Prop where
  nrBuffers : s'.cache.nrBuffers = s.cache.nrBuffers
  face : ∀ b, (s'.cache.head b).face = (s.cache.head b).face
  slot : s'.slot = s.slot
  queue : s'.queue = s.queue
  requestFn : s'.requestFn = s.requestFn
  moved : s'.moved = s.moved
  disk : s'.disk = s.disk

namespace Frame

/-- The head a call has locked for a request that is still to be made. -/
def locks : Frame → Option ℕ
  | .makeRequest _ _ _ bh => some bh
  | _ => none

end Frame

/-- **The ways in which a step of a call touches the data, the flags or the requests.** -/
inductive Effect (s : Sys) : Frame → Sys → List Frame → Prop
  /-- Not at all. -/
  | still {f : Frame} {s' : Sys} {fs : List Frame} (hs : s.Still s') (hf : f.locks = none)
      (hfs : ∀ g ∈ fs, g.locks = none) : Effect s f s' fs
  /-- `getblk` takes an unused, unlocked and clean head. -/
  | take {dev block bh : ℕ} {c : Cache} (hcount : (s.cache.head bh).count = 0)
      (hlock : (s.cache.head bh).lock = false) (hdirt : (s.cache.head bh).dirt = false)
      (hfind : findBuffer s.cache dev block = none) (hretag : retag s.cache bh dev block = some c) :
      Effect s (.getblkWait dev block bh) { s with cache := c } []
  /-- A buffer is locked: a dirty one to be written, or a stale one to be read. -/
  | lock {f : Frame} {cmd : Cmd} {ahead : Bool} {maj bh : ℕ} {fs : List Frame}
      (hf : f.locks = none) (hfs : ∀ g ∈ fs, g.locks = none)
      (hlock : (s.cache.head bh).lock = false)
      (hwrite : cmd = .write → (s.cache.head bh).dirt = true)
      (hread : cmd = .read → (s.cache.head bh).uptodate = false) :
      Effect s f (s.setHead bh fun h => { h with lock := true })
        (.makeRequest cmd ahead maj bh :: fs)
  /-- There is no room for a request that may be forgotten. -/
  | unlock {cmd : Cmd} {maj bh : ℕ} :
      Effect s (.makeRequest cmd true maj bh) (s.setHead bh fun h => { h with lock := false }) []
  /-- The request is added. -/
  | add {cmd : Cmd} {ahead : Bool} {maj bh i : ℕ} (hi : s.emptySlot (Sys.slotLimit cmd) = some i) :
      Effect s (.makeRequest cmd ahead maj bh) (s.addRequest maj i (s.fillRequest cmd bh)) []

section Still

variable {s s' : Sys} {f : BufferHead → BufferHead}

namespace Sys.Still

theorem refl (s : Sys) : s.Still s := ⟨rfl, fun _ => rfl, rfl, rfl, rfl, rfl, rfl⟩

theorem setHead (hf : ∀ h : BufferHead, (f h).face = h.face) (s : Sys) (b : ℕ) :
    s.Still (s.setHead b f) := by
  refine ⟨rfl, fun i => ?_, rfl, rfl, rfl, rfl, rfl⟩
  rw [head_setHead]
  split
  · next hib => rw [hf, hib]
  · rfl

theorem tag (h : s.Still s') (b : ℕ) : (s'.cache.head b).dev = (s.cache.head b).dev ∧
    (s'.cache.head b).blocknr = (s.cache.head b).blocknr :=
  ⟨(congrArg BufferHead.dev (h.face b) :), (congrArg BufferHead.blocknr (h.face b) :)⟩

theorem lock (h : s.Still s') (b : ℕ) : (s'.cache.head b).lock = (s.cache.head b).lock :=
  (congrArg BufferHead.lock (h.face b) :)

end Sys.Still

end Still

section Effects

variable {s s' : Sys} {f : Frame} {fs fs' : List Frame} {ret ret' : Option Ref} {cmd : Cmd}
  {ahead : Bool} {maj bh : ℕ}

theorem Effect.lockAndTest (hf : f.locks = none) (hfs : ∀ g ∈ fs, g.locks = none)
    (hlock : (s.cache.head bh).lock = false)
    (h : s.lockAndTest cmd ahead maj bh fs = .go s' fs' ret) : Effect s f s' fs' := by
  unfold Sys.lockAndTest at h
  split at h
  · cases h
    exact .still (.refl s) hf hfs
  · next htest =>
    cases h
    rw [not_or] at htest
    refine .lock hf hfs hlock (fun hc => ?_) fun hc => ?_
    · exact Bool.eq_true_of_not_eq_false fun hd => htest.1 ⟨hc, hd⟩
    · exact Bool.eq_false_of_not_eq_true fun hu => htest.2 ⟨hc, hu⟩

theorem Effect.llRwBlock (hf : f.locks = none) (hfs : ∀ g ∈ fs, g.locks = none)
    (h : s.llRwBlock cmd ahead bh fs = .go s' fs' ret) : Effect s f s' fs' := by
  unfold Sys.llRwBlock at h
  dsimp only at h
  split at h
  · cases h
    exact .still (.refl s) hf hfs
  · split at h
    · split at h
      · cases h
        exact .still (.refl s) hf hfs
      · cases h
        refine .still (.refl s) hf fun g hg => ?_
        rcases List.mem_cons.mp hg with rfl | hg
        · rfl
        · exact hfs g hg
    · next hlock => exact lockAndTest hf hfs (Bool.eq_false_of_not_eq_true hlock) h

/-- **Every step of every call** has one of these effects. -/
theorem Frame.effect (h : f.step s ret = .go s' fs ret') : Effect s f s' fs := by
  cases f with
  | getHashTable dev block =>
    rw [step] at h
    split at h
    · cases h
      exact .still (.refl s) rfl (by simp)
    · cases h
      exact .still (.setHead (f := BufferHead.incCount) (fun _ => rfl) s _) rfl (by simp [locks])
  | hashWait e =>
    rw [step] at h
    split at h
    · cases h
    · split at h
      · cases h
        exact .still (.refl s) rfl (by simp)
      · cases h
        exact .still (.setHead (f := BufferHead.decCount) (fun _ => rfl) s _) rfl (by simp [locks])
  | getblk dev block =>
    cases h
    exact .still (.refl s) rfl (by simp [locks])
  | getblkHashed dev block =>
    cases ret with
    | some e =>
      cases h
      exact .still (.refl s) rfl (by simp)
    | none =>
      dsimp only [step] at h
      split at h
      · cases h
        exact .still (.refl s) rfl (by simp [locks])
      · cases h
        exact .still (.refl s) rfl (by simp [locks])
  | getblkAsleep dev block =>
    cases h
    exact .still (.refl s) rfl (by simp [locks])
  | getblkWait dev block bh =>
    rw [step] at h
    split at h
    · cases h
    next hlock =>
    split at h
    · cases h
      exact .still (.refl s) rfl (by simp [locks])
    next hcount =>
    split at h
    · cases h
      exact .still (.refl s) rfl (by simp [locks])
    next hdirt =>
    split at h
    · cases h
      exact .still (.refl s) rfl (by simp [locks])
    next hfind =>
    split at h
    · cases h
    · next c hretag =>
      cases h
      exact .take (not_ne_iff.mp hcount) (Bool.eq_false_of_not_eq_true hlock)
        (Bool.eq_false_of_not_eq_true hdirt) (Option.not_isSome_iff_eq_none.mp hfind) hretag
  | sync only again i =>
    rw [step] at h
    split at h
    · split at h <;> cases h <;> exact .still (.refl s) rfl (by simp [locks])
    · split at h <;> cases h <;> exact .still (.refl s) rfl (by simp [locks])
  | syncWait only again i =>
    rw [step] at h
    split at h
    · cases h
    · split at h
      · exact .llRwBlock rfl (by simp [locks]) h
      · cases h
        exact .still (.refl s) rfl (by simp [locks])
  | syncInodes only =>
    cases h
    exact .still (.refl s) rfl (by simp [locks])
  | lockBuffer cmd ahead maj bh =>
    rw [step] at h
    split at h
    · cases h
    · next hlock => exact .lockAndTest rfl (by simp) (Bool.eq_false_of_not_eq_true hlock) h
  | makeRequest cmd ahead maj bh =>
    rw [step] at h
    split at h
    · split at h
      · next hahead =>
        cases h
        subst hahead
        exact .unlock
      · cases h
    · next i hi =>
      cases h
      exact .add hi
  | brelse e =>
    rw [step] at h
    split at h
    · cases h
    · split at h
      · cases h
      · cases h
        exact .still (.setHead (f := BufferHead.decCount) (fun _ => rfl) s _) rfl (by simp)
  | bread dev block =>
    cases h
    exact .still (.refl s) rfl (by simp [locks])
  | breadGot dev block =>
    cases ret with
    | none => cases h
    | some e =>
      dsimp only [step] at h
      split at h
      · cases h
        exact .still (.refl s) rfl (by simp)
      · exact .llRwBlock rfl (by simp [locks]) h
  | breadWait e =>
    rw [step] at h
    split at h
    · cases h
    · split at h <;> cases h <;> exact .still (.refl s) rfl (by simp [locks])
  | breada dev first ahead =>
    cases h
    exact .still (.refl s) rfl (by simp [locks])
  | breadaGot dev first ahead =>
    cases ret with
    | none => cases h
    | some e =>
      dsimp only [step] at h
      split at h
      · cases h
        exact .still (.refl s) rfl (by simp [locks])
      · exact .llRwBlock rfl (by simp [locks]) h
  | breadaNext e dev ahead =>
    cases ahead with
    | nil =>
      cases h
      exact .still (.refl s) rfl (by simp [locks])
    | cons first ahead =>
      cases h
      exact .still (.refl s) rfl (by simp [locks])
  | breadaAhead e dev block ahead =>
    cases ret with
    | none =>
      cases h
      exact .still (.refl s) rfl (by simp [locks])
    | some tmp =>
      dsimp only [step] at h
      split at h
      · cases h
        exact .still (.refl s) rfl (by simp [locks])
      · exact .llRwBlock rfl (by simp [locks]) h
  | breadaDrop e tmp dev ahead =>
    cases h
    exact .still (.setHead (f := BufferHead.decCount) (fun _ => rfl) s _) rfl (by simp [locks])
  | caller c => cases h

end Effects

end Linux011.Buffer

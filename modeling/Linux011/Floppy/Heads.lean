import Linux011.Floppy.Phases

/-!
# Where the head is

One `current_track` serves all drives, and it is trusted unless `seek` is set; that flag is cleared
whenever `do_fd_request` is entered. A request for another drive sets it, and `current_drive`. But
when that request asks for more than there is on the disk, it is ended at once, and if no other
request is left, the flag is forgotten, and the drive is not: the next request for it is taken to
find its head where the head of the other drive is (`Linux011.Floppy.not_head_on_track`).

There are two more ways to be misled. `recal_interrupt` takes any answer for the end of a
recalibration that does not say that it has failed; and a request that comes when the queue is
empty does not wait for a recalibration that is under way, although `current_track` is 0 from its
beginning on. Where none of this happens, the head is where the driver thinks
(`Linux011.Floppy.head_on_track`).
-/

namespace Linux011.Floppy

open Block (Request Cmd)

variable {M : Image} {s s₀ : State} {log : List (State × Event)}

/-- **The head is where the driver thinks**: in a run in which no request comes before a
recalibration has ended, and no step misleads the driver, the head of the drive is on the cylinder
that is meant whenever a transfer is programmed. -/
theorem head_on_track (h0 : s₀.Start) (h : Logged (Step M) s₀ log s)
    (hfine : ∀ p ∈ log, ¬p.1.Hasty p.2 ∧ ¬p.1.Misled M p.2) :
    ∀ p ∈ s.programmed, p.head = p.seekTrack := by
  have hinv : Inv True False s := .of_logged h0 h fun p hp =>
    ⟨(hfine p hp).1, fun _ => (hfine p hp).2, fun hf => hf.elim⟩
  exact hinv.programmed trivial

/-! ### Two drives -/

/-- Nothing stands behind the table. -/
def image : Image := ⟨fun _ => ⟨0, 0, 0, 0, 0, 0, 0, 0⟩, 0⟩

/-- Before the first request; all heads are on cylinder 0. -/
def booted : State where
  recalibrate := false
  reset := false
  seek := false
  curSpec1 := -1
  curRate := -1
  floppy := 0
  currentDrive := 0
  sector := 0
  head := 0
  track := 0
  seekTrack := 0
  currentTrack := 255
  command := 0
  selected := false
  currentDOR := 0x0C
  replyBuffer := [0, 0, 0, 0, 0, 0, 0]
  doFloppy := none
  queue := []
  timers := []
  calling := false
  dma := ⟨0, false⟩
  fdc := []
  moving := fun _ => none
  heads := fun _ => 0
  outs := []
  ended := []
  programmed := []
  uses := []

theorem booted_start : booted.Start := by
  constructor
  all_goals first
    | rfl
    | exact fun _ => rfl

/-- A block of a disk of 1.44 MB is to be read. -/
def readSector (drive : ℤ) (sector : ℕ) : Request :=
  ⟨0x21C + drive, .read, 0, sector, 2, 0, 0, none⟩

/-- The first drive reads from cylinder 1. -/
def readFirst : List Event :=
  [.request (readSector 0 36) 0, .doFdRequest 1 [], .timer .floppyOnInterrupt [],
    .interrupt (some (0, true)) ⟨[0x20, 1], true⟩ [] false,
    .interrupt none ⟨[0, 0, 0, 0, 0, 0, 0], true⟩ [] false, .doFdRequest 1 []]

/-- The second one is asked for a sector that it does not have, and then for that cylinder. -/
def readSecond : List Event :=
  [.request (readSector 1 2879) 0, .doFdRequest 1 [], .request (readSector 1 36) 0,
    .doFdRequest 1 [], .timer .floppyOnInterrupt []]

/-- The run that a list of events makes. -/
def runOf (evs : List Event) : Option (List (State × Event) × State) :=
  trace (State.next image) evs [] booted

theorem logged_of_runOf {evs : List Event} {p : List (State × Event) × State}
    (h : runOf evs = some p) : Logged (Step image) booted p.1 p.2 :=
  trace_logged h (fun _ _ _ => step_of_next) .start

/-- The first drive has read. -/
def one : List (State × Event) × State := (runOf readFirst).get (by decide +kernel)

theorem one_eq : runOf readFirst = some one := (Option.some_get _).symm

instance (s : State) : (ev : Event) → Decidable (s.Hasty ev)
  | .request _ _ => inferInstanceAs (Decidable (_ ∧ _))
  | .doFdRequest _ _ => inferInstanceAs (Decidable False)
  | .timer _ _ => inferInstanceAs (Decidable False)
  | .interrupt _ _ _ _ => inferInstanceAs (Decidable False)

instance (s : State) : Decidable (s.Astray M) := inferInstanceAs (Decidable (_ ∧ _ ∧ _))

instance (n : Option ℕ) (buffer : List ℕ) : Decidable (RecalGood n buffer) :=
  inferInstanceAs (Decidable ¬_)

instance (s : State) (a : Reply) : Decidable (s.Mistaken a) :=
  inferInstanceAs (Decidable (_ ∧ _ ∧ _))

instance (s : State) : (ev : Event) → Decidable (s.Misled M ev)
  | .request _ _ => inferInstanceAs (Decidable False)
  | .doFdRequest _ _ => inferInstanceAs (Decidable (s.Astray M))
  | .timer _ _ => inferInstanceAs (Decidable False)
  | .interrupt _ a outs _ =>
    inferInstanceAs (Decidable (({ s with outs := outs } : State).Mistaken a))

/-- **One drive** reads, and its head is on the cylinder. -/
theorem head_on_first : one.2.programmed = [⟨0, 1, 1⟩] ∧
    ∀ p ∈ one.2.programmed, p.head = p.seekTrack := by
  have hfine : ∀ p ∈ one.1, ¬p.1.Hasty p.2 ∧ ¬p.1.Misled image p.2 := by decide +kernel
  exact ⟨by decide +kernel, head_on_track booted_start (logged_of_runOf one_eq) hfine⟩

/-- The second drive reads. -/
def two : List (State × Event) × State := (runOf (readFirst ++ readSecond)).get (by decide +kernel)

theorem two_eq : runOf (readFirst ++ readSecond) = some two := (Option.some_get _).symm

/-- **The second drive is taken to be where the first one is.** -/
theorem not_head_on_track : ¬∀ (M : Image) (s₀ s : State) (log : List (State × Event)), s₀.Start →
    Logged (Step M) s₀ log s → ∀ p ∈ s.programmed, p.head = p.seekTrack := by
  intro h
  have htwo := h image booted two.2 two.1 booted_start (logged_of_runOf two_eq)
  have hfar : (⟨1, 1, 0⟩ : Programmed) ∈ two.2.programmed := by decide +kernel
  exact absurd (htwo _ hfar) (by decide)

end Linux011.Floppy

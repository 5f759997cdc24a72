import Linux011.Floppy.Heads
import Linux011.Hd.Absent

/-!
# The requests that the disk drivers use

`bad_flp_intr` has the slip of `bad_rw_intr`: when a request has failed for the last time, it is
ended, and then it is the next one whose failures are looked at, or what stands at address 0
(`Linux011.Floppy.not_current_used_right`). Where this does not happen, and no request comes
between the beginning and the end of a recalibration that is for none, both drivers use a request
only when there is one (`Linux011.Floppy.current_used_right`). Such a request would be served
twice, and the second time the queue may be empty.
-/

namespace Linux011.Floppy

open Block (Request Use)

variable {M : Image} {s s₀ : State} {log : List (State × Event)} {ev : Event}

/-- What a step leaves, also where the kernel stops. -/
def State.behind (M : Image) (s : State) (ev : Event) : State :=
  match ev.run M s with
  | .ok _ t => t
  | .error _ t => t

/-- **The uses of the floppy driver** are right. -/
theorem uses_right (h0 : s₀.Start) (h : Logged (Step M) s₀ log s) (hen : s.Enabled ev)
    (hfine : ∀ p ∈ (s, ev) :: log, ¬p.1.Hasty p.2 ∧ ¬p.1.Worn p.2) :
    ∀ u ∈ (s.behind M ev).uses, u.Right := by
  have hinv : Inv False True s := .of_logged h0 h fun p hp =>
    ⟨(hfine p (List.mem_cons_of_mem _ hp)).1, False.elim,
      fun _ => (hfine p (List.mem_cons_of_mem _ hp)).2⟩
  obtain ⟨hhasty, hworn⟩ := hfine _ List.mem_cons_self
  have hrun := hinv.run (M := M) hen hhasty False.elim fun _ => hworn
  rw [State.behind]
  split
  · next t ht =>
    have hinv' := wp_ok hrun ht
    exact Inv.toBase hinv' |>.uses trivial
  · next f t ht =>
    have hstop := wp_error hrun ht
    exact hstop trivial

/-- **Both drivers use `CURRENT` when there is a request**, and look at the failures of the one that
has failed: the hard-disk driver just if no request fails that has failed six times; the floppy
driver in a run in which none fails that has failed eight times, and none comes, to an empty queue,
while `recal_interrupt` is to come. -/
theorem current_used_right {D : Hd.Disks} {t₀ : Hd.State} {l : List (Use Hd.Entry)}
    {o : Option Hd.State} (hd0 : t₀.Start) (hd : Hd.Used D false t₀ l o) (h0 : s₀.Start)
    (h : Logged (Step M) s₀ log s) (hen : s.Enabled ev)
    (hfine : ∀ p ∈ (s, ev) :: log, ¬p.1.Hasty p.2 ∧ ¬p.1.Worn p.2) :
    ((∀ u ∈ l, u.Right) ↔ Hd.Used D true t₀ l o) ∧ ∀ u ∈ (s.behind M ev).uses, u.Right :=
  ⟨Hd.uses_right_iff hd0 hd, uses_right h0 h hen hfine⟩

/-! ### Nine failures -/

instance (n : Option ℕ) (buffer : List ℕ) : Decidable (RwBad n buffer) :=
  inferInstanceAs (Decidable (_ ∨ _ ∨ _ ∨ _))

instance (n : Option ℕ) (buffer : List ℕ) (track : ℕ) : Decidable (SeekBad n buffer track) :=
  inferInstanceAs (Decidable (_ ∨ _ ∨ _))

instance (s : State) (a : Reply) : Decidable (s.Fails a) := inferInstanceAs (Decidable (_ ∨ _))

instance (s : State) : (ev : Event) → Decidable (s.Worn ev)
  | .request _ _ => inferInstanceAs (Decidable False)
  | .doFdRequest _ _ => inferInstanceAs (Decidable False)
  | .timer _ _ => inferInstanceAs (Decidable False)
  | .interrupt _ _ _ _ => inferInstanceAs (Decidable (_ ∧ _))

instance {ρ : Type} [DecidableEq ρ] : (u : Use ρ) → Decidable u.Right
  | .deref _ => inferInstanceAs (Decidable (_ ≠ _))
  | .errors _ _ => inferInstanceAs (Decidable (_ ∧ _))

/-- A first request is made to both drivers: the hard disk gets its parameters, and a block of the
floppy disk is read. -/
theorem current_used_first : 0 < one.2.uses.length ∧
    (((∀ u ∈ Hd.roundUses (Hd.oneDrive 2) Hd.isReady
        { Hd.started with queue := [.new Hd.readFirst] } ++ [], u.Right) ↔
      Hd.Used (Hd.oneDrive 2) true Hd.started
        (Hd.roundUses (Hd.oneDrive 2) Hd.isReady
          { Hd.started with queue := [.new Hd.readFirst] } ++ []) (some Hd.specified)) ∧
    ∀ u ∈ (one.2.behind image (.request (readSector 0 36) 0)).uses, u.Right) := by
  have hfine : ∀ p ∈ (one.2, .request (readSector 0 36) 0) :: one.1,
      ¬p.1.Hasty p.2 ∧ ¬p.1.Worn p.2 := by decide +kernel
  refine ⟨by decide +kernel, current_used_right Hd.started_start
    (.next .start (.first Hd.readFirst rfl rfl (.ret Hd.isReady rfl))) booted_start
    (logged_of_runOf one_eq) (by decide +kernel) hfine⟩

/-- The seek fails. -/
def fails : Event := .interrupt none ⟨[0xC0, 0], true⟩ [] false

/-- The drive is recalibrated, and there is another seek. -/
def triesAgain : List Event :=
  [.doFdRequest 1 [], .interrupt (some (0, true)) ⟨[0x20, 0], true⟩ [] false, .doFdRequest 1 [],
    .timer .floppyOnInterrupt []]

/-- The controller is reset before that. -/
def resets : List Event := .doFdRequest 1 [] :: .interrupt none ⟨[0xC0, 0], true⟩ [] false ::
  triesAgain

/-- One request, which fails nine times. -/
def nineFailures : List Event :=
  [.request (readSector 0 36) 0, .doFdRequest 1 [], .timer .floppyOnInterrupt []] ++
    (List.replicate 4 (fails :: triesAgain)).flatten ++
    (List.replicate 4 (fails :: resets)).flatten ++ [fails]

/-- The queue is empty. -/
def nine : List (State × Event) × State := (runOf nineFailures).get (by decide +kernel)

theorem nine_eq : runOf nineFailures = some nine := (Option.some_get _).symm

/-- **The failures that are looked at are those of no request.** -/
theorem not_current_used_right :
    ¬((∀ (D : Hd.Disks) (s₀ : Hd.State) (l : List (Use Hd.Entry)) (o : Option Hd.State),
        s₀.Start → Hd.Used D false s₀ l o → ∀ u ∈ l, u.Right) ∧
      ∀ (M : Image) (s₀ s : State) (log : List (State × Event)), s₀.Start →
        Logged (Step M) s₀ log s → ∀ u ∈ s.uses, u.Right) := by
  rintro ⟨-, h⟩
  have hall := h image booted nine.2 nine.1 booted_start (logged_of_runOf nine_eq)
  exact absurd hall (by decide +kernel)

end Linux011.Floppy

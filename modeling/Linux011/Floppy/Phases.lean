import Linux011.Floppy.Driver

/-!
# The phases of the floppy driver

Between two steps the driver waits for a timer, or for the interrupt that a command ends with, or
for a request, and each time only some of its globals matter (`Linux011.Floppy.Phase`). Two things
are asked of a run here, each under conditions of its own on the steps
(`Linux011.Floppy.State.Fine`): that the head is where it is taken to be, and that `CURRENT` is
only used when there is a request. What a phase says about the head is asked for only where the
first one is (`P`), and what has been recorded of `CURRENT` only where the second one is (`Q`).
-/

namespace Linux011.Floppy

open Block (Request Cmd)

variable {M : Image} {P Q : Prop} {s t : State}

/-! ### Bytes for the controller -/

/-- **What putting out a whole command comes to**: the controller refuses one of the bytes, or it
takes them all, and `m` is where it moves the heads then. -/
def Sent (s : State) (m : ℕ → Option ℕ) (t : State) : Prop :=
  (∃ outs fdc, t = { s with reset := true, outs := outs, fdc := fdc }) ∨
    (s.reset = false ∧ ∃ outs, t = { s with outs := outs, fdc := [], moving := m })

theorem outputByte_of_reset (h : s.reset = true) (b : ℕ) : s.outputByte b = s := if_pos h

theorem outputBytes_of_reset (h : s.reset = true) (bytes : List ℕ) : s.outputBytes bytes = s := by
  induction bytes with
  | nil => rfl
  | cons b bytes ih =>
    change (s.outputByte b).outputBytes bytes = s
    rw [outputByte_of_reset h, ih]

/-- The controller refuses a byte, or takes it. -/
theorem outputByte_cases (h : s.reset = false) (b : ℕ) : ∃ outs,
    s.outputByte b = { s with reset := true, outs := outs } ∨
      s.outputByte b = { s with outs := outs }.take (b % 256) := by
  rw [State.outputByte, if_neg (ne_true_of_eq_false h)]
  split
  · next outs _ => exact ⟨outs, Or.inl rfl⟩
  · next outs _ => exact ⟨outs, Or.inr rfl⟩
  · exact ⟨s.outs, Or.inr rfl⟩

/-- The rest of a command is put out. By induction on how many bytes are left; the controller has
those before them. -/
theorem outputBytes_rest : ∀ (bytes : List ℕ) (s : State), s.reset = false → bytes ≠ [] →
    (s.fdc ++ bytes.map (· % 256)).length =
      commandLength ((s.fdc ++ bytes.map (· % 256)).headD 0) →
    Sent s (execute s.moving (s.fdc ++ bytes.map (· % 256))) (s.outputBytes bytes) := by
  intro bytes
  induction bytes with
  | nil => exact fun s _ h => absurd rfl h
  | cons b bytes ih =>
    intro s hreset _ hlen
    change Sent s _ ((s.outputByte b).outputBytes bytes)
    obtain ⟨outs, hb | hb⟩ := outputByte_cases hreset b
    · rw [hb, outputBytes_of_reset rfl]
      exact Or.inl ⟨outs, s.fdc, rfl⟩
    rw [hb, State.take]
    rw [List.map_cons, List.append_cons] at hlen ⊢
    dsimp only
    by_cases hrest : bytes = []
    · -- the last byte
      subst hrest
      rw [List.map_nil, List.append_nil] at hlen ⊢
      rw [if_neg (by omega)]
      exact Or.inr ⟨hreset, outs, rfl⟩
    · have hhead : ((s.fdc ++ [b % 256]) ++ bytes.map (· % 256)).headD 0 =
          (s.fdc ++ [b % 256]).headD 0 := by
        rcases s.fdc with _ | ⟨c, l⟩
        · rfl
        · rfl
      rw [hhead] at hlen
      have hpos := List.length_pos_iff.mpr hrest
      rw [List.length_append, List.length_map] at hlen
      rw [if_pos (by omega)]
      have hsent := ih { s with outs := outs, fdc := s.fdc ++ [b % 256] } hreset hrest (by
        rw [hhead, List.length_append, List.length_map]
        exact hlen)
      obtain ⟨outs', fdc, heq⟩ | ⟨-, outs', heq⟩ := hsent
      · exact Or.inl ⟨outs', fdc, heq⟩
      · exact Or.inr ⟨hreset, outs', heq⟩

/-- **A whole command is put out.** -/
theorem outputBytes_sent (bytes : List ℕ) (hfdc : s.reset = false → s.fdc = []) (hne : bytes ≠ [])
    (hlen : bytes.length = commandLength ((bytes.map (· % 256)).headD 0)) :
    Sent s (execute s.moving (bytes.map (· % 256))) (s.outputBytes bytes) := by
  rcases Bool.eq_false_or_eq_true s.reset with hreset | hreset
  · rw [outputBytes_of_reset hreset]
    refine Or.inl ⟨s.outs, s.fdc, ?_⟩
    rw [← hreset]
  · have hrest := outputBytes_rest bytes s hreset hne
    rw [hfdc hreset, List.nil_append, List.length_map] at hrest
    exact hrest hlen

/-- `FD_SENSEI` moves nothing. -/
theorem sensei_sent (hfdc : s.reset = false → s.fdc = []) :
    Sent s s.moving (s.outputByte fdSensei) :=
  outputBytes_sent [fdSensei] hfdc (List.cons_ne_nil _ _) rfl

/-- Nor does `FD_SPECIFY`. -/
theorem specify_sent (hfdc : s.reset = false → s.fdc = []) (b c : ℕ) :
    Sent s s.moving (s.outputBytes [fdSpecify, b, c]) :=
  outputBytes_sent [fdSpecify, b, c] hfdc (List.cons_ne_nil _ _) rfl

/-- Nor does a command to read or to write. -/
theorem rw_sent (hfdc : s.reset = false → s.fdc = [])
    (hcommand : commandLength (s.command % 256) = 9) (b₁ b₂ b₃ b₄ b₅ b₆ b₇ b₈ : ℕ) :
    Sent s s.moving (s.outputBytes [s.command, b₁, b₂, b₃, b₄, b₅, b₆, b₇, b₈]) :=
  outputBytes_sent [s.command, b₁, b₂, b₃, b₄, b₅, b₆, b₇, b₈] hfdc
    (List.cons_ne_nil _ _) hcommand.symm

/-- The byte that names head and drive names the drive. -/
theorem unit_mod (h : s.currentDrive < 4) : s.unit % 256 % 4 = s.currentDrive := by
  rw [State.unit, Nat.mod_mod_of_dvd _ (by decide : 4 ∣ 256)]
  have hor := Nat.or_mod_two_pow (a := s.head <<< 2) (b := s.currentDrive) (n := 2)
  rw [Nat.shiftLeft_eq] at hor ⊢
  rw [show (2 : ℕ) ^ 2 = 4 from rfl] at hor ⊢
  rw [hor, Nat.mul_mod_left, Nat.zero_or, Nat.mod_eq_of_lt h]

/-- `FD_RECALIBRATE` sends the head of the drive to cylinder 0, -/
theorem recalibrate_sent (hfdc : s.reset = false → s.fdc = []) (hdrive : s.currentDrive < 4) :
    Sent s (Function.update s.moving s.currentDrive (some 0))
      (s.outputBytes [fdRecalibrate, s.unit]) := by
  have hsent := outputBytes_sent [fdRecalibrate, s.unit] hfdc (List.cons_ne_nil _ _) rfl
  rwa [show execute s.moving ([fdRecalibrate, s.unit].map (· % 256)) =
    Function.update s.moving (s.unit % 256 % 4) (some 0) from rfl, unit_mod hdrive] at hsent

/-- and `FD_SEEK` to the one it is told. -/
theorem seek_sent (hfdc : s.reset = false → s.fdc = []) (hdrive : s.currentDrive < 4)
    (htrack : s.seekTrack < 256) :
    Sent s (Function.update s.moving s.currentDrive (some s.seekTrack))
      (s.outputBytes [fdSeek, s.unit, s.seekTrack]) := by
  have hsent := outputBytes_sent [fdSeek, s.unit, s.seekTrack] hfdc
    (List.cons_ne_nil _ _) rfl
  rwa [show execute s.moving ([fdSeek, s.unit, s.seekTrack].map (· % 256)) =
    Function.update s.moving (s.unit % 256 % 4) (some (s.seekTrack % 256)) from rfl,
    unit_mod hdrive, Nat.mod_eq_of_lt htrack] at hsent

/-! ### The phases -/

/-- **The head is where it is taken to be**, or nothing is taken for granted; and it is still. -/
structure State.Settled (s : State) : Prop where
  still : s.moving s.currentDrive = none
  known : s.heads s.currentDrive = s.currentTrack ∨ s.currentTrack = 255

/-- **The next transfer is prepared**: there will be a seek, or none is needed. -/
structure State.Aimed (s : State) : Prop where
  still : s.moving s.currentDrive = none
  aimed : s.seek = true ∨
    (s.heads s.currentDrive = s.seekTrack ∧ s.currentTrack = s.seekTrack)

/-- **What the driver waits for.** -/
inductive Phase (P : Prop) (s : State) : Prop
  | idle (hcall : s.calling = false) (hdo : s.doFloppy = none) (htimers : s.timers = [])
      (hqueue : s.queue = []) (hhead : P → s.Settled)
  | timer (t : Timer) (hcall : s.calling = false) (hdo : s.doFloppy = none)
      (htimers : s.timers = [t]) (hqueue : s.queue ≠ []) (hhead : P → s.Aimed)
  | seeking (hcall : s.calling = false) (hdo : s.doFloppy = some .seekInterrupt)
      (htimers : s.timers = []) (hqueue : s.queue ≠ [])
      (hhead : P → s.moving s.currentDrive = some s.seekTrack)
  | transferring (hcall : s.calling = false) (hdo : s.doFloppy = some .rwInterrupt)
      (htimers : s.timers = []) (hqueue : s.queue ≠ []) (hhead : P → s.Settled)
  | recalibrating (hcall : s.calling = false) (hdo : s.doFloppy = some .recalInterrupt)
      (htimers : s.timers = [])
      (hhead : P → s.moving s.currentDrive = some 0 ∧ s.currentTrack = 0)
  | resetting (hcall : s.calling = false) (hdo : s.doFloppy = some .resetInterrupt)
      (htimers : s.timers = []) (hrecal : s.recalibrate = true)
  | calling (hcall : s.calling = true) (htimers : s.timers = [])
      (hhead : s.reset = true ∨ s.recalibrate = true ∨ (s.doFloppy = none ∧ (P → s.Settled)))

/-- **What holds in every phase.** -/
structure Base (P Q : Prop) (s : State) : Prop where
  fdc : s.reset = false → s.fdc = []
  drive : s.currentDrive < 4
  seekTrack : s.seekTrack < 256
  command : commandLength (s.command % 256) = 9
  still : P → ∀ d, d ≠ s.currentDrive → s.moving d = none
  programmed : P → ∀ p ∈ s.programmed, p.head = p.seekTrack
  uses : Q → ∀ u ∈ s.uses, u.Right

/-- **The invariant.** -/
structure Inv (P Q : Prop) (s : State) : Prop extends Base P Q s where
  phase : Phase P s

/-- What is left where the kernel stops. -/
def Stopped (Q : Prop) (_ : Fault) (t : State) : Prop := Q → ∀ u ∈ t.uses, u.Right

/-! ### What uses `CURRENT` -/

variable {r : Request} {q : List Request}

theorem wp_modifyGet {α : Type} {Q : α → State → Prop} {E : Fault → State → Prop}
    (f : State → α × State) :
    wp (modifyGet f : FdM α) Q E s ↔ Q (f s).1 (f s).2 := Iff.rfl

theorem wp_current {Q : Request → State → Prop} {E : Fault → State → Prop}
    (hq : s.queue = r :: q) :
    wp current Q E s ↔ Q r { s with uses := .deref s.queue :: s.uses } := by
  rw [current, wp_bind, wp_get, wp_bind, wp_set, hq]
  exact Iff.rfl

theorem wp_endRequest {Q : Unit → State → Prop} {E : Fault → State → Prop} {uptodate : Bool}
    (hq : s.queue = r :: q) :
    wp (endRequest uptodate) Q E s ↔
      Q () { s with
        queue := q
        ended := (r, uptodate) :: s.ended
        uses := .deref s.queue :: s.uses } := by
  rw [endRequest, wp_bind, wp_current hq, wp_modify, hq]
  exact Iff.rfl

/-- A use of a request that is there. -/
theorem right_cons {u : Block.Use Request} {l : List (Block.Use Request)} (h : u.Right)
    (hl : ∀ u ∈ l, u.Right) : ∀ v ∈ u :: l, v.Right := by
  intro v hv
  rcases List.mem_cons.mp hv with rfl | hv
  · exact h
  · exact hl v hv

/-- **`bad_flp_intr`** asks for a reset or a recalibration; its uses of `CURRENT` are right as long
as the request has not failed eight times before. -/
theorem wp_badFlpIntr {E : Fault → State → Prop} {junk : Bool} (hq : s.queue = r :: q) :
    wp (badFlpIntr junk) (fun _ t => ∃ selected queue ended uses reset recalibrate,
      t = { s with
        selected := selected
        queue := queue
        ended := ended
        uses := uses
        reset := reset
        recalibrate := recalibrate } ∧
      (reset = true ∨ reset = s.reset ∧ recalibrate = true) ∧
      (r.errors < maxErrors → (∀ u ∈ s.uses, u.Right) → ∀ u ∈ uses, u.Right)) E s := by
  have hflags : ∀ (b : Bool) (sel : Bool) (qu : List Request) (en : List (Request × Bool))
      (us : List (Block.Use Request)),
      (r.errors < maxErrors → (∀ u ∈ s.uses, u.Right) → ∀ u ∈ us, u.Right) →
      wp (if b = true then modify fun s : State => { s with reset := true }
        else modify fun s => { s with recalibrate := true }) (fun _ t =>
        ∃ selected queue ended uses reset recalibrate,
          t = { s with
            selected := selected
            queue := queue
            ended := ended
            uses := uses
            reset := reset
            recalibrate := recalibrate } ∧
          (reset = true ∨ reset = s.reset ∧ recalibrate = true) ∧
          (r.errors < maxErrors → (∀ u ∈ s.uses, u.Right) → ∀ u ∈ uses, u.Right)) E
        { s with selected := sel, queue := qu, ended := en, uses := us } := by
    intro b sel qu en us hus
    rw [wp_ite, wp_modify, wp_modify]
    constructor
    · intro _
      exact ⟨sel, qu, en, us, true, s.recalibrate, rfl, Or.inl rfl, hus⟩
    · intro _
      exact ⟨sel, qu, en, us, s.reset, true, rfl, Or.inr ⟨rfl, rfl⟩, hus⟩
  rw [badFlpIntr, wp_bind, wp_current hq]
  dsimp only
  rw [wp_bind, wp_modify, wp_bind, wp_get, hq]
  dsimp only
  rw [wp_ite]
  constructor
  · intro hmany
    rw [wp_bind, wp_modify, wp_bind, wp_endRequest rfl, wp_bind, wp_modify, wp_bind, wp_get]
    exact hflags _ _ _ _ _ fun hfew => absurd hfew (by omega)
  · intro hfew
    rw [wp_bind, wp_modify, wp_bind, wp_get]
    refine hflags _ _ _ _ _ fun _ hright => ?_
    exact right_cons ⟨List.cons_ne_nil _ _, rfl⟩ (right_cons (List.cons_ne_nil _ _) hright)

/-! ### The routines -/

/-- `setup_DMA`. -/
theorem wp_setupDMA {R : Unit → State → Prop} {E : Fault → State → Prop} (hq : s.queue = r :: q)
    (h : ∀ dma, R () { s with dma := dma, uses := .deref s.queue :: s.uses }) :
    wp (setupDMA M) R E s := by
  rw [setupDMA, wp_bind, wp_current hq]
  exact h _

/-- **`setup_rw_floppy`**, with the head where it should be. -/
theorem Base.setupRwFloppy (h : Base P Q s) (hcall : s.calling = false) (htimers : s.timers = [])
    (hqueue : s.queue ≠ []) (hstill : P → s.moving s.currentDrive = none)
    (hat : P → s.heads s.currentDrive = s.seekTrack ∧ s.currentTrack = s.seekTrack) :
    wp (setupRwFloppy M) (fun _ => Inv P Q) (Stopped Q) s := by
  obtain ⟨r, q, hq⟩ := List.exists_cons_of_ne_nil hqueue
  have hsettled : P → s.Settled := fun hp => ⟨hstill hp, Or.inl ((hat hp).1.trans (hat hp).2.symm)⟩
  rw [Floppy.setupRwFloppy, wp_bind]
  refine wp_setupDMA hq fun dma => ?_
  rw [wp_bind, wp_modify, wp_bind, wp_modify, wp_bind, wp_get, wp_ite]
  have hprog : P → ∀ p ∈ ⟨s.currentDrive, s.seekTrack, s.heads s.currentDrive⟩ :: s.programmed,
      p.head = p.seekTrack := by
    rintro hp p hmem
    rcases List.mem_cons.mp hmem with rfl | hmem
    · exact (hat hp).1
    · exact h.programmed hp p hmem
  have huses : Q → ∀ u ∈ .deref s.queue :: s.uses, u.Right := fun hq =>
    right_cons hqueue (h.uses hq)
  -- the controller refuses a byte, or it takes the command
  obtain ⟨outs, fdc, hsent⟩ | ⟨hreset, outs, hsent⟩ := rw_sent
    (s := { s with
      dma := dma
      uses := .deref s.queue :: s.uses
      doFloppy := some .rwInterrupt
      programmed := ⟨s.currentDrive, s.seekTrack, s.heads s.currentDrive⟩ :: s.programmed })
    h.fdc h.command _ _ _ _ _ _ _ _
  · rw [hsent]
    constructor
    · intro _
      exact ⟨⟨fun hf => Bool.noConfusion hf, h.drive, h.seekTrack, h.command, h.still, hprog,
        huses⟩, .calling rfl htimers (Or.inl rfl)⟩
    · intro hf
      exact absurd rfl hf
  · rw [hsent]
    constructor
    · intro hf
      exact absurd (hreset.symm.trans hf) Bool.false_ne_true
    · intro _
      exact ⟨⟨fun _ => rfl, h.drive, h.seekTrack, h.command, h.still, hprog, huses⟩,
        .transferring hcall rfl htimers hqueue fun hp => ⟨(hsettled hp).still, (hsettled hp).known⟩⟩

/-- What `transfer` puts out first. -/
theorem specify_cases (hfdc : s.reset = false → s.fdc = []) : ∃ spec1 rate reset outs fdc,
    s.specify M = { s with
      curSpec1 := spec1
      curRate := rate
      reset := reset
      outs := outs
      fdc := fdc } ∧ (reset = false → fdc = []) := by
  rw [State.specify]
  by_cases hspec : s.curSpec1 ≠ (M.floppyType s.floppy).spec1
  · rw [if_pos hspec]
    obtain ⟨outs, fdc, hsent⟩ | ⟨hreset, outs, hsent⟩ := specify_sent
      (s := { s with curSpec1 := (M.floppyType s.floppy).spec1 }) hfdc
      (M.floppyType s.floppy).spec1 6
    · rw [hsent]
      exact ⟨_, _, true, outs, fdc, rfl, fun hf => Bool.noConfusion hf⟩
    · rw [hsent]
      exact ⟨_, _, s.reset, outs, [], rfl, fun _ => rfl⟩
  · rw [if_neg hspec]
    exact ⟨_, _, s.reset, s.outs, s.fdc, rfl, hfdc⟩

/-- **`transfer`** -/
theorem Base.transfer (h : Base P Q s) (hcall : s.calling = false) (htimers : s.timers = [])
    (hqueue : s.queue ≠ []) (haimed : P → s.Aimed) :
    wp (transfer M) (fun _ => Inv P Q) (Stopped Q) s := by
  obtain ⟨spec1, rate, reset, outs, fdc, hspecify, hfdc⟩ := specify_cases (M := M) h.fdc
  rw [Floppy.transfer, wp_bind, wp_modify, wp_bind, wp_get, hspecify, wp_ite]
  constructor
  · intro hreset
    exact ⟨⟨hfdc, h.drive, h.seekTrack, h.command, h.still, h.programmed, h.uses⟩,
      .calling rfl htimers (Or.inl hreset)⟩
  intro _
  rw [wp_ite]
  constructor
  · intro hseek
    have hat : P → s.heads s.currentDrive = s.seekTrack ∧ s.currentTrack = s.seekTrack := fun hp =>
      (haimed hp).aimed.resolve_left (ne_true_of_eq_false hseek)
    exact Base.setupRwFloppy
      ⟨hfdc, h.drive, h.seekTrack, h.command, h.still, h.programmed, h.uses⟩ hcall htimers hqueue
      (fun hp => (haimed hp).still) hat
  intro _
  rw [wp_bind, wp_modify]
  -- the head is sent to its cylinder, by whichever command
  have hgo : ∀ u : State, Sent { s with
        curSpec1 := spec1
        curRate := rate
        reset := reset
        outs := outs
        fdc := fdc
        doFloppy := some .seekInterrupt }
      (Function.update s.moving s.currentDrive (some s.seekTrack)) u →
      wp (do
        let s ← get
        if s.reset = true then callDoFdRequest else pure ()) (fun _ => Inv P Q) (Stopped Q) u := by
    intro u hsent
    rw [wp_bind, wp_get, wp_ite]
    obtain ⟨outs', fdc', rfl⟩ | ⟨hreset, outs', rfl⟩ := hsent
    · constructor
      · intro _
        exact ⟨⟨fun hf => Bool.noConfusion hf, h.drive, h.seekTrack, h.command, h.still,
          h.programmed, h.uses⟩, .calling rfl htimers (Or.inl rfl)⟩
      · intro hf
        exact absurd rfl hf
    · constructor
      · intro hf
        exact absurd (hreset.symm.trans hf) Bool.false_ne_true
      · intro _
        refine ⟨⟨fun _ => rfl, h.drive, h.seekTrack, h.command, fun hp d hd => ?_, h.programmed,
          h.uses⟩, .seeking hcall rfl htimers hqueue fun _ => Function.update_self _ _ _⟩
        exact (Function.update_of_ne hd _ _).trans (h.still hp d hd)
  rw [wp_ite]
  constructor
  · intro _
    rw [wp_bind, wp_modify]
    exact hgo _ (seek_sent hfdc h.drive h.seekTrack)
  · intro hzero
    rw [wp_bind, wp_modify]
    have hsent := recalibrate_sent (s := { s with
      curSpec1 := spec1
      curRate := rate
      reset := reset
      outs := outs
      fdc := fdc
      doFloppy := some .seekInterrupt }) hfdc h.drive
    rw [← not_not.mp hzero] at hsent
    exact hgo _ hsent

/-- **`floppy_on_interrupt`** -/
theorem Base.floppyOnInterrupt (h : Base P Q s) (hcall : s.calling = false)
    (hdo : s.doFloppy = none) (htimers : s.timers = []) (hqueue : s.queue ≠ [])
    (haimed : P → s.Aimed) : wp (floppyOnInterrupt M) (fun _ => Inv P Q) (Stopped Q) s := by
  rw [Floppy.floppyOnInterrupt, wp_bind, wp_modify, wp_bind, wp_get, wp_ite]
  constructor
  · intro _
    rw [wp_set]
    exact ⟨⟨h.fdc, h.drive, h.seekTrack, h.command, h.still, h.programmed, h.uses⟩,
      .timer .transfer hcall hdo (congrArg _ htimers) hqueue fun hp =>
        ⟨(haimed hp).still, (haimed hp).aimed⟩⟩
  · intro _
    exact Base.transfer ⟨h.fdc, h.drive, h.seekTrack, h.command, h.still, h.programmed, h.uses⟩
      hcall htimers hqueue fun hp => ⟨(haimed hp).still, (haimed hp).aimed⟩

/-- **`recalibrate_floppy`** -/
theorem Base.recalibrateFloppy (h : Base P Q s) (hcall : s.calling = false)
    (htimers : s.timers = []) : wp recalibrateFloppy (fun _ => Inv P Q) (Stopped Q) s := by
  rw [Floppy.recalibrateFloppy, wp_bind, wp_modify, wp_bind, wp_modify, wp_bind, wp_get, wp_ite]
  obtain ⟨outs, fdc, hsent⟩ | ⟨hreset, outs, hsent⟩ := recalibrate_sent (s := { s with
    recalibrate := false
    currentTrack := 0
    doFloppy := some .recalInterrupt }) h.fdc h.drive
  · rw [hsent]
    constructor
    · intro _
      exact ⟨⟨fun hf => Bool.noConfusion hf, h.drive, h.seekTrack, h.command, h.still,
        h.programmed, h.uses⟩, .calling rfl htimers (Or.inl rfl)⟩
    · intro hf
      exact absurd rfl hf
  · rw [hsent]
    constructor
    · intro hf
      exact absurd (hreset.symm.trans hf) Bool.false_ne_true
    · intro _
      refine ⟨⟨fun _ => rfl, h.drive, h.seekTrack, h.command, fun hp d hd => ?_, h.programmed,
        h.uses⟩, .recalibrating hcall rfl htimers fun _ => ⟨Function.update_self _ _ _, rfl⟩⟩
      exact (Function.update_of_ne hd _ _).trans (h.still hp d hd)

/-- **`reset_floppy`** -/
theorem Base.resetFloppy (h : Base P Q s) (hcall : s.calling = false)
    (htimers : s.timers = []) : wp resetFloppy (fun _ => Inv P Q) (Stopped Q) s := by
  rw [Floppy.resetFloppy, wp_modify]
  exact ⟨⟨fun _ => rfl, h.drive, h.seekTrack, h.command, fun _ _ _ => rfl, h.programmed, h.uses⟩,
    .resetting hcall rfl htimers rfl⟩

/-! ### `do_fd_request` -/

/-- The cylinder that a request is for. -/
def Image.cylinder (M : Image) (r : Request) : ℕ :=
  (M.floppyType (typeOf r)).cylinder (r.sector % 0x100000000)

/-- The first request that is not ended at once. -/
def Image.served (M : Image) (q : List Request) : Option Request :=
  q.find? fun r => ¬M.outOfRange r

/-- **`do_fd_request` forgets to seek**: all requests ask for too much, so that `current_drive` is
another one than before, and no seek has been made when the next request comes; or the track that
is asked for is the one `current_track` names at the start. -/
def State.Astray (M : Image) (s : State) : Prop :=
  s.reset = false ∧ s.recalibrate = false ∧
    ((M.served s.queue = none ∧ ∃ r ∈ s.queue.getLast?, deviceNr r ≠ s.currentDrive) ∨
      ∃ r ∈ M.served s.queue, deviceNr r = s.currentDrive ∧ s.currentTrack = 255 ∧
        M.cylinder r = 255)

theorem deviceNr_lt (r : Request) : deviceNr r < 4 := by
  have hpos := Int.emod_nonneg r.dev (by decide : (4 : ℤ) ≠ 0)
  have hlt := Int.emod_lt_of_pos r.dev (by decide : (0 : ℤ) < 4)
  rw [deviceNr]
  omega

theorem served_cons (r : Request) (q : List Request) :
    M.served (r :: q) = if M.outOfRange r then M.served q else some r := by
  rw [Image.served, List.find?_cons]
  by_cases hout : M.outOfRange r
  · rw [if_pos hout, decide_eq_false (not_not.mpr hout)]
    rfl
  · rw [if_neg hout, decide_eq_true hout]

/-- The motor is started. -/
theorem Base.startMotor (h : Base P Q s) {ticks : ℕ} (hcall : s.calling = false)
    (hdo : s.doFloppy = none) (htimers : s.timers = []) (hqueue : s.queue ≠ [])
    (haimed : P → s.Aimed) : wp (startMotor M ticks) (fun _ => Inv P Q) (Stopped Q) s := by
  have hbase : Base P Q (s.ticksToFloppyOn s.currentDrive) :=
    ⟨h.fdc, h.drive, h.seekTrack, h.command, h.still, h.programmed, h.uses⟩
  rw [Floppy.startMotor, wp_bind, wp_modify, wp_ite]
  constructor
  · intro _
    exact hbase.floppyOnInterrupt hcall hdo htimers hqueue fun hp =>
      ⟨(haimed hp).still, (haimed hp).aimed⟩
  · intro _
    rw [wp_modify]
    exact ⟨⟨h.fdc, h.drive, h.seekTrack, h.command, h.still, h.programmed, h.uses⟩,
      .timer .floppyOnInterrupt hcall hdo (congrArg _ htimers) hqueue fun hp =>
        ⟨(haimed hp).still, (haimed hp).aimed⟩⟩

/-- **The loop of `do_fd_request`.** The drive was `d` before it: as long as there is no `seek`, it
still is, and so it is when all requests have been ended. -/
theorem Base.nextRequest {d ticks n : ℕ} (h : Base P Q s) (hcall : s.calling = false)
    (hdo : s.doFloppy = none) (htimers : s.timers = []) (hlen : s.queue.length < n)
    (hstill : P → ∀ d, s.moving d = none)
    (hknown : P → s.heads d = s.currentTrack ∨ s.currentTrack = 255)
    (hseek : P → s.seek = false → s.currentDrive = d)
    (hlast : P → M.served s.queue = none →
      (s.queue.getLast?.map deviceNr).getD s.currentDrive = d)
    (hfirst : P → ∀ r ∈ M.served s.queue, ¬(deviceNr r = d ∧ s.currentTrack = 255 ∧
      M.cylinder r = 255)) :
    wp (nextRequest M ticks n) (fun _ => Inv P Q) (Stopped Q) s := by
  induction n generalizing s with
  | zero => exact absurd hlen (Nat.not_lt_zero _)
  | succ n ih =>
    rw [Floppy.nextRequest, wp_bind, wp_get, wp_ite]
    constructor
    · intro hq
      refine ⟨h, .idle hcall hdo htimers hq fun hp => ⟨hstill hp _, ?_⟩⟩
      have hdrive := hlast hp (by rw [hq]; rfl)
      rw [hq] at hdrive
      change s.currentDrive = d at hdrive
      rw [hdrive]
      exact hknown hp
    intro hne
    obtain ⟨r, q, hq⟩ := List.exists_cons_of_ne_nil hne
    have huses : Q → ∀ u ∈ .deref s.queue :: s.uses, u.Right := fun hQ =>
      right_cons hne (h.uses hQ)
    rw [wp_bind, wp_current hq, wp_ite]
    refine ⟨fun _ => huses, fun _ => ?_⟩
    rw [wp_bind, wp_modify, wp_ite]
    rw [hq, served_cons] at hlast hfirst
    constructor
    · -- it is ended at once
      intro hout
      rw [if_pos hout] at hlast hfirst
      rw [wp_bind]
      refine (wp_endRequest (by exact hq)).mpr ?_
      have hlen' : q.length < n := by
        rw [hq, List.length_cons] at hlen
        omega
      refine ih ⟨h.fdc, deviceNr_lt r, h.seekTrack, h.command, fun hp d _ => hstill hp d,
        h.programmed, fun hQ => right_cons hne (huses hQ)⟩ hcall hdo htimers hlen' hstill hknown
        (fun hp hs => ?_) (fun hp hnone => ?_) hfirst
      · obtain ⟨hs, hd⟩ := Bool.or_eq_false_iff.mp hs
        exact (not_not.mp (of_decide_eq_false hd)).symm.trans (hseek hp hs)
      · have hdrive := hlast hp hnone
        rw [List.getLast?_cons] at hdrive
        change _ = d at hdrive
        rw [← hdrive]
        dsimp only
        rcases q.getLast? with _ | c
        · rfl
        · rfl
    · intro hin
      rw [if_neg hin] at hlast hfirst
      rw [wp_ite]
      refine ⟨fun _ => huses, fun _ => ?_⟩
      rw [wp_bind, wp_modify]
      have hbase : Base P Q (({ s with
          uses := .deref s.queue :: s.uses
          floppy := typeOf r
          seek := s.seek || s.currentDrive ≠ deviceNr r
          currentDrive := deviceNr r } : State).prepare M r) := by
        refine ⟨h.fdc, deviceNr_lt r, Nat.mod_lt _ (by decide), ?_, fun hp d _ => hstill hp d,
          h.programmed, huses⟩
        rw [State.prepare]
        rcases r.cmd with _ | _
        · rfl
        · rfl
      refine hbase.startMotor hcall hdo htimers hne fun hp => ⟨hstill hp _, ?_⟩
      by_cases hflag : (({ s with
          uses := .deref s.queue :: s.uses
          floppy := typeOf r
          seek := s.seek || s.currentDrive ≠ deviceNr r
          currentDrive := deviceNr r } : State).prepare M r).seek = true
      · exact Or.inl hflag
      -- no seek: the drive is the same, and the track is the one the head is on
      obtain ⟨hs, htrack⟩ := Bool.or_eq_false_iff.mp (Bool.eq_false_iff.mpr hflag)
      obtain ⟨hs, hdrive⟩ := Bool.or_eq_false_iff.mp hs
      have htrack : M.cylinder r = s.currentTrack := not_not.mp (of_decide_eq_false htrack)
      have hsame : deviceNr r = d := (not_not.mp (of_decide_eq_false hdrive)).symm.trans
        (hseek hp hs)
      refine Or.inr ⟨?_, htrack.symm⟩
      change s.heads (deviceNr r) = M.cylinder r
      rw [hsame, htrack]
      refine (hknown hp).resolve_right fun h255 => ?_
      exact hfirst hp r rfl ⟨hsame, h255, htrack.trans h255⟩

/-- **`do_fd_request`** -/
theorem Inv.doFdRequest (h : Inv P Q s) {ticks : ℕ} {outs : List Bool} (hcall : s.calling = true)
    (hfine : P → ¬s.Astray M) :
    wp (doFdRequest M ticks) (fun _ => Inv P Q) (Stopped Q) { s with outs := outs } := by
  have hbase : Base P Q { s with outs := outs, seek := false, calling := false } :=
    ⟨h.fdc, h.drive, h.seekTrack, h.command, h.still, h.programmed, h.uses⟩
  obtain ⟨htimers, hhead⟩ : s.timers = [] ∧
      (s.reset = true ∨ s.recalibrate = true ∨ (s.doFloppy = none ∧ (P → s.Settled))) := by
    rcases h.phase with ⟨hc, _⟩ | ⟨_, hc, _⟩ | ⟨hc, _⟩ | ⟨hc, _⟩ | ⟨hc, _⟩ | ⟨hc, _⟩ |
      ⟨-, htimers, hhead⟩
    all_goals first
      | exact ⟨htimers, hhead⟩
      | exact absurd (hcall.symm.trans hc) Bool.noConfusion
  rw [Floppy.doFdRequest, wp_bind, wp_modify, wp_bind, wp_get, wp_ite]
  refine ⟨fun _ => hbase.resetFloppy rfl htimers, fun hreset => ?_⟩
  rw [wp_ite]
  refine ⟨fun _ => hbase.recalibrateFloppy rfl htimers, fun hrecal => ?_⟩
  obtain ⟨hdo, hsettled⟩ := (hhead.resolve_left hreset).resolve_left hrecal
  refine hbase.nextRequest (d := s.currentDrive) rfl hdo htimers (Nat.lt_succ_self _)
    (fun hp d => ?_) (fun hp => (hsettled hp).known) (fun _ _ => rfl) (fun hp hnone => ?_)
    fun hp r hr hbad => ?_
  · by_cases hd : d = s.currentDrive
    · rw [hd]
      exact (hsettled hp).still
    · exact h.still hp d hd
  · by_contra hne
    refine hfine hp ⟨Bool.eq_false_iff.mpr hreset, Bool.eq_false_iff.mpr hrecal,
      Or.inl ⟨hnone, ?_⟩⟩
    rcases hlast : s.queue.getLast? with _ | r
    · change ¬(s.queue.getLast?.map deviceNr).getD s.currentDrive = s.currentDrive at hne
      rw [hlast] at hne
      exact absurd rfl hne
    · change ¬(s.queue.getLast?.map deviceNr).getD s.currentDrive = s.currentDrive at hne
      rw [hlast] at hne
      exact ⟨r, rfl, hne⟩
  · exact hfine hp ⟨Bool.eq_false_iff.mpr hreset, Bool.eq_false_iff.mpr hrecal,
      Or.inr ⟨r, hr, hbad⟩⟩

/-! ### What the controller answers -/

/-- `result`. -/
theorem result_cases (s : State) (a : Reply) : ∃ buffer reset,
    (s.result a).2 = { s with replyBuffer := buffer, reset := reset } ∧
      (reset = false → s.reset = false) ∧
      ∀ n, (s.result a).1 = some n →
        a.ready = true ∧ a.bytes.length = n ∧ ∃ old, buffer = a.bytes ++ old := by
  rw [State.result]
  by_cases hreset : s.reset = true
  · rw [if_pos hreset]
    exact ⟨s.replyBuffer, s.reset, rfl, id, fun n hn => by cases hn⟩
  rw [if_neg hreset]
  by_cases hready : a.ready = true ∧ a.bytes.length ≤ 7
  · rw [if_pos hready]
    refine ⟨_, s.reset, rfl, id, fun n hn =>
      ⟨hready.1, Option.some.inj hn, s.replyBuffer.drop a.bytes.length, ?_⟩⟩
    rw [List.take_of_length_le hready.2]
  · rw [if_neg hready]
    exact ⟨_, true, rfl, fun hf => Bool.noConfusion hf, fun n hn => by cases hn⟩

theorem result_congr (hreset : s.reset = t.reset) (hbuffer : s.replyBuffer = t.replyBuffer)
    (a : Reply) : (s.result a).1 = (t.result a).1 ∧
      (s.result a).2.replyBuffer = (t.result a).2.replyBuffer := by
  rw [State.result, State.result, hreset]
  by_cases hr : t.reset = true
  · rw [if_pos hr, if_pos hr]
    exact ⟨rfl, hbuffer⟩
  rw [if_neg hr, if_neg hr]
  by_cases hready : a.ready = true ∧ a.bytes.length ≤ 7
  · rw [if_pos hready, if_pos hready]
    exact ⟨rfl, congrArg (fun l => a.bytes.take 7 ++ l.drop a.bytes.length) hbuffer⟩
  · rw [if_neg hready, if_neg hready]
    exact ⟨rfl, congrArg (fun l => a.bytes.take 7 ++ l.drop a.bytes.length) hbuffer⟩

/-- `FD_SENSEI` and `result`, which most of the interrupt routines begin with. -/
def State.sense (s : State) (a : Reply) : Option ℕ × State := (s.outputByte fdSensei).result a

theorem sense_cases (hfdc : s.reset = false → s.fdc = []) (a : Reply) :
    ∃ outs fdc reset buffer,
      (s.sense a).2 = { s with outs := outs, fdc := fdc, reset := reset, replyBuffer := buffer } ∧
        (reset = false → fdc = []) ∧
        ((s.sense a).1 = some 2 → ∃ st0 pcn, a = ⟨[st0, pcn], true⟩ ∧
          buffer.getD 0 0 = st0 ∧ buffer.getD 1 0 = pcn) := by
  obtain ⟨buffer, reset, hresult, hreset, htwo⟩ := result_cases (s.outputByte fdSensei) a
  have hbytes : (s.sense a).1 = some 2 → ∃ st0 pcn, a = ⟨[st0, pcn], true⟩ ∧
      buffer.getD 0 0 = st0 ∧ buffer.getD 1 0 = pcn := by
    intro h
    obtain ⟨hready, hlen, old, hold⟩ := htwo 2 h
    obtain ⟨st0, pcn, hb⟩ := List.length_eq_two.mp hlen
    refine ⟨st0, pcn, ?_, ?_, ?_⟩
    · rw [← hb, ← hready]
    · rw [hold, hb]
      rfl
    · rw [hold, hb]
      rfl
  obtain ⟨outs, fdc, hsent⟩ | ⟨hr, outs, hsent⟩ := sensei_sent hfdc
  · rw [hsent] at hresult hreset
    exact ⟨outs, fdc, reset, buffer, (congrArg (fun u => (State.result u a).2) hsent).trans hresult,
      fun hf => Bool.noConfusion (hreset hf), hbytes⟩
  · rw [hsent] at hresult
    exact ⟨outs, [], reset, buffer, (congrArg (fun u => (State.result u a).2) hsent).trans hresult,
      fun _ => rfl, hbytes⟩

theorem sense_congr (hreset : s.reset = t.reset) (houts : s.outs = t.outs)
    (hbuffer : s.replyBuffer = t.replyBuffer) (a : Reply) :
    (s.sense a).1 = (t.sense a).1 ∧
      (s.sense a).2.replyBuffer = (t.sense a).2.replyBuffer := by
  have htake : ∀ (u : State) (b : ℕ), (u.take b).reset = u.reset ∧
      (u.take b).replyBuffer = u.replyBuffer := by
    intro u b
    rw [State.take]
    split_ifs
    · exact ⟨rfl, rfl⟩
    · exact ⟨rfl, rfl⟩
  have hout : ∀ u : State, (u.outputByte fdSensei).replyBuffer = u.replyBuffer ∧
      (u.outputByte fdSensei).reset = (u.reset || u.outs.head? == some false) := by
    intro u
    rw [State.outputByte]
    by_cases hr : u.reset = true
    · rw [if_pos hr, hr]
      exact ⟨rfl, rfl⟩
    rw [if_neg hr]
    rcases u.outs with _ | ⟨_ | _, outs⟩
    · exact ⟨(htake _ _).2, (htake _ _).1.trans (Bool.or_false _).symm⟩
    · exact ⟨rfl, (Bool.or_true _).symm⟩
    · exact ⟨(htake _ _).2, (htake _ _).1.trans (Bool.or_false _).symm⟩
  refine result_congr ?_ ?_ a
  · rw [(hout s).2, (hout t).2, hreset, houts]
  · rw [(hout s).1, (hout t).1, hbuffer]

/-! ### The interrupts -/

/-- What `rw_interrupt` takes for a failure, with what `result` has returned and read, -/
def RwBad (n : Option ℕ) (buffer : List ℕ) : Prop :=
  n ≠ some 7 ∨ buffer.getD 0 0 &&& 0xF8 ≠ 0 ∨ buffer.getD 1 0 &&& 0xBF ≠ 0 ∨
    buffer.getD 2 0 &&& 0x73 ≠ 0

/-- and what `seek_interrupt` does. -/
def SeekBad (n : Option ℕ) (buffer : List ℕ) (track : ℕ) : Prop :=
  n ≠ some 2 ∨ buffer.getD 0 0 &&& 0xF8 ≠ 0x20 ∨ buffer.getD 1 0 ≠ track

/-- What `recal_interrupt` takes for a recalibration. -/
def RecalGood (n : Option ℕ) (buffer : List ℕ) : Prop :=
  ¬(n ≠ some 2 ∨ buffer.getD 0 0 &&& 0xE0 = 0x60)

/-- **The first request has failed.** -/
theorem Base.failed (h : Base P Q s) {junk : Bool} (htimers : s.timers = [])
    (hq : s.queue = r :: q) (hfew : Q → r.errors < maxErrors) :
    wp (do badFlpIntr junk; callDoFdRequest) (fun _ => Inv P Q) (Stopped Q) s := by
  rw [wp_bind]
  refine wp_post (wp_badFlpIntr hq) ?_
  rintro _ t ⟨selected, queue, ended, uses, reset, recalibrate, rfl, hflags, huses⟩
  refine ⟨⟨fun hf => ?_, h.drive, h.seekTrack, h.command, h.still, h.programmed,
    fun hQ => huses (hfew hQ) (h.uses hQ)⟩, .calling rfl htimers ?_⟩
  · rcases hflags with hr | ⟨hr, -⟩
    · exact absurd (hr.symm.trans hf) Bool.noConfusion
    · exact h.fdc (hr.symm.trans hf)
  · rcases hflags with hr | ⟨-, hr⟩
    · exact Or.inl hr
    · exact Or.inr (Or.inl hr)

/-- **`rw_interrupt`** -/
theorem Base.rwInterrupt (h : Base P Q s) {a : Reply} {junk : Bool} (hdo : s.doFloppy = none)
    (htimers : s.timers = []) (hq : s.queue = r :: q)
    (hsettled : P → s.Settled)
    (hfew : Q → RwBad (s.result a).1 (s.result a).2.replyBuffer →
      (s.result a).2.replyBuffer.getD 1 0 &&& 0x02 = 0 → r.errors < maxErrors) :
    wp (rwInterrupt a junk) (fun _ => Inv P Q) (Stopped Q) s := by
  obtain ⟨buffer, reset, hresult, hreset, -⟩ := result_cases s a
  have hbase : Base P Q { s with replyBuffer := buffer, reset := reset } :=
    ⟨fun hf => h.fdc (hreset hf), h.drive, h.seekTrack, h.command, h.still, h.programmed, h.uses⟩
  have hne : s.queue ≠ [] := by
    rw [hq]
    exact List.cons_ne_nil _ _
  have huses : Q → ∀ u ∈ .deref s.queue :: s.uses, u.Right := fun hQ => right_cons hne (h.uses hQ)
  -- a request has been ended
  have hend : ∀ (selected : Bool) (ended : List (Request × Bool))
      (uses : List (Block.Use Request)), (Q → ∀ u ∈ uses, u.Right) →
      Inv P Q { s with
        replyBuffer := buffer
        reset := reset
        selected := selected
        queue := q
        ended := ended
        uses := uses
        calling := true } := by
    intro selected ended uses huses
    exact ⟨⟨hbase.fdc, h.drive, h.seekTrack, h.command, h.still, h.programmed, huses⟩,
      .calling rfl htimers (Or.inr (Or.inr
        ⟨hdo, fun hp => ⟨(hsettled hp).still, (hsettled hp).known⟩⟩))⟩
  rw [Floppy.rwInterrupt, wp_bind, wp_modifyGet, wp_bind, wp_get, wp_ite]
  constructor
  · intro hbad
    rw [wp_ite]
    constructor
    · intro _
      rw [wp_bind, wp_modify, wp_bind, hresult]
      refine (wp_endRequest (by exact hq)).mpr ?_
      exact hend _ _ _ huses
    · intro hprot
      have hfew' := fun hQ => hfew hQ hbad (not_not.mp hprot)
      rw [hresult]
      exact hbase.failed htimers hq hfew'
  · intro _
    rw [hresult, wp_ite]
    constructor
    · intro _
      rw [wp_bind]
      refine (wp_current (by exact hq)).mpr ?_
      beta_reduce
      rw [wp_bind, wp_modify, wp_bind]
      refine (wp_endRequest (by exact hq)).mpr ?_
      exact hend _ _ _ fun hQ => right_cons hne (huses hQ)
    · intro _
      rw [wp_bind, wp_modify, wp_bind]
      refine (wp_endRequest (by exact hq)).mpr ?_
      exact hend _ _ _ huses

/-- **`seek_interrupt`**: what it takes for the end of a seek is one. -/
theorem Base.seekInterrupt (h : Base P Q s) {a : Reply} {junk : Bool} (hcall : s.calling = false)
    (htimers : s.timers = []) (hq : s.queue = r :: q)
    (harrived : P → ∀ d ∈ a.arrived,
      s.moving s.currentDrive = none ∧ s.heads s.currentDrive = s.seekTrack)
    (hfew : Q → SeekBad (s.sense a).1 (s.sense a).2.replyBuffer s.seekTrack →
      r.errors < maxErrors) :
    wp (seekInterrupt M a junk) (fun _ => Inv P Q) (Stopped Q) s := by
  obtain ⟨outs, fdc, reset, buffer, hsense, hfdc, htwo⟩ := sense_cases h.fdc a
  have hbase : Base P Q { s with
      outs := outs
      fdc := fdc
      reset := reset
      replyBuffer := buffer } :=
    ⟨hfdc, h.drive, h.seekTrack, h.command, h.still, h.programmed, h.uses⟩
  have hne : s.queue ≠ [] := by
    rw [hq]
    exact List.cons_ne_nil _ _
  rw [Floppy.seekInterrupt, wp_bind, wp_modify, wp_bind, wp_modifyGet, wp_bind, wp_get, wp_ite]
  constructor
  · intro hbad
    have htrack : (s.sense a).2.seekTrack = s.seekTrack := by rw [hsense]
    have hfew' := fun hQ => hfew hQ (by
      rw [← htrack]
      exact hbad)
    change wp _ _ _ (s.sense a).2
    rw [hsense]
    exact hbase.failed htimers hq hfew'
  · intro hgood
    obtain ⟨hn, hgood⟩ := not_or.mp hgood
    obtain ⟨hst0, hst1⟩ := not_or.mp hgood
    obtain ⟨st0, pcn, rfl, hbuf0, hbuf1⟩ := htwo (not_not.mp hn)
    change ¬(s.sense _).2.st0 &&& 0xF8 ≠ 0x20 at hst0
    change ¬(s.sense _).2.st1 ≠ (s.sense _).2.seekTrack at hst1
    change wp _ _ _ (s.sense _).2
    rw [hsense] at hst0 hst1 ⊢
    have hst0 : st0 &&& 0xF8 = 0x20 := hbuf0 ▸ not_not.mp hst0
    -- the controller says that it is there
    have hlow : st0 &&& 0xE0 = 0x20 := by
      rw [show (0xE0 : ℕ) = 0xF8 &&& 0xE0 from rfl, ← Nat.and_assoc, hst0]
      rfl
    have harr : (st0 % 4, pcn) ∈ (Reply.mk [st0, pcn] true).arrived := if_pos ⟨rfl, hlow⟩
    rw [wp_bind, wp_modify]
    refine Base.setupRwFloppy
      ⟨hfdc, h.drive, h.seekTrack, h.command, h.still, h.programmed, h.uses⟩ hcall htimers hne
      (fun hp => (harrived hp _ harr).1) fun hp => ⟨(harrived hp _ harr).2, not_not.mp hst1⟩

/-- **`recal_interrupt`**: what it takes for the end of a recalibration is one. -/
theorem Base.recalInterrupt (h : Base P Q s) {a : Reply} (hdo : s.doFloppy = none)
    (htimers : s.timers = [])
    (hsettled : P → RecalGood (s.sense a).1 (s.sense a).2.replyBuffer → s.Settled) :
    wp (recalInterrupt a) (fun _ => Inv P Q) (Stopped Q) s := by
  obtain ⟨outs, fdc, reset, buffer, hsense, hfdc, -⟩ := sense_cases h.fdc a
  rw [Floppy.recalInterrupt, wp_bind, wp_modify, wp_bind, wp_modifyGet, wp_bind, wp_get, wp_ite]
  constructor
  · intro _
    rw [wp_bind, wp_modify]
    change Inv P Q { (s.sense a).2 with reset := true, calling := true }
    rw [hsense]
    exact ⟨⟨fun hf => Bool.noConfusion hf, h.drive, h.seekTrack, h.command, h.still, h.programmed,
      h.uses⟩, .calling rfl htimers (Or.inl rfl)⟩
  · intro hgood
    have hset := fun hp => hsettled hp hgood
    rw [wp_bind, wp_modify]
    change Inv P Q { (s.sense a).2 with recalibrate := false, calling := true }
    rw [hsense]
    exact ⟨⟨hfdc, h.drive, h.seekTrack, h.command, h.still, h.programmed, h.uses⟩,
      .calling rfl htimers (Or.inr (Or.inr ⟨hdo, fun hp => ⟨(hset hp).still, (hset hp).known⟩⟩))⟩

/-- **`reset_interrupt`** -/
theorem Base.resetInterrupt (h : Base P Q s) {a : Reply} (htimers : s.timers = [])
    (hrecal : s.recalibrate = true) :
    wp (resetInterrupt a) (fun _ => Inv P Q) (Stopped Q) s := by
  obtain ⟨outs, fdc, reset, buffer, hsense, hfdc, -⟩ := sense_cases h.fdc a
  rw [Floppy.resetInterrupt, wp_bind, wp_modify, wp_bind, wp_modifyGet, wp_bind, wp_modify]
  change Inv P Q ((fun u : State => { u with calling := true })
    ((s.sense a).2.outputBytes [fdSpecify, ((s.sense a).2.curSpec1 % 256).toNat, 6]))
  rw [hsense]
  obtain ⟨outs', fdc', hsent⟩ | ⟨hreset, outs', hsent⟩ := specify_sent (s := { s with
    outs := outs
    fdc := fdc
    reset := reset
    replyBuffer := buffer }) hfdc (s.curSpec1 % 256).toNat 6
  · rw [hsent]
    exact ⟨⟨fun hf => Bool.noConfusion hf, h.drive, h.seekTrack, h.command, h.still, h.programmed,
      h.uses⟩, .calling rfl htimers (Or.inl rfl)⟩
  · rw [hsent]
    exact ⟨⟨fun _ => rfl, h.drive, h.seekTrack, h.command, h.still, h.programmed, h.uses⟩,
      .calling rfl htimers (Or.inr (Or.inl hrecal))⟩

/-- **`unexpected_floppy_interrupt`** moves nothing and waits for nothing else. -/
theorem unexpectedFloppyInterrupt_sets (h : Base P Q s) {a : Reply} {E : Fault → State → Prop} :
    wp (unexpectedFloppyInterrupt a) (fun _ t => ∃ outs fdc reset buffer recalibrate,
      t = { s with
        outs := outs
        fdc := fdc
        reset := reset
        replyBuffer := buffer
        recalibrate := recalibrate } ∧ (reset = false → fdc = [])) E s := by
  obtain ⟨outs, fdc, reset, buffer, hsense, hfdc, -⟩ := sense_cases h.fdc a
  rw [Floppy.unexpectedFloppyInterrupt, wp_bind, wp_modify, wp_bind, wp_modifyGet, wp_bind, wp_get,
    wp_ite, wp_modify, wp_modify]
  constructor
  · intro _
    refine ⟨outs, fdc, true, buffer, s.recalibrate, ?_, fun hf => Bool.noConfusion hf⟩
    change { (s.sense a).2 with reset := true } = _
    rw [hsense]
  · intro _
    refine ⟨outs, fdc, reset, buffer, true, ?_, hfdc⟩
    change { (s.sense a).2 with recalibrate := true } = _
    rw [hsense]

/-! ### Steps -/

/-- With an interrupt a movement may have ended. -/
theorem settle_cases (s : State) (ended : Option (ℕ × Bool)) : ∃ moving heads,
    s.settle ended = { s with moving := moving, heads := heads } ∧
      (∀ d, s.moving d = none → moving d = none ∧ heads d = s.heads d) ∧
      ∀ d c, ended = some (d, true) → s.moving d = some c → moving d = none ∧ heads d = c := by
  rcases ended with _ | ⟨d, completed⟩
  · refine ⟨s.moving, s.heads, rfl, fun d hd => ⟨hd, rfl⟩, fun d c he => ?_⟩
    cases he
  refine ⟨_, _, rfl, fun e he => ⟨?_, ?_⟩, ?_⟩
  · by_cases hde : e = d
    · rw [hde, Function.update_self]
    · rw [Function.update_of_ne hde, he]
  · rcases completed with _ | _
    · rfl
    rcases hmoving : s.moving d with _ | c
    · rfl
    · refine Function.update_of_ne (fun hde => ?_) _ _
      rw [← hde, he] at hmoving
      cases hmoving
  · rintro e c he hmoving
    obtain ⟨rfl, rfl⟩ := Prod.mk.inj (Option.some.inj he)
    rw [hmoving]
    exact ⟨Function.update_self _ _ _, Function.update_self _ _ _⟩

/-- The interrupt makes `bad_flp_intr` be called. -/
def State.Fails (s : State) (a : Reply) : Prop :=
  (s.doFloppy = some .rwInterrupt ∧ RwBad (s.result a).1 (s.result a).2.replyBuffer ∧
    (s.result a).2.replyBuffer.getD 1 0 &&& 0x02 = 0) ∨
  (s.doFloppy = some .seekInterrupt ∧
    SeekBad (s.sense a).1 (s.sense a).2.replyBuffer s.seekTrack)

/-- **`recal_interrupt` is mistaken**: it takes an answer for the end of a recalibration that
does not say so. -/
def State.Mistaken (s : State) (a : Reply) : Prop :=
  s.doFloppy = some .recalInterrupt ∧ a.arrived = none ∧
    RecalGood (s.sense a).1 (s.sense a).2.replyBuffer

/-- **A request comes too early**: the queue is empty, but `recal_interrupt` is still to come. -/
def State.Hasty (s : State) : Event → Prop
  | .request _ _ => s.queue = [] ∧ s.doFloppy = some .recalInterrupt
  | _ => False

/-- **The driver is misled** about the head. -/
def State.Misled (M : Image) (s : State) : Event → Prop
  | .doFdRequest _ _ => s.Astray M
  | .interrupt _ a outs _ => { s with outs := outs }.Mistaken a
  | _ => False

/-- **A request fails for the last time.** -/
def State.Worn (s : State) : Event → Prop
  | .interrupt _ a outs _ =>
    { s with outs := outs }.Fails a ∧ ∃ r ∈ s.queue.head?, maxErrors ≤ r.errors
  | _ => False

/-- A request is added. -/
theorem Inv.addRequest (h : Inv P Q s) {r : Request} {behind : ℕ} (hcall : s.calling = false)
    (hhasty : ¬(s.queue = [] ∧ s.doFloppy = some .recalInterrupt)) :
    wp (addRequest r behind) (fun _ => Inv P Q) (Stopped Q) s := by
  rw [Floppy.addRequest, wp_modify]
  rcases hq : s.queue with _ | ⟨e, q⟩
  · refine ⟨⟨h.fdc, h.drive, h.seekTrack, h.command, h.still, h.programmed, h.uses⟩, ?_⟩
    rcases h.phase with ⟨-, hdo, htimers, -, hhead⟩ | ⟨_, -, -, -, hne, -⟩ | ⟨-, -, -, hne, -⟩ |
      ⟨-, -, -, hne, -⟩ | ⟨-, hdo, -, -⟩ | ⟨-, -, htimers, hrecal⟩ | ⟨hc, -, -⟩
    · exact .calling rfl htimers (Or.inr (Or.inr
        ⟨hdo, fun hp => ⟨(hhead hp).still, (hhead hp).known⟩⟩))
    · exact absurd hq hne
    · exact absurd hq hne
    · exact absurd hq hne
    · exact absurd ⟨hq, hdo⟩ hhasty
    · exact .calling rfl htimers (Or.inr (Or.inl hrecal))
    · exact absurd (hcall.symm.trans hc) Bool.noConfusion
  · have hne : e :: (q.take behind ++ r :: q.drop behind) ≠ [] := List.cons_ne_nil _ _
    refine ⟨⟨h.fdc, h.drive, h.seekTrack, h.command, h.still, h.programmed, h.uses⟩, ?_⟩
    rcases h.phase with ⟨-, -, -, hnil, -⟩ | ⟨t, hc, hdo, htimers, -, hhead⟩ |
      ⟨hc, hdo, htimers, -, hhead⟩ | ⟨hc, hdo, htimers, -, hhead⟩ | ⟨hc, hdo, htimers, hhead⟩ |
      ⟨hc, hdo, htimers, hrecal⟩ | ⟨hc, -, -⟩
    · exact absurd (hnil.symm.trans hq) (List.cons_ne_nil _ _).symm
    · exact .timer t hc hdo htimers hne fun hp => ⟨(hhead hp).still, (hhead hp).aimed⟩
    · exact .seeking hc hdo htimers hne hhead
    · exact .transferring hc hdo htimers hne fun hp => ⟨(hhead hp).still, (hhead hp).known⟩
    · exact .recalibrating hc hdo htimers hhead
    · exact .resetting hc hdo htimers hrecal
    · exact absurd (hcall.symm.trans hc) Bool.noConfusion

/-- A timer is up. -/
theorem Inv.timer (h : Inv P Q s) {t : Timer} {outs : List Bool} (hcall : s.calling = false)
    (ht : t ∈ s.timers) :
    wp (t.run M) (fun _ => Inv P Q) (Stopped Q)
      { s with outs := outs, timers := s.timers.erase t } := by
  have hbase : Base P Q { s with outs := outs, timers := s.timers.erase t } :=
    ⟨h.fdc, h.drive, h.seekTrack, h.command, h.still, h.programmed, h.uses⟩
  have hnone : ∀ {l : List Timer}, s.timers = l → l = [] → False := by
    rintro l hl rfl
    rw [hl] at ht
    cases ht
  rcases h.phase with ⟨-, -, htimers, -, -⟩ | ⟨t', hc, hdo, htimers, hne, hhead⟩ |
    ⟨-, -, htimers, -, -⟩ | ⟨-, -, htimers, -, -⟩ | ⟨-, -, htimers, -⟩ | ⟨-, -, htimers, -⟩ |
    ⟨hc, -, -⟩
  · exact (hnone htimers rfl).elim
  · obtain rfl : t = t' := by
      rw [htimers] at ht
      exact List.mem_singleton.mp ht
    have herase : s.timers.erase t = [] := by
      rw [htimers]
      exact List.erase_cons_head ..
    cases t with
    | floppyOnInterrupt =>
      exact hbase.floppyOnInterrupt hc hdo herase hne fun hp => ⟨(hhead hp).still, (hhead hp).aimed⟩
    | transfer =>
      exact hbase.transfer hc herase hne fun hp => ⟨(hhead hp).still, (hhead hp).aimed⟩
  · exact (hnone htimers rfl).elim
  · exact (hnone htimers rfl).elim
  · exact (hnone htimers rfl).elim
  · exact (hnone htimers rfl).elim
  · exact absurd (hcall.symm.trans hc) Bool.noConfusion

/-- **An interrupt** -/
theorem Inv.interrupt (h : Inv P Q s) {ended : Option (ℕ × Bool)} {a : Reply} {outs : List Bool}
    {junk : Bool} (hcall : s.calling = false) (hdue : s.Due ended a)
    (hmistaken : P → ¬({ s with outs := outs } : State).Mistaken a)
    (hworn : Q → ¬(({ s with outs := outs } : State).Fails a ∧
      ∃ r ∈ s.queue.head?, maxErrors ≤ r.errors)) :
    wp (floppyInterrupt M a junk) (fun _ => Inv P Q) (Stopped Q)
      { s.settle ended with outs := outs } := by
  obtain ⟨moving, heads, hsettle, hstays, hmoves⟩ := settle_cases s ended
  -- a seek of which the controller says that it has ended, has
  have harrived : P → s.doFloppy ≠ some .rwInterrupt → ∀ c, s.moving s.currentDrive = some c →
      ∀ d ∈ a.arrived, moving s.currentDrive = none ∧ heads s.currentDrive = c := by
    intro hp hdo c hc d hd
    obtain ⟨hended, hto⟩ := hdue hdo d hd
    by_cases hdrive : d.1 = s.currentDrive
    · exact hmoves s.currentDrive c (hdrive ▸ hended) hc
    · rw [h.still hp d.1 hdrive] at hto
      cases hto
  rw [hsettle]
  generalize hu : ({ s with
    moving := moving
    heads := heads
    outs := outs
    doFloppy := none } : State) = u
  have hbase : Base P Q u := by
    subst hu
    exact ⟨h.fdc, h.drive, h.seekTrack, h.command, fun hp d hd => (hstays d (h.still hp d hd)).1,
      h.programmed, h.uses⟩
  have hsense := sense_congr (s := u) (t := { s with outs := outs }) (by rw [← hu]) (by rw [← hu])
    (by rw [← hu]) a
  have hresult := result_congr (s := u) (t := { s with outs := outs }) (by rw [← hu])
    (by rw [← hu]) a
  have hsettled : P → s.Settled → u.Settled := by
    subst hu
    intro hp hs
    exact ⟨(hstays _ hs.still).1, hs.known.imp_left (hstays _ hs.still).2.trans⟩
  have hfew : ∀ {r q}, Q → s.queue = r :: q → ({ s with outs := outs } : State).Fails a →
      r.errors < maxErrors := by
    intro r q hQ hq hfails
    by_contra hmany
    exact hworn hQ ⟨hfails, r, by rw [hq]; rfl, Nat.le_of_not_lt hmany⟩
  rw [floppyInterrupt, wp_bind, wp_get, wp_bind, wp_set]
  change wp (handle M a junk s.doFloppy) _ _ ({ s with
      moving := moving
      heads := heads
      outs := outs
      doFloppy := none } : State)
  rw [hu]
  rcases h.phase with ⟨-, hdo, htimers, hnil, hhead⟩ | ⟨t, -, hdo, htimers, hne, hhead⟩ |
    ⟨-, hdo, htimers, hne, hhead⟩ | ⟨-, hdo, htimers, hne, hhead⟩ | ⟨-, hdo, htimers, hhead⟩ |
    ⟨-, hdo, htimers, hrecal⟩ | ⟨hc, -, -⟩
  · -- idle
    rw [hdo]
    refine wp_post (unexpectedFloppyInterrupt_sets hbase) ?_
    rintro _ t ⟨outs', fdc, reset, buffer, recalibrate, rfl, hfdc⟩
    subst hu
    have hset := fun hp => hsettled hp (hhead hp)
    exact ⟨⟨hfdc, hbase.drive, hbase.seekTrack, hbase.command, hbase.still, hbase.programmed,
      hbase.uses⟩, .idle hcall rfl htimers hnil fun hp => ⟨(hset hp).still, (hset hp).known⟩⟩
  · -- a timer is to come
    rw [hdo]
    refine wp_post (unexpectedFloppyInterrupt_sets hbase) ?_
    rintro _ u' ⟨outs', fdc, reset, buffer, recalibrate, rfl, hfdc⟩
    subst hu
    refine ⟨⟨hfdc, hbase.drive, hbase.seekTrack, hbase.command, hbase.still, hbase.programmed,
      hbase.uses⟩, .timer t hcall rfl htimers hne fun hp => ?_⟩
    exact ⟨(hstays _ (hhead hp).still).1, (hhead hp).aimed.imp_right fun hat =>
      ⟨(hstays _ (hhead hp).still).2.trans hat.1, hat.2⟩⟩
  · -- after a seek
    obtain ⟨r, q, hq⟩ := List.exists_cons_of_ne_nil hne
    rw [hdo]
    refine hbase.seekInterrupt (q := q) (r := r) (by rw [← hu]; exact hcall)
      (by rw [← hu]; exact htimers) (by rw [← hu]; exact hq) (fun hp d hd => ?_) fun hQ hbad => ?_
    · subst hu
      exact harrived hp (by rw [hdo]; simp) _ (hhead hp) d hd
    · rw [hsense.1, hsense.2, show u.seekTrack = s.seekTrack by rw [← hu]] at hbad
      exact hfew hQ hq (Or.inr ⟨hdo, hbad⟩)
  · -- after a transfer
    obtain ⟨r, q, hq⟩ := List.exists_cons_of_ne_nil hne
    rw [hdo]
    refine hbase.rwInterrupt (q := q) (r := r) (by rw [← hu]) (by rw [← hu]; exact htimers)
      (by rw [← hu]; exact hq) (fun hp => hsettled hp (hhead hp)) fun hQ hbad hprot => ?_
    rw [hresult.1, hresult.2] at hbad
    rw [hresult.2] at hprot
    exact hfew hQ hq (Or.inl ⟨hdo, hbad, hprot⟩)
  · -- after a recalibration
    rw [hdo]
    refine hbase.recalInterrupt (by rw [← hu]) (by rw [← hu]; exact htimers) fun hp hgood => ?_
    rw [hsense.1, hsense.2] at hgood
    rcases harr : a.arrived with _ | d
    · exact absurd ⟨hdo, harr, hgood⟩ (hmistaken hp)
    · obtain ⟨hstill, hat⟩ := harrived hp (by rw [hdo]; simp) 0 (hhead hp).1 d harr
      subst hu
      exact ⟨hstill, Or.inl (hat.trans (hhead hp).2.symm)⟩
  · -- after a reset
    rw [hdo]
    exact hbase.resetInterrupt (by rw [← hu]; exact htimers) (by rw [← hu]; exact hrecal)
  · exact absurd (hcall.symm.trans hc) Bool.noConfusion

/-- **A step.** -/
theorem Inv.run (h : Inv P Q s) {ev : Event} (hen : s.Enabled ev) (hhasty : ¬s.Hasty ev)
    (hmisled : P → ¬s.Misled M ev) (hworn : Q → ¬s.Worn ev) :
    wp (ev.run M) (fun _ => Inv P Q) (Stopped Q) s := by
  cases ev with
  | request r behind => exact h.addRequest hen.1 hhasty
  | doFdRequest ticks outs =>
    rw [Event.run, wp_bind, wp_modify]
    exact h.doFdRequest hen hmisled
  | timer t outs =>
    rw [Event.run, wp_bind, wp_modify]
    exact h.timer hen.1 hen.2
  | interrupt ended a outs junk =>
    rw [Event.run, wp_bind, wp_modify]
    exact h.interrupt hen.1 hen.2 hmisled hworn

/-- Before the first request. -/
theorem State.Start.inv (h : s.Start) : Inv P Q s := by
  have hdrive : s.moving s.currentDrive = none := h.moving _
  constructor
  · constructor
    · exact fun _ => h.fdc
    · rw [h.currentDrive]
      decide
    · rw [h.seekTrack]
      decide
    · rw [h.command]
      rfl
    · exact fun _ d _ => h.moving d
    · rw [h.programmed]
      exact fun _ p hp => absurd hp List.not_mem_nil
    · rw [h.uses]
      exact fun _ u hu => absurd hu List.not_mem_nil
  · exact .idle h.calling h.doFloppy h.timers h.queue fun _ => ⟨hdrive, Or.inr h.currentTrack⟩

/-- **A step is fine**: no request comes too early, and it meets what `P` and `Q` ask for. -/
structure State.Fine (M : Image) (P Q : Prop) (s : State) (ev : Event) : Prop where
  hasty : ¬s.Hasty ev
  misled : P → ¬s.Misled M ev
  worn : Q → ¬s.Worn ev

/-- **A run of fine steps** keeps the invariant. -/
theorem Inv.of_logged {s₀ : State} {log : List (State × Event)} (h0 : s₀.Start)
    (h : Logged (Step M) s₀ log s) (hfine : ∀ p ∈ log, p.1.Fine M P Q p.2) : Inv P Q s := by
  refine h.inv (I := fun _ u => Inv P Q u) hfine h0.inv fun log u ev v hinv hf hstep => ?_
  have hv := wp_ok (hinv.run hstep.1 hf.hasty hf.misled hf.worn) hstep.2
  exact hv

/-! ### Runs that can be computed -/

instance (s : State) (ended : Option (ℕ × Bool)) (a : Reply) : Decidable (s.Due ended a) :=
  inferInstanceAs (Decidable (_ → _))

instance (s : State) : (ev : Event) → Decidable (s.Enabled ev)
  | .request _ _ => inferInstanceAs (Decidable (_ ∧ _))
  | .doFdRequest _ _ => inferInstanceAs (Decidable (_ = _))
  | .timer _ _ => inferInstanceAs (Decidable (_ ∧ _))
  | .interrupt _ _ _ _ => inferInstanceAs (Decidable (_ ∧ _))

/-- The state behind a step. -/
def State.next (M : Image) (s : State) (ev : Event) : Option State :=
  if s.Enabled ev then
    match ev.run M s with
    | .ok _ t => some t
    | .error _ _ => none
  else none

theorem step_of_next {ev : Event} (h : s.next M ev = some t) : Step M s ev t := by
  rw [State.next] at h
  split_ifs at h with hen
  refine ⟨hen, ?_⟩
  split at h
  · next u hrun =>
    obtain rfl := Option.some.inj h
    exact hrun
  · cases h

end Linux011.Floppy

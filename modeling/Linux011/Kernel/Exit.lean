import Linux011.Kernel.Family
import Linux011.Kernel.Process

/-!
# Exit

The table of `Linux011.Kernel.Process.Sys` is a family of tasks
(`Linux011.Kernel.Process.Sys.family`), and what the calls do to it are the abstract
operations of `Linux011.Kernel.Family`. Here are the two parts of `do_exit`: the loop over
the children is `adopt`, a task that has closed its files may `die`, and signals are
nothing at all. The father of a task that exits is in the table, since
`Linux011.Kernel.Family.Ok` says that he lives; so `tell_father` finds him.
-/

namespace Linux011.Kernel.Process

open Family (Entry Role Keeps)

variable {s s' s₀ : Sys} {i j p q cur : ℕ} {pid code : ℤ}

/-! ### The family -/

/-- What a task may still do. -/
def Ctl.role : Ctl → Role
  | .main => .main
  | .idle => .idle
  | .exiting _ => .exiting
  | _ => .normal

namespace Sys

/-- A task of the family. -/
def entry (s : Sys) (p : ℕ) : Entry where
  page := p
  pid := (s.proc p).pid
  father := (s.proc p).father
  zombie := (s.proc p).state == .zombie
  role := (s.ctl p).role
  birth := s.birth p

/-- **The tasks of the table.** -/
def family (s : Sys) : Family where
  slot i := (s.task i).map s.entry
  lastPid := s.lastPid
  births := s.births
  released := s.released

@[simp] theorem entry_setCtl_self {c : Ctl} :
    (s.setCtl p c).entry p = { s.entry p with role := c.role } := by
  unfold entry setCtl
  dsimp only
  rw [Function.update_self]

theorem entry_setCtl_of_ne {c : Ctl} (h : q ≠ p) : (s.setCtl p c).entry q = s.entry q := by
  unfold entry setCtl
  dsimp only
  rw [Function.update_of_ne h]

theorem entry_setProc_of_ne {f : Task → Task} (h : q ≠ p) :
    (s.setProc p f).entry q = s.entry q := by
  unfold entry
  rw [proc_setProc_of_ne _ h]
  rfl

theorem family_slot (h : s.task i = some p) : s.family.slot i = some (s.entry p) := by
  rw [family]
  dsimp only
  rw [h]
  rfl

theorem family_slot_none (h : s.task i = none) : s.family.slot i = none := by
  rw [family]
  dsimp only
  rw [h]
  rfl

theorem task_of_family {e : Entry} (h : s.family.slot i = some e) :
    s.task i = some e.page ∧ e = s.entry e.page := by
  obtain ⟨p, hp, rfl⟩ := Option.map_eq_some_iff.mp h
  exact ⟨hp, rfl⟩

/-- Families are compared task by task. -/
theorem family_congr (ht : s'.task = s.task)
    (he : ∀ i p, s.task i = some p → s'.entry p = s.entry p) (hl : s'.lastPid = s.lastPid)
    (hb : s'.births = s.births) (hr : s'.released = s.released) :
    s'.family = s.family := by
  unfold family
  rw [ht, hl, hb, hr]
  congr 1
  funext i
  cases hp : s.task i with
  | none => rfl
  | some p => exact congrArg some (he i p hp)

end Sys

/-- **The invariant**: the tasks are a family, and nothing has gone wrong. -/
structure Inv (s : Sys) : Prop where
  ok : s.family.Ok
  console : s.console = []

/-- A page is in one slot. -/
theorem Inv.slot_eq (h : Inv s) (hi : s.task i = some p) (hj : s.task j = some p) : i = j :=
  h.ok.page i j _ _ (Sys.family_slot hi) (Sys.family_slot hj) rfl

theorem Inv.lt (h : Inv s) (hi : s.task i = some p) : i < 64 := h.ok.lt i _ (Sys.family_slot hi)

/-- A change of one task. -/
theorem Sys.family_put (h : ∀ j, s.task j = some p → j = i) (hp : s.task i = some p)
    (ht : s'.task = s.task) (he : ∀ q, q ≠ p → s'.entry q = s.entry q) (hl : s'.lastPid = s.lastPid)
    (hb : s'.births = s.births) (hr : s'.released = s.released) :
    s'.family = s.family.put i (s'.entry p) := by
  unfold Sys.family Family.put
  rw [ht, hl, hb, hr]
  congr 1
  funext j
  by_cases hj : j = i
  · subst hj
    rw [hp, Function.update_self]
    rfl
  · rw [Function.update_of_ne hj]
    change (s.task j).map s'.entry = (s.task j).map s.entry
    cases hq : s.task j with
    | none => rfl
    | some q =>
      refine congrArg some (he q ?_)
      rintro rfl
      exact hj (h j hq)

/-! ### Signals -/

/-- **Nothing has changed** but fields the family does not look at. -/
structure Quiet (s s' : Sys) : Prop where
  task : s'.task = s.task
  ctl : s'.ctl = s.ctl
  lastPid : s'.lastPid = s.lastPid
  births : s'.births = s.births
  birth : s'.birth = s.birth
  released : s'.released = s.released
  console : s'.console = s.console
  state : ∀ p, (s'.proc p).state = (s.proc p).state
  pid : ∀ p, (s'.proc p).pid = (s.proc p).pid
  father : ∀ p, (s'.proc p).father = (s.proc p).father

theorem Quiet.refl (s : Sys) : Quiet s s :=
  ⟨rfl, rfl, rfl, rfl, rfl, rfl, rfl, fun _ => rfl, fun _ => rfl, fun _ => rfl⟩

theorem Quiet.entry (h : Quiet s s') (p : ℕ) : s'.entry p = s.entry p := by
  unfold Sys.entry
  rw [h.pid, h.father, h.state, h.ctl, h.birth]

theorem Quiet.family (h : Quiet s s') : s'.family = s.family :=
  Sys.family_congr h.task (fun _ p _ => h.entry p) h.lastPid h.births h.released

theorem Quiet.inv (h : Quiet s s') (hi : Inv s) : Inv s' :=
  ⟨h.family ▸ hi.ok, h.console.trans hi.console⟩

/-- A field the family does not look at. -/
theorem Quiet.setProc {f : Task → Task} (h : Quiet s₀ s)
    (hst : (f (s.proc p)).state = (s.proc p).state) (hpid : (f (s.proc p)).pid = (s.proc p).pid)
    (hfa : (f (s.proc p)).father = (s.proc p).father) : Quiet s₀ (s.setProc p f) := by
  have hproc : ∀ {α : Type} (g : Task → α), g (f (s.proc p)) = g (s.proc p) →
      ∀ q, g ((s.setProc p f).proc q) = g (s.proc q) := by
    intro α g hg q
    by_cases hq : q = p
    · rw [hq, Sys.proc_setProc_self, hg]
    · rw [Sys.proc_setProc_of_ne s hq]
  exact ⟨h.task, h.ctl, h.lastPid, h.births, h.birth, h.released, h.console,
    fun q => (hproc Task.state hst q).trans (h.state q),
    fun q => (hproc Task.pid hpid q).trans (h.pid q),
    fun q => (hproc Task.father hfa q).trans (h.father q)⟩

/-- A signal. -/
theorem Quiet.signal {w : Task → BitVec 32} (h : Quiet s₀ s) (p : ℕ) :
    Quiet s₀ (s.setProc p fun t => { t with signal := w t }) := h.setProc rfl rfl rfl

/-- No way to stop the machine. -/
abbrev NoHalt : Halt → Sys → Prop := fun _ _ => False

theorem wp_sendSig (sig : ℕ) (p : Option ℕ) (h : Quiet s₀ s) :
    wp (sendSig sig p) (fun _ => Quiet s₀) NoHalt s := by
  unfold sendSig
  cases p with
  | none => exact h
  | some p =>
    refine wp_ite.mpr ⟨fun _ => h, fun _ => ?_⟩
    rw [wp_bind, wp_modify, wp_pure]
    exact h.signal p

theorem wp_killSession (cur : ℕ) (h : Quiet s₀ s) :
    wp (killSession cur) (fun _ => Quiet s₀) NoHalt s := by
  unfold killSession
  refine wp_forFrom (fun _ => Quiet s₀) h fun i s _ _ h => ?_
  rw [wp_bind, wp_get]
  cases s.task (63 - i) with
  | none => exact h
  | some p => exact wp_ite.mpr ⟨fun _ => h.signal p, fun _ => h⟩

/-! ### Exit -/

/-- **`tell_father`** finds the father. -/
theorem wp_tellFather (hpid : pid ≠ 0) (hlt : i < 64) (hp : s.task i = some p)
    (hf : (s.proc p).pid = pid) : wp (tellFather cur pid) (fun _ s' => Quiet s s') NoHalt s := by
  unfold tellFather
  rw [if_pos hpid, wp_bind]
  refine wp_post (wp_forUntil (fun k s' => s' = s ∧ k ≤ i) (fun _ s' => Quiet s s') ⟨rfl, by omega⟩
    ?_) ?_
  · rintro k s' - hk ⟨rfl, hki⟩
    rw [wp_bind, wp_get]
    by_cases hik : k = i
    · subst hik
      rw [hp]
      dsimp only
      rw [if_neg (by rw [hf]; simp), wp_bind, wp_modify, wp_pure]
      exact (Quiet.refl _).signal p
    · cases hq : s'.task k with
      | none => exact ⟨rfl, by omega⟩
      | some q =>
        dsimp only
        split
        · exact ⟨rfl, by omega⟩
        · exact (Quiet.refl _).signal q
  · rintro (_ | _) s' hs'
    · have := hs'.2
      omega
    · exact hs'

/-- The loop of `reparent`, after the slots below `i`. -/
structure Adopted (cur i : ℕ) (s s' : Sys) : Prop where
  task : s'.task = s.task
  ctl : s'.ctl = s.ctl
  lastPid : s'.lastPid = s.lastPid
  births : s'.births = s.births
  birth : s'.birth = s.birth
  released : s'.released = s.released
  console : s'.console = s.console
  state : ∀ p, (s'.proc p).state = (s.proc p).state
  pid : ∀ p, (s'.proc p).pid = (s.proc p).pid
  father : ∀ j p, s.task j = some p → (s'.proc p).father =
    if j < i ∧ (s.proc p).father = (s.proc cur).pid then 1 else (s.proc p).father

theorem Adopted.quiet {s'' : Sys} (h : Adopted cur i s s') (hq : Quiet s' s'') :
    Adopted cur i s s'' :=
  ⟨hq.task.trans h.task, hq.ctl.trans h.ctl, hq.lastPid.trans h.lastPid, hq.births.trans h.births,
    hq.birth.trans h.birth, hq.released.trans h.released, hq.console.trans h.console,
    fun p => (hq.state p).trans (h.state p), fun p => (hq.pid p).trans (h.pid p),
    fun j p hj => (hq.father p).trans (h.father j p hj)⟩

/-- A slot where there is nothing to do. -/
theorem Adopted.skip (h : Adopted cur i s s')
    (hno : ∀ p, s.task i = some p → (s.proc p).father ≠ (s.proc cur).pid) :
    Adopted cur (i + 1) s s' := by
  refine { h with father := fun j p hj => ?_ }
  rw [h.father j p hj]
  by_cases hji : j = i
  · subst hji
    rw [if_neg (by omega), if_neg fun hc => hno p hj hc.2]
  · have : j < i + 1 ↔ j < i := by omega
    simp only [this]

/-- A child. -/
theorem Adopted.child (h : Adopted cur i s s') (hi : Inv s) (hp : s.task i = some p)
    (hf : (s.proc p).father = (s.proc cur).pid) :
    Adopted cur (i + 1) s (s'.setProc p fun t => { t with father := 1 }) := by
  have hproc : ∀ q, q ≠ p → (s'.setProc p fun t => { t with father := 1 }).proc q = s'.proc q :=
    fun q hq => s'.proc_setProc_of_ne hq
  have hself : (s'.setProc p fun t => { t with father := 1 }).proc p =
      { s'.proc p with father := 1 } := s'.proc_setProc_self
  refine ⟨h.task, h.ctl, h.lastPid, h.births, h.birth, h.released, h.console, fun q => ?_,
    fun q => ?_, fun j q hj => ?_⟩
  · rw [← h.state q]
    by_cases hq : q = p
    · rw [hq, hself]
    · rw [hproc q hq]
  · rw [← h.pid q]
    by_cases hq : q = p
    · rw [hq, hself]
    · rw [hproc q hq]
  · by_cases hq : q = p
    · subst hq
      obtain rfl := hi.slot_eq hj hp
      rw [hself, if_pos ⟨by omega, hf⟩]
    · have hji : j ≠ i := by
        rintro rfl
        rw [hp] at hj
        exact hq (Option.some.inj hj).symm
      have : j < i + 1 ↔ j < i := by omega
      simp only [hproc q hq, h.father j q hj, this]

/-- **The loop over the children** gives them to init. -/
theorem wp_reparent (hi : Inv s) :
    wp (reparent cur) (fun _ s' => Adopted cur 64 s s') NoHalt s := by
  unfold reparent
  refine wp_post (wp_forFrom (fun i s' => Adopted cur i s s') ?_ ?_) fun _ _ h => by simpa using h
  · exact ⟨rfl, rfl, rfl, rfl, rfl, rfl, rfl, fun _ => rfl, fun _ => rfl,
      fun j p _ => by rw [if_neg (by omega)]⟩
  · rintro i s' - - h
    rw [wp_bind, wp_get, h.task]
    cases hp : s.task i with
    | none => exact h.skip fun p hp' => by rw [hp] at hp'; cases hp'
    | some p =>
      dsimp only
      have hfa : (s'.proc p).father = (s.proc p).father := by
        rw [h.father i p hp, if_neg (by omega)]
      rw [h.pid, hfa]
      split
      · next hf =>
        have hc := h.child hi hp hf
        rw [wp_bind, wp_modify]
        split
        · rw [wp_bind]
          exact wp_post (wp_sendSig sigchld _ (Quiet.refl _)) fun _ _ hq => hc.quiet hq
        · exact hc
      · next hf =>
        refine h.skip fun q hq => ?_
        rw [hp] at hq
        exact Option.some.inj hq ▸ hf

theorem Adopted.family (h : Adopted cur 64 s s') (hi : Inv s) :
    s'.family = s.family.adopt (s.proc cur).pid := by
  unfold Sys.family Family.adopt
  rw [h.task, h.lastPid, h.births, h.released]
  congr 1
  funext j
  change (s.task j).map s'.entry = ((s.task j).map s.entry).map _
  cases hp : s.task j with
  | none => rfl
  | some p =>
    change some (s'.entry p) = some (Family.adopted _ (s.entry p))
    unfold Sys.entry Family.adopted
    dsimp only
    have hlt : j < 64 ∧ (s.proc p).father = (s.proc cur).pid ↔
        (s.proc p).father = (s.proc cur).pid :=
      and_iff_right (hi.lt hp)
    simp only [h.state, h.pid, h.ctl, h.birth, h.father j p hp, hlt]

/-- **What a call leaves behind**: the invariant, and everybody who was there. -/
structure Stays (s s' : Sys) : Prop where
  inv : Inv s'
  keeps : Keeps s.family s'.family

theorem Stays.quiet (h : Stays s s') {s'' : Sys} (hq : Quiet s' s'') : Stays s s'' :=
  ⟨hq.inv h.inv, hq.family ▸ h.keeps⟩

theorem Stays.of_family (hi : Inv s) (hf : s'.family = s.family) (hc : s'.console = s.console) :
    Stays s s' :=
  ⟨⟨hf ▸ hi.ok, hc.trans hi.console⟩, hf ▸ Keeps.refl _⟩

theorem Stays.of_quiet (hi : Inv s) (hq : Quiet s s') : Stays s s' :=
  ⟨hq.inv hi, hq.family ▸ Keeps.refl _⟩

/-- The task goes on in a place where it may do the same. -/
theorem Sys.family_setCtl {c : Ctl} (hc : c.role = (s.ctl cur).role) :
    (s.setCtl cur c).family = s.family := by
  refine Sys.family_congr rfl (fun i p _ => ?_) rfl rfl rfl
  by_cases hp : p = cur
  · rw [hp, Sys.entry_setCtl_self, hc]
    rfl
  · rw [Sys.entry_setCtl_of_ne hp]

theorem Stays.setCtl (h : Stays s s') {c : Ctl} (hc : c.role = (s'.ctl cur).role) :
    Stays s (s'.setCtl cur c) := by
  have hf := Sys.family_setCtl hc
  exact ⟨⟨hf ▸ h.inv.ok, h.inv.console⟩, hf ▸ h.keeps⟩

/-- **`do_exit`**, as far as the files. -/
theorem wp_doExit (hi : Inv s) (hp : s.task i = some cur) (h2 : 2 ≤ i) :
    wp (doExit cur code) (fun _ s' => Stays s s') NoHalt s := by
  unfold doExit
  rw [wp_bind]
  refine wp_post (wp_reparent hi) fun _ s₁ h₁ => ?_
  rw [wp_modify]
  have hfam : (s₁.setCtl cur (.exiting code)).family = (s.family.adopt (s.proc cur).pid).put i
      { Family.adopted (s.proc cur).pid (s.entry cur) with role := .exiting } := by
    have hp₁ : s₁.task i = some cur := h₁.task ▸ hp
    have hent : Family.adopted (s.proc cur).pid (s.entry cur) = s₁.entry cur := by
      have := Sys.family_slot hp₁
      rw [h₁.family hi, Family.slot_adopt, Sys.family_slot hp] at this
      exact Option.some.inj this
    have hput : (s₁.setCtl cur (.exiting code)).family =
        s₁.family.put i ((s₁.setCtl cur (.exiting code)).entry cur) :=
      Sys.family_put (fun j hj => hi.slot_eq (h₁.task ▸ hj) hp) hp₁ rfl
        (fun q hq => Sys.entry_setCtl_of_ne hq) rfl rfl rfl
    rw [hput, Sys.entry_setCtl_self, h₁.family hi, hent]
    rfl
  have hc := Sys.family_slot hp
  refine ⟨⟨?_, h₁.console.trans hi.console⟩, ?_⟩
  · rw [hfam]
    exact hi.ok.leave hc h2
  · rw [hfam]
    refine (Keeps.adopt _ _).trans (.put (c := Family.adopted (s.proc cur).pid (s.entry cur)) ?_ rfl
      rfl id)
    rw [Family.slot_adopt, hc]
    rfl

/-- **`do_exit`**, from there on: the father is told. -/
theorem wp_finishExit (hi : Inv s) (hp : s.task i = some cur) (hc : s.ctl cur = .exiting code) :
    wp (finishExit cur code) (fun _ s' => Stays s s') NoHalt s := by
  have hslot := Sys.family_slot hp
  have hrole : (s.entry cur).role = .exiting := by
    change (s.ctl cur).role = _
    rw [hc]
    rfl
  have h2 := hi.ok.exiting hslot hrole
  obtain ⟨k, f, hk, hf, hpid, -⟩ := hi.ok.father i _ h2 hslot
  obtain ⟨hq, hfe⟩ := Sys.task_of_family hf
  have hpos := hi.ok.pos k f hf (by omega)
  have hlt := hi.ok.lt k f hf
  rw [hfe] at hpid hpos
  unfold finishExit
  rw [wp_bind, wp_get, wp_bind]
  refine wp_post (Q := fun _ => Quiet s) ?_ fun _ s₁ h₁ => ?_
  · exact wp_ite.mpr ⟨fun _ => wp_killSession cur (Quiet.refl s), fun _ => Quiet.refl s⟩
  rw [wp_bind, wp_modify, wp_bind, wp_get]
  obtain ⟨s₂, hs₂⟩ : ∃ s₂, s₁.setProc cur (fun t => { t with state := .zombie, exitCode := code }) =
    s₂ := ⟨_, rfl⟩
  have hself : s₂.proc cur = { s₁.proc cur with state := .zombie, exitCode := code } := by
    rw [← hs₂, Sys.proc_setProc_self]
  have hother : ∀ q, q ≠ cur → s₂.proc q = s₁.proc q := fun q hq => by
    rw [← hs₂, Sys.proc_setProc_of_ne _ hq]
  have hent : s₂.entry cur = { s.entry cur with zombie := true } := by
    rw [← h₁.entry]
    unfold Sys.entry
    rw [hself, ← hs₂]
    rfl
  have hfam : s₂.family = s.family.put i { s.entry cur with zombie := true } := by
    rw [← hent, ← h₁.family]
    refine Sys.family_put (fun j hj => hi.slot_eq (h₁.task ▸ hj) hp) (h₁.task ▸ hp) ?_
      (fun q hq => ?_) ?_ ?_ ?_
    · rw [← hs₂]
      rfl
    · rw [← hs₂, Sys.entry_setProc_of_ne hq]
    all_goals
      rw [← hs₂]
      rfl
  have hst : Stays s s₂ := by
    refine ⟨⟨?_, ?_⟩, ?_⟩
    · rw [hfam]
      exact hi.ok.die hslot hrole
    · rw [← hs₂]
      exact h₁.console.trans hi.console
    · rw [hfam]
      exact .put hslot rfl rfl fun _ => rfl
  rw [hs₂]
  refine wp_post (wp_tellFather (i := k) (p := f.page) ?_ hlt ?_ ?_) fun _ s' hq => hst.quiet hq
  · rw [hself]
    change (s₁.proc cur).father ≠ 0
    rw [h₁.father]
    change (s.proc f.page).pid = (s.proc cur).father at hpid
    change 1 ≤ (s.proc f.page).pid at hpos
    omega
  · rw [← hs₂]
    change s₁.task k = _
    rw [h₁.task, hq]
  · have hfc : (s₁.proc cur).father = (s₂.proc cur).father := by rw [hself]
    rw [← hfc, h₁.father]
    change (s.proc f.page).pid = (s.proc cur).father at hpid
    rw [← hpid, ← h₁.pid]
    by_cases hfc : f.page = cur
    · rw [hfc, hself]
    · rw [hother _ hfc]

end Linux011.Kernel.Process

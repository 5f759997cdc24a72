import Linux011.Kernel.Sched
import Linux011.Tty.Line

/-!
# The alarm of a reader

`tty_read` of `kernel/chr_drv/tty_io.c` and its time-out. With `VTIME`, and `VMIN` zero, the alarm
of the task is borrowed: it is set to the time-out, unless the alarm that the task has set itself
comes first. Between two reads of a line that is not canonical it is set once more, and at the end
it is put back.

One way out does not come to the end: the end-of-file character on a canonical line. There the
alarm stays what it is, and the task has one that it has never set, or none where it had set one
(`Linux011.Tty.Alarm.alarm_back_iff`).

Input, signals and new settings may come between any two operations on the queue, other readers
among them. `schedule` looks at the alarm of the task while it sleeps: in `sleep_if_empty`, and in
`put_fs_byte` on a page fault. For the record, it is kept whether the alarm went off since the last
look at the signals.
-/

namespace Linux011.Tty.Alarm

open Kernel.Sched (Task checkAlarm sigalrm)

/-! ### The call -/

/-- `struct termios` with `c_cc[VMIN]` and `c_cc[VTIME]`. -/
structure Modes extends Termios where
  vmin : Byte
  vtime : Byte

/-- **Where a call of `tty_read` is.** -/
inductive Place
  /-- The head of the loop. -/
  | loop
  /-- `sleep_if_empty(&tty->secondary)`. -/
  | asleep
  /-- `GETCH(tty->secondary,c)`. -/
  | getch
  /-- `put_fs_byte(c,b++)`. -/
  | store (c : Byte)
  | returned (r : ℤ)
  deriving DecidableEq

/-- **A call of `tty_read`**: its task, its terminal and its variables. -/
structure Call where
  task : Task
  jiffies : BitVec 32
  modes : Modes
  secondary : Queue
  place : Place
  oldalarm : BitVec 32
  time : BitVec 32
  minimum : ℕ
  flag : Bool
  nr : ℕ
  /-- `b-buf` -/
  got : ℕ
  /-- The alarm went off since the last look at the signals. -/
  late : Bool

namespace Call

variable (c : Call)

/-- `current->alarm = v` -/
def setAlarm (v : BitVec 32) : Call := { c with task := { c.task with alarm := v } }

/-- `!oldalarm || time+jiffies<oldalarm` -/
def sooner : Bool := c.oldalarm == 0#32 || (c.time + c.jiffies).slt c.oldalarm

/-- The end of `tty_read`. -/
def finish : Call :=
  { c.setAlarm c.oldalarm with
    place := .returned (if c.task.signal ≠ 0#32 ∧ c.got = 0 then -4 else c.got) }

/-- The head of the loop. -/
def head : Call :=
  if c.nr = 0 then c.finish
  else if c.flag ∧ c.task.signal &&& sigalrm ≠ 0#32 then
    { c with task := { c.task with signal := c.task.signal &&& ~~~sigalrm } }.finish
  else if c.task.signal ≠ 0#32 then c.finish
  else if c.secondary.Empty ∨
      (c.modes.icanon ∧ c.secondary.data = 0#32 ∧ 20 < c.secondary.left) then
    { c with place := .asleep }
  else { c with place := .getch, late := false }

/-- A character is taken; on a canonical line the end-of-file character ends the call. -/
def take : Call :=
  let b := c.secondary.front
  let q := c.secondary.getch
  let q := if Byte.is b c.modes.eof ∨ b = 10#8 then { q with data := q.data - 1#32 } else q
  if Byte.is b c.modes.eof ∧ c.modes.icanon then
    { c with secondary := q, place := .returned c.got }
  else { c with secondary := q, place := .store b }

/-- The alarm is set once more. -/
def rearm : Call :=
  if c.sooner then { c.setAlarm (c.time + c.jiffies) with flag := true }
  else { c.setAlarm c.oldalarm with flag := false }

/-- What comes behind the inner loop. -/
def behind : Call :=
  let c := if c.time ≠ 0#32 ∧ c.modes.icanon = false then c.rearm else c
  if c.modes.icanon then if c.got ≠ 0 then c.finish else { c with place := .loop }
  else if c.minimum ≤ c.got then c.finish
  else { c with place := .loop }

/-- The character is stored, and the inner loop goes on or ends. -/
def stored : Call :=
  let c := { c with nr := c.nr - 1, got := c.got + 1 }
  if c.nr ≠ 0 ∧ ¬c.secondary.Empty then { c with place := .getch } else c.behind

/-- **The code** up to the next place. -/
def exec : Call :=
  match c.place with
  | .loop => c.head
  | .asleep =>
    if c.task.signal = 0#32 ∧ c.secondary.Empty then c else { c with place := .loop }
  | .getch => c.take
  | .store _ => c.stored
  | .returned _ => c

/-- `schedule` is called while the task sleeps. -/
def schedule : Call :=
  { c with
    task := checkAlarm c.jiffies c.task
    late := c.late || (c.task.alarm != 0#32 && c.task.alarm.slt c.jiffies) }

end Call

/-- **What `tty_read` is called with.** -/
structure Entry where
  task : Task
  jiffies : BitVec 32
  modes : Modes
  secondary : Queue
  nr : ℕ

/-- `tty_read` up to its loop. -/
def Entry.call (e : Entry) : Call :=
  let c : Call :=
    { task := e.task
      jiffies := e.jiffies
      modes := e.modes
      secondary := e.secondary
      place := .loop
      oldalarm := e.task.alarm
      time := 10#32 * e.modes.vtime.setWidth 32
      minimum := e.modes.vmin.toNat
      flag := false
      nr := e.nr
      got := 0
      late := false }
  let c :=
    if c.time ≠ 0#32 ∧ c.minimum = 0 then
      let c := { c with minimum := 1 }
      if c.sooner then { c.setAlarm (c.time + c.jiffies) with flag := true } else c
    else c
  { c with minimum := min c.minimum c.nr }

/-- **A step**: the code goes on, or something happens in between. -/
inductive Step (c : Call) : Call → Prop
  | run (h : ∀ r, c.place ≠ .returned r) : Step c c.exec
  | interrupt (h : ∀ r, c.place ≠ .returned r) (signal jiffies : BitVec 32) (modes : Modes)
      (secondary : Queue) :
    Step c { c with
      task := { c.task with signal := c.task.signal ||| signal }
      jiffies := jiffies
      modes := modes
      secondary := secondary }
  | schedule (h : c.place = .asleep ∨ ∃ b, c.place = .store b) : Step c c.schedule

/-- A call that has returned makes no step. -/
theorem Step.place_ne {c c' : Call} (h : Step c c') (r : ℤ) : c.place ≠ .returned r := by
  cases h with
  | run h => exact h r
  | interrupt h signal jiffies modes secondary => exact h r
  | schedule h =>
    intro hr
    rcases h with hp | ⟨b, hp⟩
    · cases hp.symm.trans hr
    · cases hp.symm.trans hr

/-! ### The way out that does not put the alarm back -/

/-- **The end-of-file character comes**, and the alarm is not that of the task: it is the time-out,
or it has gone off. -/
def Call.Spoils (c : Call) : Prop :=
  c.place = .getch ∧ Byte.is c.secondary.front c.modes.eof ∧ c.modes.icanon = true ∧
    if c.late then c.oldalarm ≠ 0#32
    else c.flag = true ∧ (c.task.alarm ≠ 0#32 ∨ c.oldalarm ≠ 0#32)

/-- A step that does not leave there. -/
def Fine (c c' : Call) : Prop := Step c c' ∧ (c.Spoils → c'.place = .getch)

variable {c c' : Call} {r : ℤ}

/-! ### Whose alarm it is -/

/-- **The alarm is set**: it is the time-out, which comes before that of the task, or it is that of
the task. -/
def Call.Own (c : Call) : Prop :=
  if c.flag then c.oldalarm = 0#32 ∨ c.task.alarm.slt c.oldalarm = true
  else c.task.alarm = c.oldalarm

/-- An alarm has gone off, and its signal is pending. -/
structure GoneOff (alarm signal oldalarm : BitVec 32) (flag : Bool) : Prop where
  alarm : alarm = 0#32
  signal : signal &&& sigalrm ≠ 0#32
  old : flag = false → oldalarm ≠ 0#32

/-- **The alarm has gone off.** -/
def Call.Gone (c : Call) : Prop := GoneOff c.task.alarm c.task.signal c.oldalarm c.flag

/-- **What is known of the alarm** until the call returns. -/
structure Call.Inv (c : Call) : Prop where
  cases : c.Own ∨ c.Gone
  round : (c.place = .getch ∨ ∃ b, c.place = .store b) → if c.late then c.Gone else c.Own

theorem Call.Own.rearm (c : Call) : c.rearm.Own := by
  rw [Call.rearm]
  by_cases h : c.sooner = true
  · rw [if_pos h]
    change c.oldalarm = 0#32 ∨ (c.time + c.jiffies).slt c.oldalarm = true
    rw [Call.sooner, Bool.or_eq_true, beq_iff_eq] at h
    exact h
  · rw [if_neg h]
    exact (rfl : c.oldalarm = c.oldalarm)

/-! ### What a step does to it -/

/-- **What a step keeps**, and how it returns. -/
structure Call.Keeps (c c' : Call) : Prop where
  oldalarm : c'.oldalarm = c.oldalarm
  inv : (∀ r, c'.place ≠ .returned r) → c'.Inv
  back : ∀ r, c'.place = .returned r → (c'.task.alarm = c.oldalarm ↔ ¬c.Spoils)

theorem not_spoils (h : c.place ≠ .getch) : ¬c.Spoils := fun hs => h hs.1

/-- The end of `tty_read` puts the alarm back. -/
theorem Call.Keeps.finish (hp : c.place ≠ .getch) (h : c'.oldalarm = c.oldalarm) :
    c.Keeps c'.finish := by
  refine ⟨h, fun hr => absurd rfl (hr _), fun _ _ => iff_of_true ?_ (not_spoils hp)⟩
  exact h

/-- A step that goes on outside the inner loop. -/
theorem Call.Keeps.outside (h : c'.oldalarm = c.oldalarm) (hinv : c'.Own ∨ c'.Gone)
    (hp : c'.place = .loop ∨ c'.place = .asleep) : c.Keeps c' := by
  refine ⟨h, fun _ => ⟨hinv, fun hround => ?_⟩, fun r hr => ?_⟩
  · rcases hp with hp | hp
    · rw [hp] at hround
      simp at hround
    · rw [hp] at hround
      simp at hround
  · rcases hp with hp | hp
    · cases hp.symm.trans hr
    · cases hp.symm.trans hr

/-- A step that goes on inside the inner loop. -/
theorem Call.Keeps.inside (h : c'.oldalarm = c.oldalarm)
    (hinv : if c'.late then c'.Gone else c'.Own) (hp : ∀ r, c'.place ≠ .returned r) :
    c.Keeps c' := by
  refine ⟨h, fun _ => ⟨?_, fun _ => hinv⟩, fun r hr => absurd hr (hp r)⟩
  split_ifs at hinv with hlate
  · exact Or.inr hinv
  · exact Or.inl hinv

theorem Call.Keeps.head (h : c.Inv) (hp : c.place = .loop) : c.Keeps c.head := by
  have hp' : c.place ≠ .getch := by
    rw [hp]
    exact Place.noConfusion
  rw [Call.head]
  split_ifs with h0 h1 h2 h3
  · exact .finish hp' rfl
  · exact .finish hp' rfl
  · exact .finish hp' rfl
  · exact .outside rfl h.cases (Or.inr rfl)
  · -- no signal is pending, so the alarm has not gone off
    refine .inside rfl ?_ fun r => Place.noConfusion
    rcases h.cases with hown | hgone
    · exact hown
    · refine absurd ?_ hgone.signal
      rw [not_not.mp h2, BitVec.zero_and]

/-- Where the end-of-file character comes, the alarm tells whose it is. -/
theorem Call.Inv.alarm_eq (h : c.Inv) (hp : c.place = .getch) : c.task.alarm = c.oldalarm ↔
    ¬if c.late then c.oldalarm ≠ 0#32
      else c.flag = true ∧ (c.task.alarm ≠ 0#32 ∨ c.oldalarm ≠ 0#32) := by
  have hround := h.round (Or.inl hp)
  by_cases hlate : c.late = true
  · rw [if_pos hlate] at hround ⊢
    rw [hround.alarm, not_not]
    exact eq_comm
  rw [if_neg hlate] at hround ⊢
  rw [Call.Own] at hround
  by_cases hflag : c.flag = true
  · rw [if_pos hflag] at hround
    constructor
    · rintro heq ⟨-, hne⟩
      rw [heq] at hround hne
      rcases hround with h0 | hlt
      · exact hne.elim (fun h => h h0) fun h => h h0
      · simp [BitVec.slt] at hlt
    · intro hno
      have hboth : c.task.alarm = 0#32 ∧ c.oldalarm = 0#32 := by
        by_contra hne
        exact hno ⟨hflag, not_and_or.mp hne⟩
      rw [hboth.1, hboth.2]
  · rw [if_neg hflag] at hround
    exact iff_of_true hround fun h => hflag h.1

theorem Call.Keeps.take (h : c.Inv) (hp : c.place = .getch) : c.Keeps c.take := by
  rw [Call.take]
  by_cases hend : Byte.is c.secondary.front c.modes.eof ∧ c.modes.icanon = true
  · rw [if_pos hend]
    refine ⟨rfl, fun hr => absurd rfl (hr _), fun _ _ => (h.alarm_eq hp).trans (not_congr ?_)⟩
    exact ⟨fun hs => ⟨hp, hend.1, hend.2, hs⟩, fun hs => hs.2.2.2⟩
  · rw [if_neg hend]
    exact .inside rfl (h.round (Or.inl hp)) fun r => Place.noConfusion

theorem Call.Keeps.behind (hp : c.place ≠ .getch) (h : c'.oldalarm = c.oldalarm)
    (hinv : c'.Own ∨ c'.Gone) : c.Keeps c'.behind := by
  rw [Call.behind]
  have hrearm : c'.rearm.oldalarm = c'.oldalarm := by
    rw [Call.rearm]
    split_ifs
    · rfl
    · rfl
  have hnext : ∃ d : Call, (if c'.time ≠ 0#32 ∧ c'.modes.icanon = false then c'.rearm else c') = d ∧
      d.oldalarm = c.oldalarm ∧ (d.Own ∨ d.Gone) := by
    refine ⟨_, rfl, ?_⟩
    split_ifs
    · exact ⟨hrearm.trans h, Or.inl (.rearm c')⟩
    · exact ⟨h, hinv⟩
  obtain ⟨d, hd, hold, hinv'⟩ := hnext
  rw [hd]
  split_ifs
  · exact .finish hp hold
  · exact .outside hold hinv' (Or.inl rfl)
  · exact .finish hp hold
  · exact .outside hold hinv' (Or.inl rfl)

theorem Call.Keeps.stored {b : Byte} (h : c.Inv) (hp : c.place = .store b) : c.Keeps c.stored := by
  have hp' : c.place ≠ .getch := by
    rw [hp]
    exact Place.noConfusion
  have hround := h.round (Or.inr ⟨b, hp⟩)
  rw [Call.stored]
  dsimp only
  split_ifs
  · exact .inside rfl hround fun r => Place.noConfusion
  · exact .behind hp' rfl h.cases

theorem Call.Keeps.exec (h : c.Inv) (hp : ∀ r, c.place ≠ .returned r) : c.Keeps c.exec := by
  rw [Call.exec]
  split
  · next hplace => exact .head h hplace
  · next hplace =>
    split_ifs
    · exact .outside rfl h.cases (Or.inr hplace)
    · exact .outside rfl h.cases (Or.inl rfl)
  · next hplace => exact .take h hplace
  · next hplace => exact .stored h hplace
  · next r hplace => exact absurd hplace (hp r)

theorem and_sigalrm_or {signal : BitVec 32} (h : signal &&& sigalrm ≠ 0#32) (x : BitVec 32) :
    (signal ||| x) &&& sigalrm ≠ 0#32 := by
  intro h0
  rw [BitVec.and_or_distrib_right, BitVec.or_eq_zero_iff] at h0
  exact h h0.1

/-- What comes from outside does not touch the alarm. -/
theorem Call.Keeps.interrupt (h : c.Inv) (hp : ∀ r, c.place ≠ .returned r)
    (signal jiffies : BitVec 32) (modes : Modes) (secondary : Queue) : c.Keeps { c with
      task := { c.task with signal := c.task.signal ||| signal }
      jiffies := jiffies
      modes := modes
      secondary := secondary } := by
  have hgone : c.Gone → GoneOff c.task.alarm (c.task.signal ||| signal) c.oldalarm c.flag :=
    fun hg => ⟨hg.alarm, and_sigalrm_or hg.signal signal, hg.old⟩
  refine ⟨rfl, fun _ => ⟨h.cases.imp_right hgone, fun hround => ?_⟩,
    fun r hr => absurd hr (hp r)⟩
  have hround' := h.round hround
  by_cases hlate : c.late = true
  · rw [if_pos hlate] at hround'
    exact (if_pos hlate).symm ▸ hgone hround'
  · rw [if_neg hlate] at hround'
    exact (if_neg hlate).symm ▸ hround'

/-- The alarm goes off while the task sleeps, or it does not. -/
theorem Call.Keeps.schedule (h : c.Inv) (hp : ∀ r, c.place ≠ .returned r) : c.Keeps c.schedule := by
  rw [Call.schedule, checkAlarm]
  by_cases hoff : c.task.alarm ≠ 0#32 ∧ c.task.alarm.slt c.jiffies = true
  · have hlate : (c.late || (c.task.alarm != 0#32 && c.task.alarm.slt c.jiffies)) = true := by
      rw [hoff.2, Bool.and_true, bne_iff_ne.mpr hoff.1, Bool.or_true]
    rw [if_pos hoff, hlate]
    have hgone : GoneOff 0#32 (c.task.signal ||| sigalrm) c.oldalarm c.flag := by
      refine ⟨rfl, ?_, fun hflag => ?_⟩
      · rw [BitVec.or_comm]
        exact and_sigalrm_or (by decide) _
      · rcases h.cases with hown | hgone
        · rw [Call.Own, hflag] at hown
          exact hown ▸ hoff.1
        · exact absurd hgone.alarm hoff.1
    exact ⟨rfl, fun _ => ⟨Or.inr hgone, fun _ => hgone⟩, fun r hr => absurd hr (hp r)⟩
  · have hlate : (c.late || (c.task.alarm != 0#32 && c.task.alarm.slt c.jiffies)) = c.late := by
      have hno : (c.task.alarm != 0#32 && c.task.alarm.slt c.jiffies) = false := by
        rw [← Bool.not_eq_true, Bool.and_eq_true, bne_iff_ne]
        exact hoff
      rw [hno, Bool.or_false]
    rw [if_neg hoff, hlate]
    exact ⟨rfl, fun _ => h, fun r hr => absurd hr (hp r)⟩

/-- **One step.** -/
theorem Call.Keeps.step (h : c.Inv) (hs : Step c c') : c.Keeps c' := by
  have hp := hs.place_ne
  cases hs with
  | run _ => exact .exec h hp
  | interrupt _ signal jiffies modes secondary => exact .interrupt h hp _ _ _ _
  | schedule _ => exact .schedule h hp

/-! ### Runs -/

theorem Entry.oldalarm (e : Entry) : e.call.oldalarm = e.task.alarm := by
  rw [Entry.call]
  dsimp only
  split_ifs
  · rfl
  · rfl
  · rfl

/-- **When the loop begins**, the alarm is set. -/
theorem Entry.inv (e : Entry) : e.call.Inv ∧ e.call.place = .loop := by
  have hloop : e.call.place = .loop := by
    rw [Entry.call]
    dsimp only
    split_ifs
    · rfl
    · rfl
    · rfl
  refine ⟨⟨Or.inl ?_, fun hround => ?_⟩, hloop⟩
  · rw [Entry.call]
    dsimp only
    split_ifs with hborrow hsooner
    · rw [Call.sooner, Bool.or_eq_true, beq_iff_eq] at hsooner
      exact hsooner
    · exact (rfl : e.task.alarm = e.task.alarm)
    · exact (rfl : e.task.alarm = e.task.alarm)
  · rw [hloop] at hround
    simp at hround

/-- **Up to its return** the call knows the alarm that it has found, and no step has left where the
alarm is not put back. -/
theorem run_inv {e : Entry} (h : Relation.ReflTransGen Step e.call c)
    (hp : ∀ r, c.place ≠ .returned r) :
    c.Inv ∧ c.oldalarm = e.task.alarm ∧ Relation.ReflTransGen Fine e.call c := by
  induction h with
  | refl => exact ⟨e.inv.1, e.oldalarm, .refl⟩
  | @tail b c h hs ih =>
    obtain ⟨hinv, hold, hfine⟩ := ih hs.place_ne
    have hkeeps := Call.Keeps.step hinv hs
    refine ⟨hkeeps.inv hp, hkeeps.oldalarm.trans hold, hfine.tail ⟨hs, fun hspoils => ?_⟩⟩
    cases hs with
    | run _ =>
      refine absurd ?_ (hp b.got)
      rw [Call.exec, hspoils.1]
      dsimp only
      rw [Call.take, if_pos ⟨hspoils.2.1, hspoils.2.2.1⟩]
    | interrupt _ signal jiffies modes secondary => exact hspoils.1
    | schedule _ => exact hspoils.1

/-- **`tty_read` gives the alarm back**, unless it ends with the end-of-file character while the
time-out is running or after the alarm has gone off. -/
theorem alarm_back_iff (e : Entry) (h : Relation.ReflTransGen Step e.call c)
    (hr : c.place = .returned r) :
    c.task.alarm = e.task.alarm ↔ Relation.ReflTransGen Fine e.call c := by
  have hlast : ∀ b, Relation.ReflTransGen Step e.call b → Step b c →
      (c.task.alarm = e.task.alarm ↔ ¬b.Spoils) ∧ Relation.ReflTransGen Fine e.call b := by
    intro b hb hs
    obtain ⟨hinv, hold, hfine⟩ := run_inv hb hs.place_ne
    rw [← hold]
    exact ⟨(Call.Keeps.step hinv hs).back r hr, hfine⟩
  constructor
  · intro hback
    rcases Relation.ReflTransGen.cases_tail h with heq | ⟨b, hb, hs⟩
    · cases (heq ▸ hr).symm.trans e.inv.2
    · obtain ⟨hiff, hfine⟩ := hlast b hb hs
      exact hfine.tail ⟨hs, fun hspoils => absurd hspoils (hiff.mp hback)⟩
  · intro hfine
    rcases Relation.ReflTransGen.cases_tail hfine with heq | ⟨b, hb, hs⟩
    · cases (heq ▸ hr).symm.trans e.inv.2
    · have hb' : Relation.ReflTransGen Step e.call b :=
        Relation.ReflTransGen.mono (fun _ _ h => h.1) _ _ hb
      refine (hlast b hb' hs.1).1.mpr fun hspoils => ?_
      cases (hs.2 hspoils).symm.trans hr

/-- A read of one character with the time-out of a tenth of a second, by a task with no alarm. -/
def oneChar (icanon : Bool) (c : Byte) : Entry where
  task := ⟨.running, 15#32, 15#32, 0#32, 0#32, 0#32⟩
  jiffies := 0#32
  modes :=
    { icrnl := true, inlcr := false, igncr := false, iuclc := false, opost := false, onlcr := false
      ocrnl := false, onlret := false, olcuc := false, isig := true, icanon := icanon, echo := false
      echoctl := false, intr := 3#8, quit := 28#8, erase := 127#8, kill := 21#8, eof := 4#8
      start := 17#8, stop := 19#8, vmin := 0#8, vtime := 1#8 }
  secondary := ⟨1#32, 1, 0, fun _ => c⟩
  nr := 1

/-- The read of a character that is there. -/
theorem alarm_back_oneChar :
    (oneChar false 97#8).call.exec.exec.exec.task.alarm = 0#32 ↔
      Relation.ReflTransGen Fine (oneChar false 97#8).call
        (oneChar false 97#8).call.exec.exec.exec := by
  have hhead : Step (oneChar false 97#8).call (oneChar false 97#8).call.exec :=
    .run fun r hr => Place.noConfusion hr
  have htake : Step (oneChar false 97#8).call.exec (oneChar false 97#8).call.exec.exec :=
    .run fun r hr => Place.noConfusion hr
  have hstored : Step (oneChar false 97#8).call.exec.exec
      (oneChar false 97#8).call.exec.exec.exec :=
    .run fun r hr => Place.noConfusion hr
  have hplace : (oneChar false 97#8).call.exec.exec.exec.place = .returned 1 := by decide
  exact alarm_back_iff (oneChar false 97#8) ((.single hhead : Relation.ReflTransGen Step _ _)
    |>.tail htake |>.tail hstored) hplace

/-- The end of the file leaves the time-out behind. -/
theorem alarm_left : ¬∀ (e : Entry) (c : Call) (r : ℤ), Relation.ReflTransGen Step e.call c →
    c.place = .returned r → c.task.alarm = e.task.alarm := by
  intro h
  have hrun : Relation.ReflTransGen Step (oneChar true 4#8).call
      (oneChar true 4#8).call.exec.exec :=
    (Relation.ReflTransGen.single (.run fun r hr => Place.noConfusion hr)).tail
      (.run fun r hr => Place.noConfusion hr)
  exact absurd (h _ _ 0 hrun (by decide)) (by decide)

end Linux011.Tty.Alarm

import Linux011.Tty.Editing

/-!
# `con_write` and its queue

A call of `con_write` takes as many characters as there were in the write queue when it began. One
of them may be the end of a request: then the console replies into the read queue, the reply is
copied to the secondary queue at once, and with `ECHO` every character that is copied is written,
by a call of `con_write` inside the first. The inner call takes all there is, and the outer one goes
on to take as many characters as were left when it was interrupted, from a queue that is empty.

So the queue is consumed once if and only if no request but one at the very end of the queue leads
to an echo (`Linux011.Tty.con_write_once`).
-/

namespace Linux011.Tty

/-! ### A call that is fed -/

/-- **One operation**, and if it is one of `con_write` there is something in the queue. -/
inductive Fed (d : Device) (s : Sys) : Sys → Prop
  | exec {f : Frame} {st : List Frame} (hs : s.stack = f :: st)
    (hne : ∀ nr, f = .conWrite (nr + 1) → ¬s.line.writeQ.Empty) : Fed d s (d.exec st s f)

/-- One operation after another, and never a `GETCH` on an empty write queue. -/
abbrev Feeding (d : Device) : Sys → Sys → Prop := Relation.ReflTransGen (Fed d)

/-- The console takes these characters. -/
def Sys.shown (s : Sys) (cs : List Byte) : Console.Con :=
  cs.foldl (fun con c => con.conChar s.line.termios.erase c) s.con

/-- **The queue is consumed once**: the call returns, with the queue empty, and it has taken each
character that was there, and each that was echoed meanwhile, once and in this order. -/
def ConsumedOnce (d : Device) (s : Sys) : Prop :=
  ∃ s' echoed, Feeding d s s' ∧ s'.stack = [] ∧ s'.line.writeQ.Empty ∧
    s'.writeIn = s.writeIn ++ echoed ∧
    s'.writeOut = s.writeOut ++ s.line.writeQ.contents ++ echoed ∧
    s'.con = s.shown (s.line.writeQ.contents ++ echoed)

/-! ### When it is -/

/-- A character that `copy_to_cooked` reads leads to no echo. -/
def Line.Skips (t : Line) (c : Byte) : Prop :=
  if t.termios.icanon ∧ Byte.is c t.termios.kill then t.atEnd
  else if t.termios.icanon ∧ Byte.is c t.termios.erase then t.atEnd
  else t.termios.icanon ∧ (Byte.is c t.termios.stop ∨ Byte.is c t.termios.start) ∨
    t.termios.isig ∧ (Byte.is c t.termios.intr ∨ Byte.is c t.termios.quit)

/-- The same of a character that comes in. -/
def Device.Passes (d : Device) (t : Line) (b : Byte) : Prop :=
  ∀ c, d.translate t.termios b = some c → t.Skips c

/-- `PUTCH`, as far as what is in the queue. -/
def put (l : List Byte) (c : Byte) : List Byte := if l.length = 1023 then [] else l ++ [c]

/-- **No request leads to an echo before the end**: `l` is what is in the write queue, and `r` what
is in the read queue. When a reply has led to none, all has been read. -/
def Device.Undisturbed (d : Device) (t : Line) : List Byte → Console.Con → List Byte → Prop
  | [], _, _ => True
  | b :: l, con, r =>
    if con.ctl.state = 1 ∧ b = 90#8 then
      l = [] ∨ (∀ c ∈ response.foldl put r, d.Passes t c) ∧
        d.Undisturbed t l (con.conChar t.termios.erase b) []
    else d.Undisturbed t l (con.conChar t.termios.erase b) r

/-- **When `con_write` consumes its queue once**: there is no echo, or no room for a character in
the secondary queue, or no request leads to an echo before the end. -/
def Device.Fine (d : Device) (s : Sys) : Prop :=
  s.line.termios.echo = false ∨ s.line.secondary.Full ∨
    d.Undisturbed s.line s.line.writeQ.contents s.con s.line.readQ.contents

/-! ### Runs -/

variable {d : Device} {s s' s'' : Sys} {f : Frame} {st : List Frame} {t : Line} {b c : Byte}
  {l l' r es : List Byte} {k n : ℕ}

theorem fed_one (hs : s.stack = f :: st)
    (hne : ∀ nr, f = .conWrite (nr + 1) → ¬s.line.writeQ.Empty) :
    Feeding d s (d.exec st s f) := .single (.exec hs hne)

/-- Any operation but one of `con_write`. -/
theorem fed_other (hs : s.stack = f :: st) (hf : ∀ nr, f ≠ .conWrite nr) :
    Feeding d s (d.exec st s f) := fed_one hs fun nr h => absurd h (hf (nr + 1))

theorem fed_unique : Relator.RightUnique (Fed d) := by
  intro s s₁ s₂ h₁ h₂
  obtain @⟨f, st, hs, -⟩ := h₁
  obtain @⟨f', st', hs', -⟩ := h₂
  obtain ⟨rfl, rfl⟩ := List.cons.inj (hs.symm.trans hs')
  rfl

/-- A call that comes to an end comes past every state that it reaches. -/
theorem Feeding.rest (h : Feeding d s s') (hend : s'.stack = []) (h' : Feeding d s s'') :
    Feeding d s'' s' := by
  rcases Relation.ReflTransGen.total_of_right_unique fed_unique h h' with hlate | hearly
  · rcases Relation.ReflTransGen.cases_head hlate with rfl | ⟨s₁, hfed, -⟩
    · exact .refl
    · obtain ⟨hs, -⟩ := hfed
      rw [hend] at hs
      exact absurd hs.symm (List.cons_ne_nil _ _)
  · exact hearly

/-! ### What is put and taken -/

/-- **What has been put into the write queue and taken out of it**, with the settings as before. -/
structure Took (s : Sys) (es os : List Byte) (s' : Sys) : Prop where
  entered : s'.writeIn = s.writeIn ++ es
  left : s'.writeOut = s.writeOut ++ os
  con : s'.con = s.shown os
  termios : s'.line.termios = s.line.termios

theorem Took.same (hin : s'.writeIn = s.writeIn) (hout : s'.writeOut = s.writeOut)
    (hcon : s'.con = s.con) (ht : s'.line.termios = s.line.termios) : Took s [] [] s' :=
  ⟨by rw [hin, List.append_nil], by rw [hout, List.append_nil], hcon, ht⟩

theorem Took.trans {es es' os os' : List Byte} (h : Took s es os s')
    (h' : Took s' es' os' s'') : Took s (es ++ es') (os ++ os') s'' := by
  refine ⟨?_, ?_, ?_, h'.termios.trans h.termios⟩
  · rw [h'.entered, h.entered, List.append_assoc]
  · rw [h'.left, h.left, List.append_assoc]
  · rw [h'.con, Sys.shown, Sys.shown, List.foldl_append, h.con, h.termios, Sys.shown]

/-! ### A copy without an echo -/

/-- **Nothing is written**, and it goes on with `st`. -/
structure Silent (s : Sys) (st : List Frame) (s' : Sys) : Prop where
  stack : s'.stack = st
  took : Took s [] [] s'
  writeQ : s'.line.writeQ = s.line.writeQ
  readQ : s'.line.readQ.Ok
  secondary : s'.line.secondary.Ok

theorem Silent.trans {st' : List Frame} (h : Silent s st s') (h' : Silent s' st' s'') :
    Silent s st' s'' :=
  ⟨h'.stack, h.took.trans h'.took, h'.writeQ.trans h.writeQ, h'.readQ, h'.secondary⟩

/-- **The secondary queue is full**: nothing is read. -/
theorem silent_full (hs : s.stack = .cooked :: st) (hr : s.line.readQ.Ok)
    (hq : s.line.secondary.Ok) (hfull : s.line.secondary.Full) :
    ∃ s', Feeding d s s' ∧ Silent s st s' ∧ s'.line = s.line := by
  refine ⟨_, fed_other hs (by rintro nr ⟨⟩), ?_, rfl⟩
  have hcook : s.line.cookedUp := Or.inr hfull
  rw [Device.exec, if_pos hcook]
  exact ⟨rfl, Took.same rfl rfl rfl rfl, rfl, hr, hq⟩

/-- A character is taken. -/
theorem silent_take (hs : s.stack = .cooked :: st) (hr : s.line.readQ.Ok)
    (hq : s.line.secondary.Ok) (hfull : ¬s.line.secondary.Full)
    (hread : s.line.readQ.contents = b :: r) :
    ∃ s', Feeding d s s' ∧ Silent s (.handle b :: .cooked :: st) s' ∧
      s'.line = { s.line with readQ := s.line.readQ.getch } ∧ s'.line.readQ.contents = r := by
  have hne : s.line.readQ.chars ≠ 0 := by
    rw [← Queue.length_contents, hread]
    simp
  have hcook : ¬s.line.cookedUp := by
    rintro (h | h)
    · rw [Queue.empty_iff hr] at h
      exact hne h
    · exact hfull h
  have htake := Queue.contents_getch hr hne
  rw [hread] at htake
  obtain ⟨hfront, hrest⟩ := List.cons.inj htake
  have h₁ := fed_other (d := d) hs (by rintro nr ⟨⟩)
  rw [Device.exec, if_neg hcook] at h₁
  have h₂ := h₁.trans (fed_other rfl (by rintro nr ⟨⟩))
  refine ⟨_, h₂, ⟨?_, Took.same rfl rfl rfl rfl, rfl, hr.getch, hq⟩, rfl, hrest.symm⟩
  rw [Device.exec, hfront]
  rfl

/-- **A character that leads to no echo** when there is one. -/
theorem silent_pass (hs : s.stack = .handle b :: st) (hr : s.line.readQ.Ok)
    (hq : s.line.secondary.Ok) (hp : d.Passes s.line b) :
    ∃ s', Feeding d s s' ∧ Silent s st s' ∧
      ∃ stopped, s'.line = { s.line with stopped := stopped } := by
  have hone := fed_other (d := d) hs (by rintro nr ⟨⟩)
  rw [Device.exec, Device.handle] at hone
  cases htr : d.translate s.line.termios b with
  | none =>
    rw [htr] at hone
    exact ⟨_, hone, ⟨rfl, Took.same rfl rfl rfl rfl, rfl, hr, hq⟩, s.line.stopped, rfl⟩
  | some c =>
    have hskip := hp c htr
    rw [htr] at hone
    dsimp only at hone
    rw [Line.Skips] at hskip
    rw [Line.cook] at hone
    split_ifs at hskip with hkill herase
    · rw [if_pos hkill] at hone
      have htwo := hone.trans (fed_other rfl (by rintro nr ⟨⟩))
      rw [Device.exec, if_pos hskip] at htwo
      exact ⟨_, htwo, ⟨rfl, Took.same rfl rfl rfl rfl, rfl, hr, hq⟩, s.line.stopped, rfl⟩
    · rw [if_neg hkill, if_pos herase, if_pos hskip] at hone
      exact ⟨_, hone, ⟨rfl, Took.same rfl rfl rfl rfl, rfl, hr, hq⟩, s.line.stopped, rfl⟩
    · rw [if_neg hkill, if_neg herase] at hone
      by_cases hstop : s.line.termios.icanon = true ∧ Byte.is c s.line.termios.stop
      · rw [if_pos hstop] at hone
        exact ⟨_, hone, ⟨rfl, Took.same rfl rfl rfl rfl, rfl, hr, hq⟩, true, rfl⟩
      rw [if_neg hstop] at hone
      by_cases hstart : s.line.termios.icanon = true ∧ Byte.is c s.line.termios.start
      · rw [if_pos hstart] at hone
        exact ⟨_, hone, ⟨rfl, Took.same rfl rfl rfl rfl, rfl, hr, hq⟩, false, rfl⟩
      rw [if_neg hstart, if_pos ?_] at hone
      · exact ⟨_, hone, ⟨rfl, Took.same rfl rfl rfl rfl, rfl, hr, hq⟩, s.line.stopped, rfl⟩
      · rcases hskip with ⟨hi, h⟩ | h
        · rcases h with h | h
          · exact absurd ⟨hi, h⟩ hstop
          · exact absurd ⟨hi, h⟩ hstart
        · exact h

/-- **No character leads to an echo**: all are read, and none is stored. -/
theorem silent_passes (hs : s.stack = .cooked :: st) (hr : s.line.readQ.Ok)
    (hq : s.line.secondary.Ok) (hfull : ¬s.line.secondary.Full)
    (hread : s.line.readQ.contents = r) (hp : ∀ b ∈ r, d.Passes s.line b) :
    ∃ s', Feeding d s s' ∧ Silent s st s' ∧ s'.line.secondary = s.line.secondary ∧
      s'.line.readQ.contents = [] := by
  induction r generalizing s with
  | nil =>
    refine ⟨_, fed_other hs (by rintro nr ⟨⟩), ?_, rfl, hread⟩
    have hcook : s.line.cookedUp := Or.inl ((Queue.contents_eq_nil_iff hr).mp hread)
    rw [Device.exec, if_pos hcook]
    exact ⟨rfl, Took.same rfl rfl rfl rfl, rfl, hr, hq⟩
  | cons b r ih =>
    obtain ⟨s₁, h₁, hsilent₁, hline₁, hread₁⟩ := silent_take (d := d) hs hr hq hfull hread
    have hsame : ∀ b, d.Passes s₁.line b ↔ d.Passes s.line b := by
      intro b
      rw [hline₁]
      rfl
    obtain ⟨s₂, h₂, hsilent₂, stopped, hline₂⟩ := silent_pass hsilent₁.stack hsilent₁.readQ
      hsilent₁.secondary ((hsame b).mpr (hp b List.mem_cons_self))
    have hsec : s₂.line.secondary = s.line.secondary := by rw [hline₂, hline₁]
    have hsame₂ : ∀ b, d.Passes s₂.line b ↔ d.Passes s.line b := by
      intro b
      rw [hline₂, hline₁]
      rfl
    obtain ⟨s', h', hsilent', hsec', hread'⟩ := ih hsilent₂.stack hsilent₂.readQ
      hsilent₂.secondary (hsec ▸ hfull) (by rw [hline₂]; exact hread₁) fun c hc =>
        (hsame₂ c).mpr (hp c (List.mem_cons_of_mem b hc))
    exact ⟨s', (h₁.trans h₂).trans h', (hsilent₁.trans hsilent₂).trans hsilent',
      hsec'.trans hsec, hread'⟩

/-- A line is killed without an echo: the induction is on what is in the queue. -/
theorem silent_kill (hs : s.stack = .kill :: st) (hecho : s.line.termios.echo = false)
    (hr : s.line.readQ.Ok) (hq : s.line.secondary.Ok) (hn : s.line.secondary.chars = n) :
    ∃ s', Feeding d s s' ∧ Silent s st s' ∧ s'.line.readQ = s.line.readQ := by
  induction n generalizing s with
  | zero =>
    have hend : s.line.atEnd := Or.inl ((Queue.empty_iff hq).mpr hn)
    refine ⟨_, fed_other hs (by rintro nr ⟨⟩), ?_, rfl⟩
    rw [Device.exec, if_pos hend]
    exact ⟨rfl, Took.same rfl rfl rfl rfl, rfl, hr, hq⟩
  | succ n ih =>
    have hone := fed_other (d := d) hs (by rintro nr ⟨⟩)
    rw [Device.exec] at hone
    by_cases hend : s.line.atEnd
    · rw [if_pos hend] at hone
      exact ⟨_, hone, ⟨rfl, Took.same rfl rfl rfl rfl, rfl, hr, hq⟩, rfl⟩
    · have hrub : s.line.rubOut = [.dec] := by
        rw [Line.rubOut, hecho]
        rfl
      rw [if_neg hend, hrub] at hone
      have htwo := hone.trans (fed_other rfl (by rintro nr ⟨⟩))
      rw [Device.exec] at htwo
      have hchars : s.line.secondary.decHead.chars = n := by
        rw [Queue.chars_decHead hq (by omega), hn, Nat.add_sub_cancel]
      have hfirst : Silent s (.kill :: st) { s with
          line := { s.line with secondary := s.line.secondary.decHead }
          stack := .kill :: st } :=
        ⟨rfl, Took.same rfl rfl rfl rfl, rfl, hr, hq.decHead⟩
      obtain ⟨s', h', hsilent, hread⟩ := ih hfirst.stack hecho hr hq.decHead hchars
      exact ⟨s', htwo.trans h', hfirst.trans hsilent, hread⟩

/-- A character, without echo. -/
theorem silent_handle (hs : s.stack = .handle b :: st) (hecho : s.line.termios.echo = false)
    (hr : s.line.readQ.Ok) (hq : s.line.secondary.Ok) :
    ∃ s', Feeding d s s' ∧ Silent s st s' ∧ s'.line.readQ = s.line.readQ := by
  have hone := fed_other (d := d) hs (by rintro nr ⟨⟩)
  rw [Device.exec, Device.handle] at hone
  cases htr : d.translate s.line.termios b with
  | none =>
    rw [htr] at hone
    exact ⟨_, hone, ⟨rfl, Took.same rfl rfl rfl rfl, rfl, hr, hq⟩, rfl⟩
  | some c =>
    rw [htr] at hone
    dsimp only at hone
    have hrub : s.line.rubOut = [.dec] := by
      rw [Line.rubOut, hecho]
      rfl
    have hnone : s.line.echo c = [] := by
      rw [Line.echo, hecho]
      rfl
    rw [Line.cook, hrub, hnone] at hone
    split_ifs at hone with hkill herase hend hstop hstart hsig hline
    · have hfirst : Silent s (.kill :: st) { s with stack := .kill :: st } :=
        ⟨rfl, Took.same rfl rfl rfl rfl, rfl, hr, hq⟩
      obtain ⟨s', h', hsilent, hread⟩ := silent_kill (d := d) hfirst.stack hecho hr hq rfl
      exact ⟨s', hone.trans h', hfirst.trans hsilent, hread⟩
    · exact ⟨_, hone, ⟨rfl, Took.same rfl rfl rfl rfl, rfl, hr, hq⟩, rfl⟩
    · have htwo := hone.trans (fed_other rfl (by rintro nr ⟨⟩))
      rw [Device.exec] at htwo
      exact ⟨_, htwo, ⟨rfl, Took.same rfl rfl rfl rfl, rfl, hr, hq.decHead⟩, rfl⟩
    · exact ⟨_, hone, ⟨rfl, Took.same rfl rfl rfl rfl, rfl, hr, hq⟩, rfl⟩
    · exact ⟨_, hone, ⟨rfl, Took.same rfl rfl rfl rfl, rfl, hr, hq⟩, rfl⟩
    · exact ⟨_, hone, ⟨rfl, Took.same rfl rfl rfl rfl, rfl, hr, hq⟩, rfl⟩
    · have htwo := hone.trans (fed_other rfl (by rintro nr ⟨⟩))
      rw [Device.exec, Sys.putSecondary] at htwo
      have hq' : Queue.Ok { s.line.secondary with data := s.line.secondary.data + 1#32 } :=
        ⟨hq.head, hq.tail⟩
      exact ⟨_, htwo, ⟨rfl, Took.same rfl rfl rfl rfl, rfl, hr, hq'.putch⟩, rfl⟩
    · have htwo := hone.trans (fed_other rfl (by rintro nr ⟨⟩))
      rw [Device.exec, Sys.putSecondary] at htwo
      exact ⟨_, htwo, ⟨rfl, Took.same rfl rfl rfl rfl, rfl, hr, hq.putch⟩, rfl⟩

/-- **Without echo** nothing is written. -/
theorem silent_echoless (hs : s.stack = .cooked :: st) (hecho : s.line.termios.echo = false)
    (hr : s.line.readQ.Ok) (hq : s.line.secondary.Ok) (hread : s.line.readQ.contents = r) :
    ∃ s', Feeding d s s' ∧ Silent s st s' := by
  induction r generalizing s with
  | nil =>
    refine ⟨_, fed_other hs (by rintro nr ⟨⟩), ?_⟩
    have hcook : s.line.cookedUp := Or.inl ((Queue.contents_eq_nil_iff hr).mp hread)
    rw [Device.exec, if_pos hcook]
    exact ⟨rfl, Took.same rfl rfl rfl rfl, rfl, hr, hq⟩
  | cons b r ih =>
    by_cases hfull : s.line.secondary.Full
    · obtain ⟨s', h', hsilent, -⟩ := silent_full (d := d) hs hr hq hfull
      exact ⟨s', h', hsilent⟩
    · obtain ⟨s₁, h₁, hsilent₁, hline₁, hread₁⟩ := silent_take (d := d) hs hr hq hfull hread
      obtain ⟨s₂, h₂, hsilent₂, hread₂⟩ := silent_handle (d := d) hsilent₁.stack
        (hsilent₁.took.termios ▸ hecho) hsilent₁.readQ hsilent₁.secondary
      have hsilent := hsilent₁.trans hsilent₂
      obtain ⟨s', h', hsilent'⟩ := ih hsilent₂.stack (hsilent.took.termios ▸ hecho)
        hsilent₂.readQ hsilent₂.secondary (by rw [hread₂]; exact hread₁)
      exact ⟨s', (h₁.trans h₂).trans h', hsilent.trans hsilent'⟩

/-! ### What is written -/

/-- **Only the write queue** is another, with the settings as before; it goes on with `st`. -/
structure Written (s : Sys) (st : List Frame) (es os l : List Byte) (s' : Sys) : Prop where
  stack : s'.stack = st
  took : Took s es os s'
  line : ∃ q, s'.line = { s.line with writeQ := q }
  ok : s'.line.writeQ.Ok
  contents : s'.line.writeQ.contents = l

theorem Written.readQ {os : List Byte} (h : Written s st es os l s') :
    s'.line.readQ = s.line.readQ ∧ s'.line.secondary = s.line.secondary := by
  obtain ⟨q, hq⟩ := h.line
  rw [hq]
  exact ⟨rfl, rfl⟩

theorem Written.trans {st' : List Frame} {es' os os' l' : List Byte}
    (h : Written s st es os l s') (h' : Written s' st' es' os' l' s'') :
    Written s st' (es ++ es') (os ++ os') l' s'' := by
  obtain ⟨q, hq⟩ := h.line
  obtain ⟨q', hq'⟩ := h'.line
  exact ⟨h'.stack, h.took.trans h'.took, ⟨q', by rw [hq', hq]⟩, h'.ok, h'.contents⟩

/-- Characters are put, and there is room for them. -/
theorem written_put (hs : s.stack = es.map Frame.putWrite ++ st) (hw : s.line.writeQ.Ok)
    (hl : s.line.writeQ.contents = l) (hroom : l.length + es.length ≤ 1023) :
    ∃ s', Feeding d s s' ∧ Written s st es [] (l ++ es) s' := by
  induction es generalizing s l with
  | nil =>
    refine ⟨s, .refl, hs, Took.same rfl rfl rfl rfl, ⟨_, rfl⟩, hw, ?_⟩
    rw [hl, List.append_nil]
  | cons c es ih =>
    rw [List.length_cons] at hroom
    have hleft : s.line.writeQ.left ≠ 0 := by
      have hlen := Queue.length_contents s.line.writeQ
      have hsum := Queue.left_eq hw
      rw [hl] at hlen
      omega
    have hone := fed_other (d := d) hs (by rintro nr ⟨⟩)
    have hput : Written s (es.map Frame.putWrite ++ st) [c] [] (l ++ [c])
        (d.exec (es.map Frame.putWrite ++ st) s (.putWrite c)) := by
      refine ⟨rfl, ⟨rfl, ?_, rfl, rfl⟩, ⟨_, rfl⟩, hw.putch, ?_⟩
      · exact (List.append_nil _).symm
      · rw [← hl]
        exact Queue.contents_putch hw hleft
    obtain ⟨s', h', hwritten⟩ := ih hput.stack hput.ok hput.contents (by
      rw [List.length_append, List.length_singleton]
      omega)
    have hall := hput.trans hwritten
    rw [List.append_assoc] at hall
    exact ⟨s', hone.trans h', hall⟩

/-- **A character is taken**, and may be one to reply to. -/
theorem written_take (hs : s.stack = .conWrite (k + 1) :: st) (hw : s.line.writeQ.Ok)
    (hl : s.line.writeQ.contents = b :: l) :
    ∃ s', Feeding d s s' ∧ Written s ((if s.con.ctl.state = 1 ∧ b = 90#8 then [.respond] else []) ++
      .conWrite k :: st) [] [b] l s' := by
  have hne : s.line.writeQ.chars ≠ 0 := by
    rw [← Queue.length_contents, hl]
    simp
  have htake := Queue.contents_getch hw hne
  rw [hl] at htake
  obtain ⟨hfront, hrest⟩ := List.cons.inj htake
  have hone := fed_one (d := d) hs fun nr _ he => hne ((Queue.empty_iff hw).mp he)
  refine ⟨_, hone, ?_⟩
  rw [Device.exec, conWrite, hfront]
  refine ⟨rfl, ⟨?_, rfl, rfl, rfl⟩, ⟨_, rfl⟩, hw.getch, hrest.symm⟩
  exact (List.append_nil _).symm

/-- Characters are taken, none of which is one to reply to. -/
theorem written_takes (hs : s.stack = .conWrite (es.length + k) :: st) (hw : s.line.writeQ.Ok)
    (hl : s.line.writeQ.contents = es ++ l) (hno : ∀ c ∈ es, c ≠ 90#8) :
    ∃ s', Feeding d s s' ∧ Written s (.conWrite k :: st) [] es l s' := by
  induction es generalizing s with
  | nil =>
    rw [List.length_nil, Nat.zero_add] at hs
    exact ⟨s, .refl, hs, Took.same rfl rfl rfl rfl, ⟨_, rfl⟩, hw, hl⟩
  | cons c es ih =>
    rw [List.length_cons, Nat.add_right_comm] at hs
    obtain ⟨s₁, h₁, hwritten⟩ := written_take (d := d) hs hw hl
    rw [if_neg fun h => hno c List.mem_cons_self h.2] at hwritten
    obtain ⟨s', h', hwritten'⟩ := ih hwritten.stack hwritten.ok hwritten.contents fun c hc =>
      hno c (List.mem_cons_of_mem _ hc)
    exact ⟨s', h₁.trans h', hwritten.trans hwritten'⟩

/-- **An echo is written**, to a queue that has been empty. It is at an end, or the last character
is one to reply to. -/
theorem written_echo (hd : d.console = true)
    (hs : s.stack = es.map Frame.putWrite ++ .write :: st) (hw : s.line.writeQ.Ok)
    (hl : s.line.writeQ.contents = []) (hroom : es.length ≤ 1023)
    (hno : ∀ c ∈ es.dropLast, c ≠ 90#8) :
    ∃ s', Feeding d s s' ∧ (Written s st es es [] s' ∨
      90#8 ∈ es ∧ Written s (.respond :: .conWrite 0 :: st) es es [] s') := by
  obtain ⟨s₁, h₁, hput⟩ := written_put (d := d) hs hw hl (by simpa using hroom)
  rw [List.nil_append] at hput
  have hwrite := fed_other (d := d) hput.stack (by rintro nr ⟨⟩)
  have hstack : (d.exec st s₁ .write).stack = .conWrite es.length :: st := by
    rw [Device.exec, if_pos hd, ← hput.contents, Queue.length_contents]
    rfl
  have hmid : Written s (.conWrite es.length :: st) es [] es (d.exec st s₁ .write) :=
    ⟨hstack, ⟨hput.took.entered, hput.took.left, hput.took.con, hput.took.termios⟩, hput.line,
      hput.ok, hput.contents⟩
  have hpop : ∀ s₂, Feeding d s s₂ → Written s (.conWrite 0 :: st) es es [] s₂ →
      ∃ s', Feeding d s s' ∧ Written s st es es [] s' := by
    intro s₂ h₂ hwritten
    refine ⟨_, h₂.trans (fed_one hwritten.stack (by rintro nr ⟨⟩)), ?_⟩
    exact ⟨rfl, ⟨hwritten.took.entered, hwritten.took.left, hwritten.took.con,
      hwritten.took.termios⟩, hwritten.line, hwritten.ok, hwritten.contents⟩
  rcases List.eq_nil_or_concat es with rfl | ⟨es, c, rfl⟩
  · obtain ⟨s', h', hwritten⟩ := hpop _ (h₁.trans hwrite) hmid
    exact ⟨s', h', Or.inl hwritten⟩
  · rw [List.concat_eq_append] at *
    rw [List.dropLast_concat] at hno
    obtain ⟨s₂, h₂, htakes⟩ := written_takes (d := d) (k := 1) (l := [c])
      (by rw [hmid.stack, List.length_append, List.length_singleton]) hmid.ok hmid.contents hno
    obtain ⟨s₃, h₃, htake⟩ := written_take (d := d) htakes.stack htakes.ok htakes.contents
    have hall := (hmid.trans htakes).trans htake
    have hrun := ((h₁.trans hwrite).trans h₂).trans h₃
    rw [List.append_nil, List.append_nil, List.nil_append] at hall
    by_cases hask : s₂.con.ctl.state = 1 ∧ c = 90#8
    · rw [if_pos hask] at hall
      refine ⟨s₃, hrun, Or.inr ⟨?_, hall⟩⟩
      rw [hask.2]
      exact List.mem_concat_self
    · rw [if_neg hask] at hall
      obtain ⟨s', h', hwritten⟩ := hpop _ hrun hall
      exact ⟨s', h', Or.inl hwritten⟩

/-! ### A reply -/

theorem contents_put {q : Queue} (h : q.Ok) : (q.putch c).contents = put q.contents c := by
  have hsum := Queue.left_eq h
  rw [put, Queue.length_contents]
  split
  · exact Queue.contents_putch_full h (by rw [Queue.Full]; omega)
  · exact Queue.contents_putch h (by omega)

theorem contents_foldl_put {q : Queue} (h : q.Ok) (cs : List Byte) :
    (cs.foldl Queue.putch q).Ok ∧ (cs.foldl Queue.putch q).contents = cs.foldl put q.contents := by
  induction cs generalizing q with
  | nil => exact ⟨h, rfl⟩
  | cons c cs ih =>
    rw [List.foldl_cons, List.foldl_cons, ← contents_put h]
    exact ih h.putch

/-- What is put into the read queue changes nothing else of the terminal. -/
theorem foldl_putRead (cs : List Byte) (s : Sys) :
    (cs.foldl Sys.putRead s).line = { s.line with readQ := cs.foldl Queue.putch s.line.readQ } ∧
      (cs.foldl Sys.putRead s).writeIn = s.writeIn ∧
      (cs.foldl Sys.putRead s).writeOut = s.writeOut ∧ (cs.foldl Sys.putRead s).con = s.con := by
  induction cs generalizing s with
  | nil => exact ⟨rfl, rfl, rfl, rfl⟩
  | cons c cs ih => exact ih (s.putRead c)

/-- **The console replies**, and what it replies is to be copied. -/
theorem silent_respond (hs : s.stack = .respond :: st) (hr : s.line.readQ.Ok)
    (hq : s.line.secondary.Ok) :
    ∃ s', Feeding d s s' ∧ Silent s (.cooked :: st) s' ∧
      s'.line.secondary = s.line.secondary ∧
      s'.line.readQ.contents = response.foldl put s.line.readQ.contents := by
  obtain ⟨hline, hin, hout, hcon⟩ := foldl_putRead response s
  obtain ⟨hok, hcont⟩ := contents_foldl_put hr response
  have hone := fed_other (d := d) hs (by rintro nr ⟨⟩)
  rw [Device.exec] at hone
  generalize response.foldl Sys.putRead s = t at hline hin hout hcon hone
  refine ⟨_, hone, ⟨rfl, Took.same hin hout hcon ?_, ?_, ?_, ?_⟩, ?_, ?_⟩
  all_goals
    dsimp only
    rw [hline]
  · exact hok
  · exact hq
  · exact hcont

/-! ### A copy with an echo -/

/-- A character that the console may be asked by: its echo ends in a `Z`. -/
def Device.asks (d : Device) (t : Termios) (b : Byte) : Bool :=
  d.translate t b = some 90#8 ∨ d.translate t b = some 26#8

/-- **Nothing is left to write**, and so many of the characters to read may ask the console. -/
structure Ready (d : Device) (z : ℕ) (s : Sys) : Prop where
  echo : s.line.termios.echo = true
  writeQ : s.line.writeQ.Ok
  empty : s.line.writeQ.contents = []
  readQ : s.line.readQ.Ok
  secondary : s.line.secondary.Ok
  asks : s.line.readQ.contents.countP (d.asks s.line.termios) ≤ z

/-- **What has been put has been taken**, and nothing is left to write. -/
structure Echoed (d : Device) (s : Sys) (st : List Frame) (s' : Sys) : Prop where
  stack : s'.stack = st
  took : ∃ es, Took s es es s'
  writeQ : s'.line.writeQ.Ok
  empty : s'.line.writeQ.contents = []
  readQ : s'.line.readQ.Ok
  secondary : s'.line.secondary.Ok
  asks : s'.line.readQ.contents.countP (d.asks s.line.termios) ≤
    s.line.readQ.contents.countP (d.asks s.line.termios)

theorem Echoed.termios (h : Echoed d s st s') : s'.line.termios = s.line.termios := by
  obtain ⟨es, htook⟩ := h.took
  exact htook.termios

theorem Echoed.trans {st' : List Frame} (h : Echoed d s st s') (h' : Echoed d s' st' s'') :
    Echoed d s st' s'' := by
  have hasks := h'.asks
  rw [h.termios] at hasks
  obtain ⟨es, htook⟩ := h.took
  obtain ⟨es', htook'⟩ := h'.took
  exact ⟨h'.stack, ⟨es ++ es', htook.trans htook'⟩, h'.writeQ, h'.empty, h'.readQ, h'.secondary,
    hasks.trans h.asks⟩

theorem Echoed.ready {z : ℕ} (h : Echoed d s st s') (hs : Ready d z s) : Ready d z s' := by
  have ht := h.termios
  exact ⟨ht ▸ hs.echo, h.writeQ, h.empty, h.readQ, h.secondary, ht ▸ h.asks.trans hs.asks⟩

theorem Silent.echoed {z : ℕ} (h : Silent s st s') (hs : Ready d z s)
    (hasks : s'.line.readQ.contents.countP (d.asks s.line.termios) ≤
      s.line.readQ.contents.countP (d.asks s.line.termios)) : Echoed d s st s' :=
  ⟨h.stack, ⟨[], h.took⟩, h.writeQ ▸ hs.writeQ, h.writeQ ▸ hs.empty, h.readQ, h.secondary, hasks⟩

theorem Written.echoed {z : ℕ} (h : Written s st es es [] s') (hs : Ready d z s) :
    Echoed d s st s' := by
  obtain ⟨hread, hsec⟩ := h.readQ
  exact ⟨h.stack, ⟨es, h.took⟩, h.ok, h.contents, hread ▸ hs.readQ, hsec ▸ hs.secondary,
    (congrArg (fun q : Queue => q.contents.countP _) hread).le⟩

theorem countP_put (p : Byte → Bool) (hc : p c = false) (l : List Byte) :
    (put l c).countP p ≤ l.countP p := by
  rw [put]
  split
  · exact Nat.zero_le _
  · rw [List.countP_append, List.countP_singleton, hc]
    exact le_rfl

theorem countP_foldl_put (p : Byte → Bool) (cs : List Byte) (hcs : ∀ c ∈ cs, p c = false)
    (l : List Byte) : (cs.foldl put l).countP p ≤ l.countP p := by
  induction cs generalizing l with
  | nil => exact le_rfl
  | cons c cs ih =>
    exact (ih (fun c hc => hcs c (List.mem_cons_of_mem _ hc)) (put l c)).trans
      (countP_put p (hcs c List.mem_cons_self) l)

/-- **A reply asks for no other.** -/
theorem asks_response (hd : d.Ctype) (t : Termios) : ∀ c ∈ response, d.asks t c = false := by
  have hplain : ∀ c ∈ response, c ≠ 13#8 ∧ c ≠ 10#8 ∧ c.toNat < 128 ∧ tolower c = c ∧
      c ≠ 90#8 ∧ c ≠ 26#8 := by decide
  intro c hc
  obtain ⟨h13, h10, hlow, hsame, h90, h26⟩ := hplain c hc
  have htr : d.translate t c = some c := by
    rw [Device.translate, if_neg h13, if_neg fun h => h10 h.1, Option.map_some, hd c hlow,
      hsame, ite_self]
  rw [Device.asks, htr]
  simp [h90, h26]

/-- The frames of an echo. -/
theorem echo_eq (t : Line) (hecho : t.termios.echo = true) (c : Byte) :
    ∃ es : List Byte, t.echo c = es.map Frame.putWrite ++ [.write] ∧ es.length ≤ 1023 ∧
      (∀ c ∈ es.dropLast, c ≠ 90#8) ∧ (90#8 ∈ es → c = 90#8 ∨ c = 26#8) := by
  rw [Line.echo, if_pos hecho]
  split_ifs
  · exact ⟨[10#8, 13#8], rfl, by decide, by decide, fun h => absurd h (by decide)⟩
  · refine ⟨[94#8, c + 64#8], rfl, by simp, by simp, fun h => Or.inr ?_⟩
    have h90 : c + 64#8 = 90#8 := by simpa [eq_comm] using h
    rw [← BitVec.add_sub_cancel c 64#8, h90]
    rfl
  · exact ⟨[], rfl, by decide, by simp, fun h => absurd h List.not_mem_nil⟩
  · exact ⟨[c], rfl, by simp, by simp, fun h => Or.inl (List.mem_singleton.mp h).symm⟩

/-- The frames of the echo of a character that is rubbed out. -/
theorem rubOut_eq_put (t : Line) (hecho : t.termios.echo = true) :
    ∃ es : List Byte, t.rubOut = es.map Frame.putWrite ++ [.write, .dec] ∧ es.length ≤ 1023 ∧
      ∀ c ∈ es, c ≠ 90#8 := by
  rw [Line.rubOut, if_pos hecho]
  split_ifs
  · exact ⟨[127#8, 127#8], rfl, by decide, by decide⟩
  · exact ⟨[127#8], rfl, by decide, by decide⟩

/-- The echo of a character that is rubbed out asks nothing. -/
theorem echoed_rubOut {z : ℕ} (hd : d.console = true) (hs : s.stack = s.line.rubOut ++ st)
    (h : Ready d z s) (hne : s.line.secondary.chars ≠ 0) :
    ∃ s', Feeding d s s' ∧ Echoed d s st s' ∧ s'.line.readQ = s.line.readQ ∧
      s'.line.secondary.chars + 1 = s.line.secondary.chars := by
  obtain ⟨es, hes, hroom, hno⟩ := rubOut_eq_put s.line h.echo
  rw [hes, List.append_assoc] at hs
  obtain ⟨s₁, h₁, hwritten | ⟨hmem, -⟩⟩ := written_echo hd hs h.writeQ h.empty hroom
    fun c hc => hno c (List.dropLast_subset es hc)
  · have hech := hwritten.echoed h
    have hsec : s₁.line.secondary = s.line.secondary := hwritten.readQ.2
    have hdec := fed_other (d := d) hech.stack (by rintro nr ⟨⟩)
    rw [Device.exec] at hdec
    have hnext : Echoed d s₁ st { s₁ with
        line := { s₁.line with secondary := s₁.line.secondary.decHead }, stack := st } :=
      ⟨rfl, ⟨[], Took.same rfl rfl rfl rfl⟩, hech.writeQ, hech.empty, hech.readQ,
        hech.secondary.decHead, le_rfl⟩
    refine ⟨_, h₁.trans hdec, hech.trans hnext, hwritten.readQ.1, ?_⟩
    dsimp only
    rw [hsec, Queue.chars_decHead h.secondary hne]
    omega
  · exact absurd rfl (hno _ hmem)

/-- A line is killed with an echo: the induction is on what is in the queue. -/
theorem echoed_kill {z : ℕ} (hd : d.console = true) (hs : s.stack = .kill :: st)
    (h : Ready d z s) (hn : s.line.secondary.chars = n) :
    ∃ s', Feeding d s s' ∧ Echoed d s st s' ∧ s'.line.readQ = s.line.readQ := by
  induction n generalizing s with
  | zero =>
    have hend : s.line.atEnd := Or.inl ((Queue.empty_iff h.secondary).mpr hn)
    refine ⟨_, fed_other hs (by rintro nr ⟨⟩), ?_, rfl⟩
    rw [Device.exec, if_pos hend]
    exact ⟨rfl, ⟨[], Took.same rfl rfl rfl rfl⟩, h.writeQ, h.empty, h.readQ, h.secondary, le_rfl⟩
  | succ n ih =>
    have hone := fed_other (d := d) hs (by rintro nr ⟨⟩)
    rw [Device.exec] at hone
    by_cases hend : s.line.atEnd
    · rw [if_pos hend] at hone
      exact ⟨_, hone, ⟨rfl, ⟨[], Took.same rfl rfl rfl rfl⟩, h.writeQ, h.empty, h.readQ,
        h.secondary, le_rfl⟩, rfl⟩
    · rw [if_neg hend, List.append_assoc] at hone
      have hfirst : Echoed d s (s.line.rubOut ++ ([.kill] ++ st))
          { s with stack := s.line.rubOut ++ ([.kill] ++ st) } :=
        ⟨rfl, ⟨[], Took.same rfl rfl rfl rfl⟩, h.writeQ, h.empty, h.readQ, h.secondary, le_rfl⟩
      obtain ⟨s₁, h₁, hech₁, hread₁, hchars⟩ := echoed_rubOut hd hfirst.stack (hfirst.ready h)
        (by change s.line.secondary.chars ≠ 0; omega)
      have hall := hfirst.trans hech₁
      change s₁.line.secondary.chars + 1 = s.line.secondary.chars at hchars
      obtain ⟨s', h', hech, hread⟩ := ih hall.stack (hall.ready h) (by omega)
      exact ⟨s', (hone.trans h₁).trans h', hall.trans hech, hread.trans hread₁⟩

/-- **What a call of `copy_to_cooked` comes to**, when at most `z` of the characters to read may
ask. -/
def Copies (d : Device) (z : ℕ) : Prop :=
  ∀ (s : Sys) (st : List Frame), s.stack = .cooked :: st → Ready d z s →
    ∃ s', Feeding d s s' ∧ Echoed d s st s'

/-- **A character is echoed and stored**; if the console is asked, it replies in between. -/
theorem echoed_store {z : ℕ} (hd : d.console = true) (hctype : d.Ctype)
    (hs : s.stack = s.line.echo c ++ .putSecondary c :: st) (h : Ready d z s)
    (hcopies : c = 90#8 ∨ c = 26#8 → Copies d z) :
    ∃ s', Feeding d s s' ∧ Echoed d s st s' ∧
      ((c = 90#8 ∨ c = 26#8) ∨ s'.line.readQ = s.line.readQ) := by
  obtain ⟨es, hes, hroom, hno, hask⟩ := echo_eq s.line h.echo c
  rw [hes, List.append_assoc] at hs
  have hput : ∀ s₁, Feeding d s s₁ → Echoed d s (.putSecondary c :: st) s₁ →
      ∃ s', Feeding d s s' ∧ Echoed d s st s' ∧ s'.line.readQ = s₁.line.readQ := by
    intro s₁ h₁ hech
    have hnext : Echoed d s₁ st (d.exec st s₁ (.putSecondary c)) :=
      ⟨rfl, ⟨[], Took.same rfl rfl rfl rfl⟩, hech.writeQ, hech.empty, hech.readQ,
        hech.secondary.putch, le_rfl⟩
    exact ⟨_, h₁.trans (fed_other hech.stack (by rintro nr ⟨⟩)), hech.trans hnext, rfl⟩
  obtain ⟨s₁, h₁, hwritten | ⟨hmem, hwritten⟩⟩ := written_echo hd hs h.writeQ h.empty hroom hno
  · obtain ⟨s', h', hech, hread⟩ := hput s₁ h₁ (hwritten.echoed h)
    exact ⟨s', h', hech, Or.inr (hread.trans hwritten.readQ.1)⟩
  · have hech₁ := hwritten.echoed h
    have hready₁ := hech₁.ready h
    obtain ⟨s₂, h₂, hsilent, -, hread⟩ := silent_respond (d := d) hech₁.stack hready₁.readQ
      hready₁.secondary
    have hech₂ := hech₁.trans (hsilent.echoed hready₁ (by
      rw [hread]
      exact countP_foldl_put _ _ (asks_response hctype _) _))
    obtain ⟨s₃, h₃, hech₃⟩ := hcopies (hask hmem) s₂ _ hech₂.stack (hech₂.ready h)
    have hall := hech₂.trans hech₃
    -- the call of `con_write` that has been replied in is over
    have hover : Echoed d s₃ (.putSecondary c :: st)
        (d.exec (.putSecondary c :: st) s₃ (.conWrite 0)) :=
      ⟨rfl, ⟨[], Took.same rfl rfl rfl rfl⟩, hall.writeQ, hall.empty, hall.readQ, hall.secondary,
        le_rfl⟩
    obtain ⟨s', h', hech, -⟩ := hput _
      (((h₁.trans h₂).trans h₃).trans (fed_one hall.stack (by rintro nr ⟨⟩)))
      (hall.trans hover)
    exact ⟨s', h', hech, Or.inl (hask hmem)⟩

/-- **What is done with a character**, once the same is known of fewer that may ask. -/
theorem echoed_handle {z : ℕ} (hd : d.console = true) (hctype : d.Ctype)
    (hs : s.stack = .handle b :: st) (h : Ready d z s)
    (hcopies : d.asks s.line.termios b = true → Copies d z) :
    ∃ s', Feeding d s s' ∧ Echoed d s st s' ∧
      (d.asks s.line.termios b = true ∨ s'.line.readQ = s.line.readQ) := by
  have hone := fed_other (d := d) hs (by rintro nr ⟨⟩)
  rw [Device.exec, Device.handle] at hone
  cases htr : d.translate s.line.termios b with
  | none =>
    rw [htr] at hone
    exact ⟨_, hone, ⟨rfl, ⟨[], Took.same rfl rfl rfl rfl⟩, h.writeQ, h.empty, h.readQ, h.secondary,
      le_rfl⟩, Or.inr rfl⟩
  | some c =>
    have hask : c = 90#8 ∨ c = 26#8 → d.asks s.line.termios b = true := fun hc => by
      rw [Device.asks, htr]
      simpa using hc
    rw [htr] at hone
    dsimp only at hone
    rw [Line.cook] at hone
    split_ifs at hone with hkill herase hend hstop hstart hsig hline
    · have hfirst : Echoed d s (.kill :: st) { s with stack := .kill :: st } :=
        ⟨rfl, ⟨[], Took.same rfl rfl rfl rfl⟩, h.writeQ, h.empty, h.readQ, h.secondary, le_rfl⟩
      obtain ⟨s', h', hech, hread⟩ := echoed_kill hd hfirst.stack (hfirst.ready h) rfl
      exact ⟨s', hone.trans h', hfirst.trans hech, Or.inr hread⟩
    · exact ⟨_, hone, ⟨rfl, ⟨[], Took.same rfl rfl rfl rfl⟩, h.writeQ, h.empty, h.readQ,
        h.secondary, le_rfl⟩, Or.inr rfl⟩
    · have hfirst : Echoed d s (s.line.rubOut ++ st) { s with stack := s.line.rubOut ++ st } :=
        ⟨rfl, ⟨[], Took.same rfl rfl rfl rfl⟩, h.writeQ, h.empty, h.readQ, h.secondary, le_rfl⟩
      have hne : s.line.secondary.chars ≠ 0 := fun h0 =>
        hend (Or.inl ((Queue.empty_iff h.secondary).mpr h0))
      obtain ⟨s', h', hech, hread, -⟩ := echoed_rubOut hd hfirst.stack (hfirst.ready h) hne
      exact ⟨s', hone.trans h', hfirst.trans hech, Or.inr hread⟩
    · exact ⟨_, hone, ⟨rfl, ⟨[], Took.same rfl rfl rfl rfl⟩, h.writeQ, h.empty, h.readQ,
        h.secondary, le_rfl⟩, Or.inr rfl⟩
    · exact ⟨_, hone, ⟨rfl, ⟨[], Took.same rfl rfl rfl rfl⟩, h.writeQ, h.empty, h.readQ,
        h.secondary, le_rfl⟩, Or.inr rfl⟩
    · exact ⟨_, hone, ⟨rfl, ⟨[], Took.same rfl rfl rfl rfl⟩, h.writeQ, h.empty, h.readQ,
        h.secondary, le_rfl⟩, Or.inr rfl⟩
    all_goals
      rw [List.append_assoc] at hone
    · have hq' : Queue.Ok { s.line.secondary with data := s.line.secondary.data + 1#32 } :=
        ⟨h.secondary.head, h.secondary.tail⟩
      have hfirst : Echoed d s (s.line.echo c ++ ([.putSecondary c] ++ st)) { s with
          line := { s.line with
            secondary := { s.line.secondary with data := s.line.secondary.data + 1#32 } }
          stack := s.line.echo c ++ ([.putSecondary c] ++ st) } :=
        ⟨rfl, ⟨[], Took.same rfl rfl rfl rfl⟩, h.writeQ, h.empty, h.readQ, hq', le_rfl⟩
      obtain ⟨s', h', hech, hread⟩ := echoed_store hd hctype hfirst.stack (hfirst.ready h)
        fun hc => hcopies (hask hc)
      exact ⟨s', hone.trans h', hfirst.trans hech, hread.imp_left hask⟩
    · have hfirst : Echoed d s (s.line.echo c ++ ([.putSecondary c] ++ st)) { s with
          stack := s.line.echo c ++ ([.putSecondary c] ++ st) } :=
        ⟨rfl, ⟨[], Took.same rfl rfl rfl rfl⟩, h.writeQ, h.empty, h.readQ, h.secondary, le_rfl⟩
      obtain ⟨s', h', hech, hread⟩ := echoed_store hd hctype hfirst.stack (hfirst.ready h)
        fun hc => hcopies (hask hc)
      exact ⟨s', hone.trans h', hfirst.trans hech, hread.imp_left hask⟩

/-- **A call of `copy_to_cooked`** comes to an end, and what it has put is taken: the induction is
on how many characters may ask, and between two of them on how many there are to read. -/
theorem copies (hd : d.console = true) (hctype : d.Ctype) (z : ℕ) : Copies d z := by
  induction z using Nat.strong_induction_on with
  | _ z ihz =>
    intro s st hs h
    obtain ⟨n, hn⟩ : ∃ n, s.line.readQ.contents.length = n := ⟨_, rfl⟩
    induction n using Nat.strong_induction_on generalizing s with
    | _ n ihn =>
      have hpop : s.line.cookedUp → ∃ s', Feeding d s s' ∧ Echoed d s st s' := by
        intro hcook
        refine ⟨_, fed_other hs (by rintro nr ⟨⟩), ?_⟩
        rw [Device.exec, if_pos hcook]
        exact ⟨rfl, ⟨[], Took.same rfl rfl rfl rfl⟩, h.writeQ, h.empty, h.readQ, h.secondary,
          le_rfl⟩
      cases hread : s.line.readQ.contents with
      | nil => exact hpop (Or.inl ((Queue.contents_eq_nil_iff h.readQ).mp hread))
      | cons b r =>
        by_cases hfull : s.line.secondary.Full
        · exact hpop (Or.inr hfull)
        obtain ⟨s₁, h₁, hsilent, hline, hread₁⟩ := silent_take (d := d) hs h.readQ h.secondary hfull
          hread
        have hech₁ := hsilent.echoed (d := d) h (by
          rw [hread₁, hread, List.countP_cons]
          exact Nat.le_add_right _ _)
        have ht := hech₁.termios
        by_cases hask : d.asks s.line.termios b = true
        · -- one that may ask is gone
          have hz := h.asks
          rw [hread, List.countP_cons_of_pos hask] at hz
          have hready₁ : Ready d (z - 1) s₁ := by
            obtain ⟨hecho, hw, he, hr, hq, -⟩ := hech₁.ready h
            refine ⟨hecho, hw, he, hr, hq, ?_⟩
            rw [hread₁, ht]
            omega
          obtain ⟨s₂, h₂, hech₂, -⟩ := echoed_handle hd hctype hech₁.stack hready₁ fun _ =>
            ihz (z - 1) (by omega)
          obtain ⟨s', h', hech'⟩ := ihz (z - 1) (by omega) s₂ st hech₂.stack (hech₂.ready hready₁)
          exact ⟨s', (h₁.trans h₂).trans h', (hech₁.trans hech₂).trans hech'⟩
        · have hready₁ := hech₁.ready h
          obtain ⟨s₂, h₂, hech₂, hsame⟩ := echoed_handle hd hctype hech₁.stack hready₁ fun h =>
            absurd (ht ▸ h) hask
          have hread₂ := hsame.resolve_left fun h => hask (ht ▸ h)
          rw [hread, List.length_cons] at hn
          obtain ⟨s', h', hech'⟩ := ihn r.length (by omega) s₂ hech₂.stack (hech₂.ready hready₁)
            (by rw [hread₂, hread₁])
          exact ⟨s', (h₁.trans h₂).trans h', (hech₁.trans hech₂).trans hech'⟩

/-! ### The queue is drained -/

theorem atEnd_congr {t t' : Line} (ht : t'.termios = t.termios) (hq : t'.secondary = t.secondary) :
    t'.atEnd ↔ t.atEnd := by
  rw [Line.atEnd, Line.atEnd, ht, hq]

/-- Only the settings and the secondary queue make a difference. -/
theorem passes_congr {t t' : Line} (ht : t'.termios = t.termios)
    (hq : t'.secondary = t.secondary) (b : Byte) : d.Passes t' b ↔ d.Passes t b := by
  rw [Device.Passes, Device.Passes, ht]
  refine forall₂_congr fun c _ => ?_
  rw [Line.Skips, Line.Skips, ht, atEnd_congr ht hq]

/-- **The characters of the queue have been taken**, and what was echoed after them. -/
structure Drained (s : Sys) (st : List Frame) (l : List Byte) (s' : Sys) : Prop where
  stack : s'.stack = st
  took : ∃ es, Took s es (l ++ es) s'
  writeQ : s'.line.writeQ.Ok
  empty : s'.line.writeQ.contents = []

/-- A character has been taken before. -/
theorem Drained.cons (ht : Took s [] [b] s') (h : Drained s' st l s'') :
    Drained s st (b :: l) s'' := by
  obtain ⟨es, htook⟩ := h.took
  exact ⟨h.stack, ⟨es, ht.trans htook⟩, h.writeQ, h.empty⟩

theorem drained_nil (hs : s.stack = .conWrite 0 :: st) (hw : s.line.writeQ.Ok)
    (hl : s.line.writeQ.contents = []) : ∃ s', Feeding d s s' ∧ Drained s st [] s' :=
  ⟨_, fed_one hs (by rintro _ ⟨⟩), rfl, ⟨[], Took.same rfl rfl rfl rfl⟩, hw, hl⟩

/-- **Without echo, or with no room** in the secondary queue. -/
theorem drained_hushed (hs : s.stack = .conWrite l.length :: st)
    (hhush : s.line.termios.echo = false ∨ s.line.secondary.Full) (hw : s.line.writeQ.Ok)
    (hl : s.line.writeQ.contents = l) (hr : s.line.readQ.Ok) (hq : s.line.secondary.Ok) :
    ∃ s', Feeding d s s' ∧ Drained s st l s' := by
  induction l generalizing s with
  | nil => exact drained_nil hs hw hl
  | cons b l ih =>
    rw [List.length_cons] at hs
    obtain ⟨s₁, h₁, hwritten⟩ := written_take (d := d) hs hw hl
    obtain ⟨hread₁, hsec₁⟩ := hwritten.readQ
    have ht₁ := hwritten.took.termios
    by_cases hask : s.con.ctl.state = 1 ∧ b = 90#8
    · rw [if_pos hask] at hwritten
      obtain ⟨s₂, h₂, hsilent, hsec₂, -⟩ := silent_respond (d := d) hwritten.stack (hread₁ ▸ hr)
        (hsec₁ ▸ hq)
      have ht₂ : s₂.line.termios = s.line.termios := hsilent.took.termios.trans ht₁
      have hcopy : ∃ s₃, Feeding d s₂ s₃ ∧ Silent s₂ (.conWrite l.length :: st) s₃ ∧
          (s₃.line.termios.echo = false ∨ s₃.line.secondary.Full) := by
        rcases hhush with hecho | hfull
        · have hecho₂ : s₂.line.termios.echo = false := ht₂ ▸ hecho
          obtain ⟨s₃, h₃, hsilent₃⟩ := silent_echoless (d := d) hsilent.stack hecho₂ hsilent.readQ
            hsilent.secondary rfl
          exact ⟨s₃, h₃, hsilent₃, Or.inl (hsilent₃.took.termios ▸ hecho₂)⟩
        · have hfull₂ : s₂.line.secondary.Full := by rwa [hsec₂, hsec₁]
          obtain ⟨s₃, h₃, hsilent₃, hline⟩ := silent_full (d := d) hsilent.stack hsilent.readQ
            hsilent.secondary hfull₂
          exact ⟨s₃, h₃, hsilent₃, Or.inr (hline ▸ hfull₂)⟩
      obtain ⟨s₃, h₃, hsilent₃, hhush₃⟩ := hcopy
      have hall := hsilent.trans hsilent₃
      obtain ⟨s', h', hdrained⟩ := ih hall.stack hhush₃ (hall.writeQ ▸ hwritten.ok)
        (by rw [hall.writeQ, hwritten.contents]) hall.readQ hall.secondary
      exact ⟨s', ((h₁.trans h₂).trans h₃).trans h', hdrained.cons (hwritten.took.trans hall.took)⟩
    · rw [if_neg hask] at hwritten
      obtain ⟨s', h', hdrained⟩ := ih hwritten.stack (by rwa [ht₁, hsec₁]) hwritten.ok
        hwritten.contents (hread₁ ▸ hr) (hsec₁ ▸ hq)
      exact ⟨s', h₁.trans h', hdrained.cons hwritten.took⟩

/-- **No request leads to an echo before the end.** -/
theorem drained_undisturbed (hd : d.console = true) (hctype : d.Ctype)
    (hs : s.stack = .conWrite l.length :: st) (hecho : s.line.termios.echo = true)
    (hfull : ¬s.line.secondary.Full) (hw : s.line.writeQ.Ok) (hl : s.line.writeQ.contents = l)
    (hr : s.line.readQ.Ok) (hq : s.line.secondary.Ok) (ht : s.line.termios = t.termios)
    (hsec : s.line.secondary = t.secondary)
    (h : d.Undisturbed t l s.con s.line.readQ.contents) :
    ∃ s', Feeding d s s' ∧ Drained s st l s' := by
  induction l generalizing s with
  | nil => exact drained_nil hs hw hl
  | cons b l ih =>
    rw [List.length_cons] at hs
    obtain ⟨s₁, h₁, hwritten⟩ := written_take (d := d) hs hw hl
    obtain ⟨hread₁, hsec₁⟩ := hwritten.readQ
    have ht₁ := hwritten.took.termios
    have hcon₁ : s₁.con = s.con.conChar t.termios.erase b := by
      rw [hwritten.took.con, ← ht]
      rfl
    rw [Device.Undisturbed, ← hcon₁] at h
    by_cases hask : s.con.ctl.state = 1 ∧ b = 90#8
    · rw [if_pos hask] at hwritten h
      obtain ⟨s₂, h₂, hsilent, hsec₂, hread₂⟩ := silent_respond (d := d) hwritten.stack
        (hread₁ ▸ hr) (hsec₁ ▸ hq)
      have hrun := h₁.trans h₂
      have ht₂ : s₂.line.termios = s.line.termios := hsilent.took.termios.trans ht₁
      have hsec₂' : s₂.line.secondary = s.line.secondary := hsec₂.trans hsec₁
      have htook := hwritten.took.trans hsilent.took
      rcases h with rfl | ⟨hpass, hrest⟩
      · -- the request is the last of the queue, which is empty when the echo begins
        have hready : Ready d _ s₂ := ⟨ht₂ ▸ hecho, hsilent.writeQ ▸ hwritten.ok,
          by rw [hsilent.writeQ, hwritten.contents], hsilent.readQ, hsilent.secondary, le_rfl⟩
        obtain ⟨s₃, h₃, hech⟩ := copies hd hctype _ s₂ _ hsilent.stack hready
        obtain ⟨es, hes⟩ := hech.took
        have hpop := fed_one (d := d) hech.stack (by rintro nr ⟨⟩)
        refine ⟨_, (hrun.trans h₃).trans hpop, rfl, ⟨es, ?_⟩, hech.writeQ, hech.empty⟩
        have hall := htook.trans hes
        exact ⟨hall.entered, hall.left, hall.con, hall.termios⟩
      · obtain ⟨s₃, h₃, hsilent₃, hsec₃, hread₃⟩ := silent_passes (d := d) hsilent.stack
          hsilent.readQ hsilent.secondary (hsec₂' ▸ hfull) (hread₂.trans (by rw [hread₁]))
          fun c hc => (passes_congr (ht₂.trans ht) (hsec₂'.trans hsec) c).mpr (hpass c hc)
        have hall := hsilent.trans hsilent₃
        have ht₃ : s₃.line.termios = s.line.termios := hsilent₃.took.termios.trans ht₂
        have hsec₃' : s₃.line.secondary = s.line.secondary := hsec₃.trans hsec₂'
        have hcon₃ : s₃.con = s₁.con := hall.took.con
        obtain ⟨s', h', hdrained⟩ := ih hall.stack (ht₃ ▸ hecho) (hsec₃' ▸ hfull)
          (hall.writeQ ▸ hwritten.ok) (by rw [hall.writeQ, hwritten.contents]) hall.readQ
          hall.secondary (ht₃.trans ht) (hsec₃'.trans hsec) (by rw [hread₃, hcon₃]; exact hrest)
        exact ⟨s', (hrun.trans h₃).trans h', hdrained.cons (htook.trans hsilent₃.took)⟩
    · rw [if_neg hask] at hwritten h
      obtain ⟨s', h', hdrained⟩ := ih hwritten.stack (ht₁ ▸ hecho) (hsec₁ ▸ hfull) hwritten.ok
        hwritten.contents (hread₁ ▸ hr) (hsec₁ ▸ hq) (ht₁.trans ht) (hsec₁.trans hsec)
        (by rw [hread₁]; exact h)
      exact ⟨s', h₁.trans h', hdrained.cons hwritten.took⟩

/-! ### An echo in the middle of the queue -/

/-- A `PUTCH` of an echo is followed by a call of `write`. -/
def Closing : List Frame → Prop
  | [] => True
  | f :: fs => ((∃ c, f = .putWrite c) → .write ∈ fs) ∧ Closing fs

/-- **More is claimed than there is**: on top of a call of `con_write` that has something left to
take there is another that takes all, or is going to be. -/
structure Over (m : ℕ) (st : List Frame) (s : Sys) (top : List Frame) : Prop where
  stack : s.stack = top ++ .conWrite (m + 1) :: st
  inside : ∀ f ∈ top, ¬f.Process
  closing : Closing top
  claims : .write ∈ top ∨ s.line.writeQ.chars ≤ total Frame.claims top
  ok : s.line.writeQ.Ok

theorem Closing.append {fs gs : List Frame} (h : Closing fs) (h' : Closing gs) :
    Closing (fs ++ gs) := by
  induction fs with
  | nil => exact h'
  | cons f fs ih =>
    exact ⟨fun hf => List.mem_append_left _ (h.1 hf), ih h.2⟩

theorem closing_map_append {fs : List Frame} (hmem : .write ∈ fs) (h : Closing fs)
    (es : List Byte) : Closing (es.map Frame.putWrite ++ fs) := by
  induction es with
  | nil => exact h
  | cons c es ih => exact ⟨fun _ => List.mem_append_right _ hmem, ih⟩

/-- Frames that leave the write queue alone. -/
def Frame.Apart : Frame → Prop
  | .cooked | .getRead | .handle _ | .putSecondary _ | .kill | .dec | .respond => True
  | _ => False

theorem closing_of_apart {fs : List Frame} (h : ∀ f ∈ fs, f.Apart) : Closing fs := by
  induction fs with
  | nil => trivial
  | cons f fs ih =>
    refine ⟨?_, ih fun g hg => h g (List.mem_cons_of_mem _ hg)⟩
    rintro ⟨c, rfl⟩
    exact (h _ List.mem_cons_self).elim

/-- What `copy_to_cooked` puts on the stack is closed. -/
structure Closed (fs : List Frame) : Prop where
  closing : Closing fs
  inside : ∀ f ∈ fs, ¬f.Process

theorem Closed.append {fs gs : List Frame} (h : Closed fs) (h' : Closed gs) :
    Closed (fs ++ gs) := by
  refine ⟨h.closing.append h'.closing, fun f hf => ?_⟩
  rcases List.mem_append.mp hf with hf | hf
  · exact h.inside f hf
  · exact h'.inside f hf

theorem closed_of_apart {fs : List Frame} (h : ∀ f ∈ fs, f.Apart) : Closed fs := by
  refine ⟨closing_of_apart h, fun f hf hp => ?_⟩
  have := h f hf
  cases f <;> first | exact hp | exact this

theorem closed_sends (es : List Byte) : Closed (es.map Frame.putWrite ++ [.write]) := by
  have hwrite : Closing [.write] := by
    refine ⟨?_, trivial⟩
    rintro ⟨c, hc⟩
    cases hc
  constructor
  · exact closing_map_append List.mem_cons_self hwrite es
  · intro f hf hp
    rcases List.mem_append.mp hf with hf | hf
    · obtain ⟨c, -, rfl⟩ := List.mem_map.mp hf
      exact hp
    · rw [List.mem_singleton.mp hf] at hp
      exact hp

theorem closed_echo (t : Line) (c : Byte) : Closed (t.echo c) := by
  by_cases hecho : t.termios.echo = true
  · obtain ⟨es, hes, -⟩ := echo_eq t hecho c
    rw [hes]
    exact closed_sends es
  · rw [Line.echo, if_neg hecho]
    exact closed_of_apart fun f hf => absurd hf List.not_mem_nil

theorem closed_rubOut (t : Line) : Closed t.rubOut := by
  have hdec : Closed [.dec] := closed_of_apart fun f hf => by
    rw [List.mem_singleton.mp hf]
    trivial
  by_cases hecho : t.termios.echo = true
  · obtain ⟨es, hes, -⟩ := rubOut_eq_put t hecho
    have hsplit : t.rubOut = es.map Frame.putWrite ++ [.write] ++ [.dec] := by
      rw [hes, List.append_assoc]
      rfl
    rw [hsplit]
    exact (closed_sends es).append hdec
  · rw [Line.rubOut, if_neg hecho]
    exact hdec

theorem closed_handle (d : Device) (t : Line) (b : Byte) : Closed (d.handle t b).2 := by
  have hnil : Closed [] := closed_of_apart fun f hf => absurd hf List.not_mem_nil
  rw [Device.handle]
  cases d.translate t.termios b with
  | none => exact hnil
  | some c =>
    dsimp only
    rw [Line.cook]
    split_ifs
    · exact closed_of_apart fun f hf => by
        rw [List.mem_singleton.mp hf]
        trivial
    · exact hnil
    · exact closed_rubOut t
    · exact hnil
    · exact hnil
    · exact hnil
    all_goals
      exact (closed_echo t c).append (closed_of_apart fun f hf => by
        rw [List.mem_singleton.mp hf]
        trivial)

/-- The frames of a round claim nothing. -/
theorem claims_handle (d : Device) (t : Line) (b : Byte) :
    total Frame.claims (d.handle t b).2 = 0 :=
  (handle_spec d t b).1.total_eq_zero fun _ => Frame.Round.claims

/-- **More is claimed than there is**, as long as the queue is never found empty. -/
theorem Over.fed {m : ℕ} {top : List Frame} (hd : d.console = true) (h : Over m st s top)
    (hfed : Fed d s s') : ∃ top', Over m st s' top' := by
  obtain @⟨f, st', hs, hne⟩ := hfed
  obtain ⟨hstack, hinside, hclosing, hclaims, hok⟩ := h
  cases top with
  | nil =>
    -- the outer call goes on, and there is nothing left
    obtain ⟨rfl, rfl⟩ := List.cons.inj (hs.symm.trans hstack)
    rcases hclaims with hmem | hle
    · exact absurd hmem List.not_mem_nil
    · exact absurd ((Queue.empty_iff hok).mpr (Nat.le_zero.mp hle)) (hne m rfl)
  | cons g top =>
    obtain ⟨rfl, rfl⟩ := List.cons.inj (hs.symm.trans hstack)
    obtain ⟨hhead, hclosing⟩ := hclosing
    rw [List.forall_mem_cons] at hinside
    obtain ⟨hg, hinside⟩ := hinside
    rw [total_cons] at hclaims
    -- an operation that leaves the write queue alone and has frames `fs` to do next
    have hapart : ∀ fs, f.claims = 0 → f ≠ .write → Closed fs → total Frame.claims fs = 0 →
        (d.exec (top ++ .conWrite (m + 1) :: st) s f).stack =
          fs ++ (top ++ .conWrite (m + 1) :: st) →
        (d.exec (top ++ .conWrite (m + 1) :: st) s f).line.writeQ = s.line.writeQ →
        ∃ top', Over m st (d.exec (top ++ .conWrite (m + 1) :: st) s f) top' := by
      intro fs hzero hnot hfs hfszero hst hq
      refine ⟨fs ++ top, ?_, ?_, hfs.closing.append hclosing, ?_, hq ▸ hok⟩
      · rw [hst, List.append_assoc]
      · intro g hg'
        rcases List.mem_append.mp hg' with hg' | hg'
        · exact hfs.inside g hg'
        · exact hinside g hg'
      · rw [hq, total_append, hfszero]
        rcases hclaims with hmem | hle
        · rcases List.mem_cons.mp hmem with heq | hmem
          · exact absurd heq.symm hnot
          · exact Or.inl (List.mem_append_right _ hmem)
        · rw [hzero] at hle
          exact Or.inr hle
    have hnil : Closed [] := closed_of_apart fun f hf => absurd hf List.not_mem_nil
    cases f with
    | cooked =>
      by_cases hcook : s.line.cookedUp
      · refine hapart [] rfl (by rintro ⟨⟩) hnil rfl ?_ rfl
        rw [Device.exec, if_pos hcook]
      · refine hapart [.getRead, .cooked] rfl (by rintro ⟨⟩) (closed_of_apart ?_) rfl ?_ rfl
        · simp [Frame.Apart]
        · rw [Device.exec, if_neg hcook]
    | getRead =>
      refine hapart [.handle s.line.readQ.front] rfl (by rintro ⟨⟩) (closed_of_apart ?_) rfl
        rfl rfl
      simp [Frame.Apart]
    | handle c =>
      refine hapart _ rfl (by rintro ⟨⟩) (closed_handle d s.line c) (claims_handle d s.line c)
        rfl ?_
      obtain ⟨-, b, n, hline⟩ := handle_spec d s.line c
      rw [Device.exec, hline]
    | putWrite c =>
      have hmem := hhead ⟨c, rfl⟩
      exact ⟨top, rfl, hinside, hclosing, Or.inl hmem, hok.putch⟩
    | write =>
      have hst : (d.exec (top ++ .conWrite (m + 1) :: st) s .write).stack =
          .conWrite s.line.writeQ.chars :: (top ++ .conWrite (m + 1) :: st) := by
        rw [Device.exec, if_pos hd]
        rfl
      refine ⟨.conWrite s.line.writeQ.chars :: top, hst, ?_, ⟨?_, hclosing⟩, Or.inr ?_, hok⟩
      · exact List.forall_mem_cons.mpr ⟨fun h => h, hinside⟩
      · rintro ⟨c, hc⟩
        cases hc
      · rw [total_cons]
        exact Nat.le_add_right _ _
    | putSecondary c => exact hapart [] rfl (by rintro ⟨⟩) hnil rfl rfl rfl
    | kill =>
      by_cases hend : s.line.atEnd
      · refine hapart [] rfl (by rintro ⟨⟩) hnil rfl ?_ rfl
        rw [Device.exec, if_pos hend]
      · have hkill : Closed [.kill] := closed_of_apart fun f hf => by
          rw [List.mem_singleton.mp hf]
          trivial
        refine hapart (s.line.rubOut ++ [.kill]) rfl (by rintro ⟨⟩)
          ((closed_rubOut s.line).append hkill) ?_ ?_ rfl
        · rw [total_append, (rounds_rubOut s.line).total_eq_zero fun _ => Frame.Round.claims]
          rfl
        · rw [Device.exec, if_neg hend]
    | dec =>
      refine hapart [] rfl (by rintro ⟨⟩) hnil rfl ?_ ?_
      all_goals rw [Device.exec]
      rw [List.nil_append]
    | conWrite nr =>
      cases nr with
      | zero => exact hapart [] rfl (by rintro ⟨⟩) hnil rfl rfl rfl
      | succ nr =>
        have hchars : s.line.writeQ.chars ≠ 0 := fun h0 =>
          hne nr rfl ((Queue.empty_iff hok).mpr h0)
        have hget : (d.exec (top ++ .conWrite (m + 1) :: st) s (.conWrite (nr + 1))).line.writeQ =
            s.line.writeQ.getch := rfl
        refine ⟨(if s.asks then [.respond] else []) ++ .conWrite nr :: top, ?_, ?_, ?_, ?_,
          hget ▸ hok.getch⟩
        · rw [Device.exec, conWrite]
          simp
        · intro g hg'
          rcases List.mem_append.mp hg' with hg' | hg'
          · split at hg'
            · rw [List.mem_singleton.mp hg']
              exact fun h => h
            · exact absurd hg' List.not_mem_nil
          · rcases List.mem_cons.mp hg' with rfl | hg'
            · exact fun h => h
            · exact hinside g hg'
        · refine Closing.append (closing_of_apart fun g hg' => ?_) ⟨?_, hclosing⟩
          · split at hg'
            · rw [List.mem_singleton.mp hg']
              trivial
            · exact absurd hg' List.not_mem_nil
          · rintro ⟨c, hc⟩
            cases hc
        · have hcount := Queue.chars_getch hok hchars
          change _ ∨ s.line.writeQ.getch.chars ≤ _
          rw [hcount, total_append, total_cons]
          rcases hclaims with hmem | hle
          · rcases List.mem_cons.mp hmem with heq | hmem
            · cases heq
            · exact Or.inl (List.mem_append_right _ (List.mem_cons_of_mem _ hmem))
          · refine Or.inr ?_
            have hnr : (Frame.conWrite (nr + 1)).claims = nr + 1 := rfl
            have hnr' : (Frame.conWrite nr).claims = nr := rfl
            omega
    | respond =>
      obtain ⟨hline, -⟩ := foldl_putRead response s
      refine hapart [.cooked] rfl (by rintro ⟨⟩) (closed_of_apart ?_) rfl rfl ?_
      · simp [Frame.Apart]
      · rw [Device.exec]
        dsimp only
        rw [hline]
    | ttyWrite buf => exact absurd trivial hg
    | fetch b rest => exact absurd trivial hg
    | ttyRead nr => exact absurd trivial hg
    | getSecondary nr => exact absurd trivial hg

/-- **The outer call never returns** without having found the queue empty. -/
theorem Over.stuck {m : ℕ} {top : List Frame} (hd : d.console = true) (h : Over m st s top)
    (hrun : Feeding d s s') : s'.stack ≠ [] := by
  have hover : ∃ top', Over m st s' top' := by
    induction hrun with
    | refl => exact ⟨top, h⟩
    | tail _ hfed ih =>
      obtain ⟨top', h'⟩ := ih
      exact h'.fed hd hfed
  obtain ⟨top', h'⟩ := hover
  rw [h'.stack]
  simp

theorem write_mem_echo (t : Line) (hecho : t.termios.echo = true) (c : Byte) :
    .write ∈ t.echo c := by
  obtain ⟨es, hes, -⟩ := echo_eq t hecho c
  rw [hes]
  exact List.mem_append_right _ List.mem_cons_self

theorem write_mem_rubOut (t : Line) (hecho : t.termios.echo = true) : .write ∈ t.rubOut := by
  obtain ⟨es, hes, -⟩ := rubOut_eq_put t hecho
  rw [hes]
  exact List.mem_append_right _ List.mem_cons_self

/-- **A character that does not pass is echoed**, at once or when the line is killed. -/
theorem write_of_not_passes (hecho : t.termios.echo = true) (hp : ¬d.Passes t b) :
    .write ∈ (d.handle t b).2 ∨ d.handle t b = (t, [.kill]) ∧ ¬t.atEnd := by
  rw [Device.Passes, not_forall] at hp
  obtain ⟨c, hp⟩ := hp
  rw [Classical.not_imp] at hp
  obtain ⟨htr, hskip⟩ := hp
  rw [Device.handle, htr]
  dsimp only
  rw [Line.Skips] at hskip
  rw [Line.cook]
  split_ifs at hskip with hkill herase
  · rw [if_pos hkill]
    exact Or.inr ⟨rfl, hskip⟩
  · rw [if_neg hkill, if_pos herase, if_neg hskip]
    exact Or.inl (write_mem_rubOut t hecho)
  · obtain ⟨hflow, hsig⟩ := not_or.mp hskip
    rw [if_neg hkill, if_neg herase, if_neg fun h => hflow ⟨h.1, Or.inl h.2⟩,
      if_neg fun h => hflow ⟨h.1, Or.inr h.2⟩, if_neg hsig]
    exact Or.inl (List.mem_append_left _ (write_mem_echo t hecho c))

/-- **Such a character**, and there is something left to take for the call that has asked. -/
theorem over_of_handle {m : ℕ} (hs : s.stack = .handle b :: .cooked :: .conWrite (m + 1) :: st)
    (hecho : s.line.termios.echo = true) (hw : s.line.writeQ.Ok) (hp : ¬d.Passes s.line b) :
    ∃ s₁ top, Feeding d s s₁ ∧ Over m st s₁ top := by
  have hcooked : Closed [.cooked] := closed_of_apart fun f hf => by
    rw [List.mem_singleton.mp hf]
    trivial
  have hone := fed_other (d := d) hs (by rintro nr ⟨⟩)
  rcases write_of_not_passes hecho hp with hmem | ⟨hkill, hend⟩
  · have hclosed := (closed_handle d s.line b).append hcooked
    refine ⟨_, (d.handle s.line b).2 ++ [.cooked], hone, ?_, hclosed.inside, hclosed.closing,
      Or.inl (List.mem_append_left _ hmem), ?_⟩
    · rw [Device.exec, List.append_assoc]
      rfl
    · obtain ⟨-, stopped, n, hline⟩ := handle_spec d s.line b
      rw [Device.exec, hline]
      exact hw
  · rw [Device.exec, hkill] at hone
    have htwo := hone.trans (fed_other rfl (by rintro nr ⟨⟩))
    rw [Device.exec, if_neg hend] at htwo
    have hkilling : Closed [.kill] := closed_of_apart fun f hf => by
      rw [List.mem_singleton.mp hf]
      trivial
    have hclosed := ((closed_rubOut s.line).append hkilling).append hcooked
    refine ⟨_, s.line.rubOut ++ [.kill] ++ [.cooked], htwo, ?_, hclosed.inside, hclosed.closing,
      Or.inl ?_, hw⟩
    · simp
    · exact List.mem_append_left _ (List.mem_append_left _ (write_mem_rubOut s.line hecho))

/-- **No reply leads to an echo**, when there is something left to take and the call returns. -/
theorem passes_of_feeding {m : ℕ} (hd : d.console = true)
    (hs : s.stack = .cooked :: .conWrite (m + 1) :: st) (hecho : s.line.termios.echo = true)
    (hfull : ¬s.line.secondary.Full) (hw : s.line.writeQ.Ok) (hr : s.line.readQ.Ok)
    (hq : s.line.secondary.Ok) (hread : s.line.readQ.contents = r) (h : Feeding d s s')
    (hend : s'.stack = []) : ∀ b ∈ r, d.Passes s.line b := by
  induction r generalizing s with
  | nil => exact fun b hb => absurd hb List.not_mem_nil
  | cons b r ih =>
    obtain ⟨s₁, h₁, hsilent₁, hline₁, hread₁⟩ := silent_take (d := d) hs hr hq hfull hread
    have hrest₁ := h.rest hend h₁
    have ht₁ : s₁.line.termios = s.line.termios := by rw [hline₁]
    have hsec₁ : s₁.line.secondary = s.line.secondary := by rw [hline₁]
    by_cases hp : d.Passes s₁.line b
    · obtain ⟨s₂, h₂, hsilent₂, stopped, hline₂⟩ := silent_pass hsilent₁.stack hsilent₁.readQ
        hsilent₁.secondary hp
      have hall := hsilent₁.trans hsilent₂
      have ht₂ : s₂.line.termios = s.line.termios := hall.took.termios
      have hsec₂ : s₂.line.secondary = s.line.secondary := by rw [hline₂, ← hsec₁]
      have hlater := ih hall.stack (ht₂ ▸ hecho) (hsec₂ ▸ hfull) (hall.writeQ ▸ hw) hall.readQ
        hall.secondary (by rw [hline₂]; exact hread₁) (hrest₁.rest hend h₂)
      intro c hc
      rcases List.mem_cons.mp hc with rfl | hc
      · exact (passes_congr ht₁ hsec₁ c).mp hp
      · exact (passes_congr ht₂ hsec₂ c).mp (hlater c hc)
    · obtain ⟨s₂, top, h₂, hover⟩ := over_of_handle hsilent₁.stack (ht₁ ▸ hecho)
        (hsilent₁.writeQ ▸ hw) hp
      exact absurd hend (hover.stuck hd (hrest₁.rest hend h₂))

/-- **A call that returns has not been disturbed.** -/
theorem undisturbed_of_feeding (hd : d.console = true) (hs : s.stack = [.conWrite l.length])
    (hecho : s.line.termios.echo = true) (hfull : ¬s.line.secondary.Full) (hw : s.line.writeQ.Ok)
    (hl : s.line.writeQ.contents = l) (hr : s.line.readQ.Ok) (hq : s.line.secondary.Ok)
    (ht : s.line.termios = t.termios) (hsec : s.line.secondary = t.secondary)
    (h : Feeding d s s') (hend : s'.stack = []) :
    d.Undisturbed t l s.con s.line.readQ.contents := by
  induction l generalizing s with
  | nil => trivial
  | cons b l ih =>
    rw [List.length_cons] at hs
    obtain ⟨s₁, h₁, hwritten⟩ := written_take (d := d) hs hw hl
    obtain ⟨hread₁, hsec₁⟩ := hwritten.readQ
    have ht₁ := hwritten.took.termios
    have hrest₁ := h.rest hend h₁
    have hcon₁ : s₁.con = s.con.conChar t.termios.erase b := by
      rw [hwritten.took.con, ← ht]
      rfl
    rw [Device.Undisturbed, ← hcon₁]
    by_cases hask : s.con.ctl.state = 1 ∧ b = 90#8
    · rw [if_pos hask] at hwritten ⊢
      obtain ⟨s₂, h₂, hsilent, hsec₂, hread₂⟩ := silent_respond (d := d) hwritten.stack
        (hread₁ ▸ hr) (hsec₁ ▸ hq)
      rw [hread₁] at hread₂
      have hrest₂ := hrest₁.rest hend h₂
      have ht₂ : s₂.line.termios = s.line.termios := hsilent.took.termios.trans ht₁
      have hsec₂' : s₂.line.secondary = s.line.secondary := hsec₂.trans hsec₁
      cases l with
      | nil => exact Or.inl rfl
      | cons b' l =>
        have hpass := passes_of_feeding hd hsilent.stack (ht₂ ▸ hecho) (hsec₂' ▸ hfull)
          (hsilent.writeQ ▸ hwritten.ok) hsilent.readQ hsilent.secondary hread₂ hrest₂ hend
        obtain ⟨s₃, h₃, hsilent₃, hsec₃, hread₃⟩ := silent_passes (d := d) hsilent.stack
          hsilent.readQ hsilent.secondary (hsec₂' ▸ hfull) hread₂ hpass
        have hall := hsilent.trans hsilent₃
        have ht₃ : s₃.line.termios = s.line.termios := hsilent₃.took.termios.trans ht₂
        have hsec₃' : s₃.line.secondary = s.line.secondary := hsec₃.trans hsec₂'
        have hcon₃ : s₃.con = s₁.con := hall.took.con
        have hlater := ih hall.stack (ht₃ ▸ hecho) (hsec₃' ▸ hfull) (hall.writeQ ▸ hwritten.ok)
          (by rw [hall.writeQ, hwritten.contents]) hall.readQ hall.secondary (ht₃.trans ht)
          (hsec₃'.trans hsec) (hrest₂.rest hend h₃)
        rw [hread₃, hcon₃] at hlater
        exact Or.inr ⟨fun c hc => (passes_congr (ht₂.trans ht) (hsec₂'.trans hsec) c).mp
          (hpass c hc), hlater⟩
    · rw [if_neg hask] at hwritten ⊢
      have hlater := ih hwritten.stack (ht₁ ▸ hecho) (hsec₁ ▸ hfull) hwritten.ok hwritten.contents
        (hread₁ ▸ hr) (hsec₁ ▸ hq) (ht₁.trans ht) (hsec₁.trans hsec) hrest₁
      rw [hread₁] at hlater
      exact hlater

/-! ### A call of `con_write` -/

/-- The number of characters is looked at. -/
theorem written_write (hd : d.console = true) (hw : s.line.writeQ.Ok) (st : List Frame) :
    Written s (.conWrite s.line.writeQ.contents.length :: st) [] [] s.line.writeQ.contents
      (d.exec st s .write) := by
  refine ⟨?_, Took.same rfl rfl rfl rfl, ⟨_, rfl⟩, hw, rfl⟩
  rw [Device.exec, if_pos hd, Queue.length_contents]
  rfl

theorem consumedOnce_of_fine (hd : d.console = true) (hctype : d.Ctype) (hs : s.stack = [.write])
    (hw : s.line.writeQ.Ok) (hr : s.line.readQ.Ok) (hq : s.line.secondary.Ok) (h : d.Fine s) :
    ConsumedOnce d s := by
  have hone := fed_other (d := d) hs (by rintro nr ⟨⟩)
  have hwritten := written_write hd hw []
  have hdrain : ∃ s', Feeding d (d.exec [] s .write) s' ∧
      Drained (d.exec [] s .write) [] s.line.writeQ.contents s' := by
    by_cases hhush : s.line.termios.echo = false ∨ s.line.secondary.Full
    · exact drained_hushed hwritten.stack hhush hw rfl hr hq
    · obtain ⟨hecho, hfull⟩ := not_or.mp hhush
      rw [Bool.not_eq_false] at hecho
      rcases h with h | h | h
      · exact absurd (Or.inl h) hhush
      · exact absurd h hfull
      · exact drained_undisturbed hd hctype hwritten.stack hecho hfull hw rfl hr hq rfl rfl h
  obtain ⟨s', h', hstack, ⟨es, htook⟩, hok, hempty⟩ := hdrain
  have hall := hwritten.took.trans htook
  refine ⟨s', es, hone.trans h', hstack, (Queue.contents_eq_nil_iff hok).mp hempty, hall.entered,
    ?_, hall.con⟩
  rw [hall.left, List.append_assoc]
  rfl

theorem fine_of_feeding (hd : d.console = true) (hs : s.stack = [.write]) (hw : s.line.writeQ.Ok)
    (hr : s.line.readQ.Ok) (hq : s.line.secondary.Ok) (h : Feeding d s s')
    (hend : s'.stack = []) : d.Fine s := by
  have hone := fed_other (d := d) hs (by rintro nr ⟨⟩)
  have hwritten := written_write hd hw []
  by_cases hecho : s.line.termios.echo = false
  · exact Or.inl hecho
  by_cases hfull : s.line.secondary.Full
  · exact Or.inr (Or.inl hfull)
  rw [Bool.not_eq_false] at hecho
  have hu := undisturbed_of_feeding (t := s.line) hd hwritten.stack hecho hfull hw rfl hr hq rfl rfl
    (h.rest hend hone) hend
  exact Or.inr (Or.inr hu)

/-- **`con_write` consumes its queue once** if and only if there is no echo, or no room in the
secondary queue, or no request leads to an echo before the end of the queue. -/
theorem con_write_once (d : Device) (s : Sys) (hd : d.console = true) (hctype : d.Ctype)
    (hs : s.stack = [.write]) (hw : s.line.writeQ.Ok) (hr : s.line.readQ.Ok)
    (hq : s.line.secondary.Ok) : ConsumedOnce d s ↔ d.Fine s := by
  constructor
  · rintro ⟨s', es, h, hend, -⟩
    exact fine_of_feeding hd hs hw hr hq h hend
  · exact consumedOnce_of_fine hd hctype hs hw hr hq

/-- `con_write` is called with these characters in the queue. -/
def written (cs : List Byte) : Sys :=
  { idle with
    line := ⟨canonical, false, emptyQueue, cs.foldl Queue.putch emptyQueue, emptyQueue⟩
    con := blank
    stack := [.write] }

/-- A letter and a request, which is the end of the queue. -/
theorem con_write_once_request : ConsumedOnce tty0 (written [97#8, 27#8, 90#8]) := by
  refine (con_write_once tty0 (written [97#8, 27#8, 90#8]) rfl (fun _ _ => rfl) rfl
    ⟨by decide, by decide⟩ ⟨by decide, by decide⟩ ⟨by decide, by decide⟩).mpr ?_
  have hl : (written [97#8, 27#8, 90#8]).line.writeQ.contents = [97#8, 27#8, 90#8] := by decide
  refine Or.inr (Or.inr ?_)
  rw [hl]
  simp [Device.Undisturbed]

/-- **A request before the end of the queue.** -/
theorem not_con_write_once : ¬∀ (d : Device) (s : Sys), d.console = true → d.Ctype →
    s.stack = [.write] → s.line.writeQ.Ok → s.line.readQ.Ok → s.line.secondary.Ok →
    ConsumedOnce d s := by
  intro h
  obtain ⟨s', es, hrun, hend, -⟩ := h tty0 (written [27#8, 90#8, 97#8]) rfl (fun _ _ => rfl) rfl
    ⟨by decide, by decide⟩ ⟨by decide, by decide⟩ ⟨by decide, by decide⟩
  have hl : (written [27#8, 90#8, 97#8]).line.writeQ.contents = [27#8, 90#8, 97#8] := by decide
  rcases fine_of_feeding rfl rfl ⟨by decide, by decide⟩ ⟨by decide, by decide⟩
    ⟨by decide, by decide⟩ hrun hend with hecho | hfull | hu
  · exact Bool.noConfusion hecho
  · exact absurd hfull (by decide)
  · have hstate : (((written [27#8, 90#8, 97#8]).con).conChar
        (written [27#8, 90#8, 97#8]).line.termios.erase 27#8).ctl.state = 1 := by decide
    rw [hl, Device.Undisturbed, if_neg (by decide), Device.Undisturbed, if_pos ⟨hstate, rfl⟩] at hu
    rcases hu with hu | ⟨hpass, -⟩
    · exact absurd hu (List.cons_ne_nil _ _)
    · exact absurd (hpass 27#8 (by decide) 27#8 (by decide)) (by rw [Line.Skips]; decide)

end Linux011.Tty

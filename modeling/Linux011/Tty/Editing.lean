import Linux011.Tty.Line
import Mathlib.Data.List.DropRight

/-!
# The editing of a line

What a call of `copy_to_cooked` makes of the characters it reads, when the terminal is canonical:
the secondary queue is edited by one character after the other (`Linux011.Tty.Termios.edit`), and
what is before the end of the last line is not changed (`Linux011.Tty.cooked_edits`).

A call runs to its end here, with no interrupts. It is not always alone even so: an echo that the
console takes for the end of a request makes it reply, the reply is put into the read queue, and
`respond` has it copied at once. All that is left to read, and the reply, is then stored in front of
the character whose echo has been the cause (`Linux011.Tty.not_cooked_edits`).
-/

namespace Linux011.Tty

/-! ### A call -/

/-- **One operation** of what is under way, with no interrupt. -/
inductive Goes (d : Device) (s : Sys) : Sys → Prop
  | exec {f : Frame} {st : List Frame} (hs : s.stack = f :: st) : Goes d s (d.exec st s f)

/-- One operation after another. -/
abbrev Alone (d : Device) : Sys → Sys → Prop := Relation.ReflTransGen (Goes d)

/-- **The console does not reply** to what is written meanwhile. -/
def Mute (d : Device) (s : Sys) : Prop := ∀ s', Alone d s s' → ∀ st, s'.stack ≠ .respond :: st

/-! ### What the characters mean -/

/-- `tolower` of `ctype.h`, for the characters that `_ctype` has. -/
def tolower (c : Byte) : Byte := if 65 ≤ c.toNat ∧ c.toNat ≤ 90 then c + 32#8 else c

/-- The device has the `tolower` of `ctype.h`. -/
def Device.Ctype (d : Device) : Prop := ∀ c : Byte, c.toNat < 128 → d.toLower c = tolower c

namespace Termios

variable (t : Termios)

/-- **The control characters are below 128.** -/
structure Plain : Prop where
  kill : t.kill.toNat < 128
  erase : t.erase.toNat < 128
  stop : t.stop.toNat < 128
  start : t.start.toNat < 128
  intr : t.intr.toNat < 128
  quit : t.quit.toNat < 128
  eof : t.eof.toNat < 128

/-- **What is made of a character**, by the flags of `c_iflag`. -/
def mapped (b : Byte) : Option Byte :=
  let c? := if b = 13#8 then
      if t.icrnl then some 10#8 else if t.igncr then none else some 13#8
    else if b = 10#8 ∧ t.inlcr then some 13#8 else some b
  c?.map fun c => if t.iuclc then tolower c else c

/-- The end of a line. -/
def Ends (c : Byte) : Prop := c = 10#8 ∨ c = t.eof

instance (c : Byte) : Decidable (t.Ends c) := inferInstanceAs (Decidable (_ ∨ _))

/-- The line is killed. -/
def killed (l : List Byte) : List Byte := l.rdropWhile fun c => ¬t.Ends c

/-- The last character is erased, if it is not the end of a line. -/
def erased (l : List Byte) : List Byte :=
  match l.getLast? with
  | none => l
  | some c => if t.Ends c then l else l.dropLast

/-- **The editing rules.** -/
def edit (l : List Byte) (b : Byte) : List Byte :=
  match t.mapped b with
  | none => l
  | some c =>
    if c = t.kill then t.killed l
    else if c = t.erase then t.erased l
    else if c = t.stop ∨ c = t.start then l
    else if t.isig ∧ (c = t.intr ∨ c = t.quit) then l
    else l ++ [c]

end Termios

/-! ### The rules leave alone what is before the end of a line -/

variable {d : Device} {s s' s'' : Sys} {f : Frame} {st : List Frame} {t : Termios} {b c e : Byte}
  {l l' pre : List Byte} {bs : List Byte}

theorem killed_append (h : ¬t.Ends c) : t.killed (l ++ [c]) = t.killed l :=
  List.rdropWhile_concat_pos _ _ _ (decide_eq_true h)

theorem killed_of_ends (h : t.Ends c) : t.killed (l ++ [c]) = l ++ [c] :=
  List.rdropWhile_concat_neg _ _ _ (by simpa using h)

theorem erased_append (h : ¬t.Ends c) : t.erased (l ++ [c]) = l := by
  rw [Termios.erased, List.getLast?_concat]
  dsimp only
  rw [if_neg h, List.dropLast_concat]

theorem erased_of_ends (h : t.Ends c) : t.erased (l ++ [c]) = l ++ [c] := by
  rw [Termios.erased, List.getLast?_concat]
  dsimp only
  rw [if_pos h]

/-- Up to the end of a line, nothing is killed. -/
theorem killed_line (h : t.Ends e) (l : List Byte) :
    ∃ rest, t.killed (pre ++ e :: l) = pre ++ e :: rest := by
  induction l using List.reverseRecOn with
  | nil => exact ⟨[], killed_of_ends h⟩
  | append_singleton l c ih =>
    rw [← List.cons_append, ← List.append_assoc]
    by_cases hc : t.Ends c
    · rw [killed_of_ends hc]
      exact ⟨l ++ [c], by simp⟩
    · rw [killed_append hc]
      exact ih

theorem erased_line (h : t.Ends e) (l : List Byte) :
    ∃ rest, t.erased (pre ++ e :: l) = pre ++ e :: rest := by
  rcases List.eq_nil_or_concat l with rfl | ⟨l, c, rfl⟩
  · exact ⟨[], erased_of_ends h⟩
  · rw [List.concat_eq_append, ← List.cons_append, ← List.append_assoc]
    by_cases hc : t.Ends c
    · rw [erased_of_ends hc]
      exact ⟨l ++ [c], by simp⟩
    · rw [erased_append hc]
      exact ⟨l, rfl⟩

/-- **What is before the end of a line stays.** -/
theorem edit_line (h : t.Ends e) (b : Byte) (l : List Byte) :
    ∃ rest, t.edit (pre ++ e :: l) b = pre ++ e :: rest := by
  rw [Termios.edit]
  cases t.mapped b with
  | none => exact ⟨l, rfl⟩
  | some c =>
    dsimp only
    split_ifs
    · exact killed_line h l
    · exact erased_line h l
    · exact ⟨l, rfl⟩
    · exact ⟨l, rfl⟩
    · exact ⟨l ++ [c], by simp⟩

theorem foldl_edit_line (h : t.Ends e) (bs l : List Byte) :
    ∃ rest, bs.foldl t.edit (pre ++ e :: l) = pre ++ e :: rest := by
  induction bs generalizing l with
  | nil => exact ⟨l, rfl⟩
  | cons b bs ih =>
    obtain ⟨rest, hrest⟩ := edit_line h b l
    rw [List.foldl_cons, hrest]
    exact ih rest

/-! ### The characters of the code -/

/-- Below 128 it makes no difference that `char` is signed. -/
theorem is_iff {cc : Byte} (h : cc.toNat < 128) : Byte.is c cc ↔ c = cc := by
  have hcc : cc.toInt = cc.toNat := BitVec.toInt_eq_toNat_of_lt (by omega)
  rw [Byte.is, ← hcc]
  exact BitVec.toInt_inj

theorem translate_eq (hd : d.Ctype) (h : t.iuclc = true → b.toNat < 128) :
    d.translate t b = t.mapped b := by
  have hlow : ∀ c : Byte, (t.iuclc = true → c.toNat < 128) →
      (if t.iuclc then d.toLower c else c) = if t.iuclc then tolower c else c := by
    intro c hc
    by_cases hi : t.iuclc = true
    · rw [if_pos hi, if_pos hi, hd c (hc hi)]
    · rw [if_neg hi, if_neg hi]
  have hten := hlow 10#8 fun _ => by decide
  have hthirteen := hlow 13#8 fun _ => by decide
  rw [Device.translate, Termios.mapped]
  by_cases h13 : b = 13#8
  · rw [if_pos h13, if_pos h13, h13]
    by_cases hcr : t.icrnl = true
    · rw [if_pos hcr]
      exact congrArg some hten
    · rw [if_neg hcr]
      by_cases hig : t.igncr = true
      · rw [if_pos hig]
        rfl
      · rw [if_neg hig]
        exact congrArg some hthirteen
  · rw [if_neg h13, if_neg h13]
    by_cases h10 : b = 10#8 ∧ t.inlcr = true
    · rw [if_pos h10]
      exact congrArg some hthirteen
    · rw [if_neg h10]
      exact congrArg some (hlow b h)

/-- What the code takes for the end of the line. -/
theorem atEnd_append {t : Line} (hq : t.secondary.Ok) (hp : t.termios.Plain)
    (h : t.secondary.contents = l ++ [c]) : t.atEnd ↔ t.termios.Ends c := by
  have hne : t.secondary.chars ≠ 0 := by
    rw [← Queue.length_contents, h]
    simp
  have hlast : t.secondary.last = c := by
    have heq := Queue.contents_decHead hq hne
    rw [h] at heq
    exact (List.append_inj' heq rfl).2.symm |> List.singleton_inj.mp
  rw [Line.atEnd, hlast, is_iff hp.eof, Termios.Ends, Queue.empty_iff hq]
  exact or_iff_right hne

theorem atEnd_nil {t : Line} (hq : t.secondary.Ok) (h : t.secondary.contents = []) : t.atEnd :=
  Or.inl ((Queue.contents_eq_nil_iff hq).mp h)

/-! ### What is sent -/

theorem Mute.trans (h : Mute d s) (hs : Alone d s s') : Mute d s' :=
  fun _ h' => h _ (hs.trans h')

/-- The next operation, and those after it. -/
theorem alone_head (hs : s.stack = f :: st) (h : Alone d (d.exec st s f) s') : Alone d s s' :=
  h.head (.exec hs)

theorem alone_one (hs : s.stack = f :: st) : Alone d s (d.exec st s f) := alone_head hs .refl

/-- **Only the write queue** of the terminal is another, and it goes on with `st`. -/
structure Sent (s : Sys) (st : List Frame) (s' : Sys) : Prop where
  stack : s'.stack = st
  line : ∃ q, s'.line = { s.line with writeQ := q }

theorem Sent.trans {st' : List Frame} (h : Sent s st s') (h' : Sent s' st' s'') :
    Sent s st' s'' := by
  obtain ⟨q, hq⟩ := h.line
  obtain ⟨q', hq'⟩ := h'.line
  exact ⟨h'.stack, q', by rw [hq', hq]⟩

/-- `con_write`, with so many characters to go. -/
theorem sent_conWrite {nr : ℕ} (hs : s.stack = .conWrite nr :: st) (hm : Mute d s) :
    ∃ s', Alone d s s' ∧ Sent s st s' := by
  induction nr generalizing s with
  | zero => exact ⟨_, alone_one hs, rfl, s.line.writeQ, rfl⟩
  | succ nr ih =>
    have hone := alone_one (d := d) hs
    have hstack : (d.exec st s (.conWrite (nr + 1))).stack = .conWrite nr :: st := by
      by_cases ha : s.asks
      · have hr : (d.exec st s (.conWrite (nr + 1))).stack = .respond :: .conWrite nr :: st := by
          rw [Device.exec, conWrite, if_pos ha]
          rfl
        exact absurd hr (hm _ hone _)
      · rw [Device.exec, conWrite, if_neg ha]
        rfl
    obtain ⟨s', hs', hsent⟩ := ih hstack (hm.trans hone)
    have hfirst : Sent s (.conWrite nr :: st) (d.exec st s (.conWrite (nr + 1))) :=
      ⟨hstack, s.line.writeQ.getch, rfl⟩
    exact ⟨s', hone.trans hs', hfirst.trans hsent⟩

/-- A frame of an echo. -/
def Frame.Sends : Frame → Prop
  | .putWrite _ | .write => True
  | _ => False

/-- **An echo.** -/
theorem sent_echo {fs : List Frame} (hf : ∀ f ∈ fs, f.Sends) (hs : s.stack = fs ++ st)
    (hm : Mute d s) : ∃ s', Alone d s s' ∧ Sent s st s' := by
  induction fs generalizing s with
  | nil => exact ⟨s, .refl, hs, s.line.writeQ, rfl⟩
  | cons f fs ih =>
    have hfs : ∀ f ∈ fs, f.Sends := fun g hg => hf g (List.mem_cons_of_mem _ hg)
    have hone := alone_one (d := d) hs
    have hmid : ∃ s₁, Alone d s s₁ ∧ Sent s (fs ++ st) s₁ := by
      cases f with
      | putWrite c => exact ⟨_, hone, rfl, s.line.writeQ.putch c, rfl⟩
      | write =>
        by_cases hc : d.console = true
        · have hstack : (d.exec (fs ++ st) s .write).stack =
              .conWrite s.line.writeQ.chars :: (fs ++ st) := by
            rw [Device.exec, if_pos hc]
            rfl
          obtain ⟨s₁, hs₁, hsent⟩ := sent_conWrite hstack (hm.trans hone)
          exact ⟨s₁, hone.trans hs₁, hsent.stack, hsent.line⟩
        · refine ⟨_, hone, ?_, s.line.writeQ, rfl⟩
          rw [Device.exec, if_neg hc]
          rfl
      | _ => exact (hf _ List.mem_cons_self).elim
    obtain ⟨s₁, hs₁, hsent⟩ := hmid
    obtain ⟨s', hs', hsent'⟩ := ih hfs hsent.stack (hm.trans hs₁)
    exact ⟨s', hs₁.trans hs', hsent.trans hsent'⟩

theorem sends_echo (t : Line) (c : Byte) : ∀ f ∈ t.echo c, f.Sends := by
  rw [Line.echo]
  split_ifs <;> simp [Frame.Sends]

/-- The echo of a character that is rubbed out, and then `DEC`. -/
theorem rubOut_eq (t : Line) : ∃ fs : List Frame, t.rubOut = fs ++ [.dec] ∧ ∀ f ∈ fs, f.Sends := by
  refine ⟨_, rfl, ?_⟩
  split_ifs <;> simp [Frame.Sends]

/-! ### What is edited -/

/-- **The secondary queue has been edited**; what is to be read, and the settings, are as before. -/
structure Edited (s : Sys) (st : List Frame) (l : List Byte) (s' : Sys) : Prop where
  stack : s'.stack = st
  readQ : s'.line.readQ = s.line.readQ
  termios : s'.line.termios = s.line.termios
  ok : s'.line.secondary.Ok
  contents : s'.line.secondary.contents = l

/-- It is edited after an echo. -/
theorem Sent.edited {st' : List Frame} (h : Sent s st s') (h' : Edited s' st' l s'') :
    Edited s st' l s'' := by
  obtain ⟨q, hq⟩ := h.line
  exact ⟨h'.stack, by rw [h'.readQ, hq], by rw [h'.termios, hq], h'.ok, h'.contents⟩

theorem Edited.trans {st' : List Frame} (h : Edited s st l s') (h' : Edited s' st' l' s'') :
    Edited s st' l' s'' :=
  ⟨h'.stack, h'.readQ.trans h.readQ, h'.termios.trans h.termios, h'.ok, h'.contents⟩

/-- The last character is rubbed out. -/
theorem edited_rubOut (hs : s.stack = s.line.rubOut ++ st) (hm : Mute d s)
    (hq : s.line.secondary.Ok) (hl : s.line.secondary.contents = l ++ [c]) :
    ∃ s', Alone d s s' ∧ Edited s st l s' := by
  obtain ⟨fs, hfs, hsends⟩ := rubOut_eq s.line
  rw [hfs, List.append_assoc, List.singleton_append] at hs
  obtain ⟨s₁, hs₁, hsent⟩ := sent_echo hsends hs hm
  have hdec := alone_one (d := d) hsent.stack
  have hsec : s₁.line.secondary = s.line.secondary := by
    obtain ⟨q, hq⟩ := hsent.line
    rw [hq]
  have hne : s.line.secondary.chars ≠ 0 := by
    rw [← Queue.length_contents, hl]
    simp
  have heq := Queue.contents_decHead hq hne
  rw [hl] at heq
  refine ⟨_, hs₁.trans hdec, hsent.edited ?_⟩
  rw [Device.exec, hsec]
  constructor
  · rfl
  · rfl
  · rfl
  · exact hq.decHead
  · exact (List.append_inj' heq rfl).1.symm

/-- **The line is killed**: the induction is on what is in the queue, from its end. -/
theorem edited_kill (hs : s.stack = .kill :: st) (hm : Mute d s) (hp : s.line.termios.Plain)
    (hq : s.line.secondary.Ok) (hl : s.line.secondary.contents = l) :
    ∃ s', Alone d s s' ∧ Edited s st (s.line.termios.killed l) s' := by
  induction l using List.reverseRecOn generalizing s with
  | nil =>
    refine ⟨_, alone_one hs, ?_, rfl, rfl, hq, hl⟩
    rw [Device.exec, if_pos (atEnd_nil hq hl)]
    rfl
  | append_singleton l c ih =>
    have hone := alone_one (d := d) hs
    by_cases hc : s.line.termios.Ends c
    · rw [killed_of_ends hc]
      refine ⟨_, hone, ?_, rfl, rfl, hq, hl⟩
      rw [Device.exec, if_pos ((atEnd_append hq hp hl).mpr hc)]
      rfl
    · rw [killed_append hc]
      have hstack : (d.exec st s .kill).stack = s.line.rubOut ++ .kill :: st := by
        rw [Device.exec, if_neg fun h => hc ((atEnd_append hq hp hl).mp h)]
        exact List.append_assoc _ _ _
      obtain ⟨s₁, hs₁, hed⟩ := edited_rubOut (s := d.exec st s .kill) hstack (hm.trans hone) hq hl
      obtain ⟨s', hs', hed'⟩ := ih hed.stack (hm.trans (hone.trans hs₁)) (hed.termios ▸ hp) hed.ok
        hed.contents
      rw [hed.termios] at hed'
      have hfirst : Edited s (.kill :: st) l s₁ :=
        ⟨hed.stack, hed.readQ, hed.termios, hed.ok, hed.contents⟩
      exact ⟨s', (hone.trans hs₁).trans hs', hfirst.trans hed'⟩

/-- A character is echoed and stored. -/
theorem edited_store {fs : List Frame} (hf : ∀ f ∈ fs, f.Sends)
    (hs : s.stack = fs ++ .putSecondary c :: st) (hm : Mute d s)
    (hq : s.line.secondary.Ok) (hleft : s.line.secondary.left ≠ 0)
    (hl : s.line.secondary.contents = l) :
    ∃ s', Alone d s s' ∧ Edited s st (l ++ [c]) s' := by
  obtain ⟨s₁, hs₁, hsent⟩ := sent_echo hf hs hm
  have hput := alone_one (d := d) hsent.stack
  have hsec : s₁.line.secondary = s.line.secondary := by
    obtain ⟨q, hq⟩ := hsent.line
    rw [hq]
  refine ⟨_, hs₁.trans hput, hsent.edited ?_⟩
  rw [Device.exec, Sys.putSecondary, hsec]
  constructor
  · rfl
  · rfl
  · rfl
  · exact hq.putch
  · rw [← hl]
    exact Queue.contents_putch hq hleft

/-- **What is done with a character** is what the rules say. -/
theorem edited_handle (hs : s.stack = .handle b :: st) (hm : Mute d s) (hd : d.Ctype)
    (hcanon : s.line.termios.icanon = true) (hp : s.line.termios.Plain)
    (hb : s.line.termios.iuclc = true → b.toNat < 128) (hq : s.line.secondary.Ok)
    (hleft : s.line.secondary.left ≠ 0) (hl : s.line.secondary.contents = l) :
    ∃ s', Alone d s s' ∧ Edited s st (s.line.termios.edit l b) s' := by
  have hone := alone_one (d := d) hs
  have hm₁ := hm.trans hone
  rw [Device.exec, Device.handle, translate_eq hd hb] at hone hm₁
  rw [Termios.edit]
  cases hmap : s.line.termios.mapped b with
  | none =>
    rw [hmap] at hone
    exact ⟨_, hone, rfl, rfl, rfl, hq, hl⟩
  | some c =>
    rw [hmap] at hone hm₁
    dsimp only at hone hm₁ ⊢
    rw [Line.cook] at hone hm₁
    simp only [hcanon, true_and, is_iff hp.kill, is_iff hp.erase, is_iff hp.stop, is_iff hp.start,
      is_iff hp.intr, is_iff hp.quit, is_iff hp.eof] at hone hm₁
    by_cases hkill : c = s.line.termios.kill
    · rw [if_pos hkill] at hone hm₁
      rw [if_pos hkill]
      obtain ⟨s', hs', hed⟩ := edited_kill rfl hm₁ hp hq hl
      exact ⟨s', hone.trans hs', hed.stack, hed.readQ, hed.termios, hed.ok, hed.contents⟩
    rw [if_neg hkill] at hone hm₁
    rw [if_neg hkill]
    by_cases herase : c = s.line.termios.erase
    · rw [if_pos herase] at hone hm₁
      rw [if_pos herase]
      rcases List.eq_nil_or_concat l with rfl | ⟨l, e, rfl⟩
      · rw [if_pos (atEnd_nil hq hl)] at hone
        exact ⟨_, hone, rfl, rfl, rfl, hq, hl⟩
      · rw [List.concat_eq_append] at hl ⊢
        by_cases he : s.line.termios.Ends e
        · rw [if_pos ((atEnd_append hq hp hl).mpr he)] at hone
          rw [erased_of_ends he]
          exact ⟨_, hone, rfl, rfl, rfl, hq, hl⟩
        · have hnot : ¬s.line.atEnd := fun h => he ((atEnd_append hq hp hl).mp h)
          rw [if_neg hnot] at hone hm₁
          rw [erased_append he]
          obtain ⟨s', hs', hed⟩ := edited_rubOut rfl hm₁ hq hl
          exact ⟨s', hone.trans hs', hed.stack, hed.readQ, hed.termios, hed.ok, hed.contents⟩
    rw [if_neg herase] at hone hm₁
    rw [if_neg herase]
    by_cases hstop : c = s.line.termios.stop
    · rw [if_pos hstop] at hone
      rw [if_pos (Or.inl hstop)]
      exact ⟨_, hone, rfl, rfl, rfl, hq, hl⟩
    rw [if_neg hstop] at hone hm₁
    by_cases hstart : c = s.line.termios.start
    · rw [if_pos hstart] at hone
      rw [if_pos (Or.inr hstart)]
      exact ⟨_, hone, rfl, rfl, rfl, hq, hl⟩
    rw [if_neg hstart] at hone hm₁
    rw [if_neg (not_or.mpr ⟨hstop, hstart⟩)]
    by_cases hsig : s.line.termios.isig = true ∧
        (c = s.line.termios.intr ∨ c = s.line.termios.quit)
    · rw [if_pos hsig] at hone
      rw [if_pos hsig]
      exact ⟨_, hone, rfl, rfl, rfl, hq, hl⟩
    rw [if_neg hsig] at hone hm₁
    rw [if_neg hsig]
    by_cases hend : c = 10#8 ∨ c = s.line.termios.eof
    · rw [if_pos hend] at hone hm₁
      -- the line is counted before it is stored
      have hq' : Queue.Ok { s.line.secondary with data := s.line.secondary.data + 1#32 } :=
        ⟨hq.head, hq.tail⟩
      obtain ⟨s', hs', hed⟩ := edited_store (sends_echo s.line c)
        (List.append_assoc _ [.putSecondary c] st) hm₁ hq' hleft hl
      exact ⟨s', hone.trans hs', hed.stack, hed.readQ, hed.termios, hed.ok, hed.contents⟩
    · rw [if_neg hend] at hone hm₁
      obtain ⟨s', hs', hed⟩ := edited_store (sends_echo s.line c)
        (List.append_assoc _ [.putSecondary c] st) hm₁ hq hleft hl
      exact ⟨s', hone.trans hs', hed.stack, hed.readQ, hed.termios, hed.ok, hed.contents⟩

/-! ### A call -/

theorem cookedUp_iff {t : Line} (hr : t.readQ.Ok) (hq : t.secondary.Ok) : t.cookedUp ↔
    t.readQ.contents = [] ∨ t.secondary.contents.length = 1023 := by
  have hleft := Queue.left_eq hq
  rw [Line.cookedUp, Queue.contents_eq_nil_iff hr, Queue.length_contents, Queue.Full]
  refine or_congr_right ?_
  omega

/-- **A round of the loop**: a character is taken, and the rules are followed. -/
theorem edited_round (hs : s.stack = .cooked :: st) (hm : Mute d s) (hd : d.Ctype)
    (hcanon : s.line.termios.icanon = true) (hp : s.line.termios.Plain) (hr : s.line.readQ.Ok)
    (hread : s.line.readQ.contents = b :: bs)
    (hb : s.line.termios.iuclc = true → b.toNat < 128) (hq : s.line.secondary.Ok)
    (hl : s.line.secondary.contents = l) (hlen : l.length < 1023) :
    ∃ s', Alone d s s' ∧ s'.stack = .cooked :: st ∧ s'.line.termios = s.line.termios ∧
      s'.line.readQ.Ok ∧ s'.line.readQ.contents = bs ∧ s'.line.secondary.Ok ∧
      s'.line.secondary.contents = s.line.termios.edit l b := by
  have hne : s.line.readQ.chars ≠ 0 := by
    rw [← Queue.length_contents, hread]
    simp
  have hleft : s.line.secondary.left ≠ 0 := by
    have hchars := Queue.length_contents s.line.secondary
    have hsum := Queue.left_eq hq
    rw [hl] at hchars
    omega
  have hcook : ¬s.line.cookedUp := by
    rw [cookedUp_iff hr hq, hread, hl]
    rintro (h | h)
    · cases h
    · omega
  have htake := Queue.contents_getch hr hne
  rw [hread] at htake
  obtain ⟨hfront, hrest⟩ := List.cons.inj htake
  -- the character is taken
  have h₁ := alone_one (d := d) hs
  rw [Device.exec, if_neg hcook] at h₁
  have h₂ := h₁.trans (alone_one rfl)
  rw [Device.exec] at h₂
  have hstack : Sys.stack { Sys.getRead { s with stack := [.getRead, .cooked] ++ st } with
      stack := .handle s.line.readQ.front :: .cooked :: st } = .handle b :: .cooked :: st := by
    rw [hfront]
  obtain ⟨s', hs', hed⟩ := edited_handle hstack (hm.trans h₂) hd hcanon hp hb hq hleft hl
  refine ⟨s', h₂.trans hs', hed.stack, hed.termios, ?_, ?_, hed.ok, hed.contents⟩
  · rw [hed.readQ]
    exact hr.getch
  · rw [hed.readQ]
    exact hrest.symm

/-- **The loop**: the induction is on the characters that are left to read. -/
theorem edited_loop (hs : s.stack = .cooked :: st) (hm : Mute d s) (hd : d.Ctype)
    (hcanon : s.line.termios.icanon = true) (hp : s.line.termios.Plain) (hr : s.line.readQ.Ok)
    (hread : s.line.readQ.contents = bs)
    (hb : s.line.termios.iuclc = true → ∀ b ∈ bs, b.toNat < 128) (hq : s.line.secondary.Ok)
    (hroom : ∀ k < bs.length, ((bs.take k).foldl s.line.termios.edit
      s.line.secondary.contents).length < 1023) :
    ∃ s', Alone d s s' ∧ s'.stack = st ∧
      s'.line.secondary.contents = bs.foldl s.line.termios.edit s.line.secondary.contents := by
  induction bs generalizing s with
  | nil =>
    refine ⟨_, alone_one hs, ?_, rfl⟩
    rw [Device.exec, if_pos ((cookedUp_iff hr hq).mpr (Or.inl hread))]
    rfl
  | cons b bs ih =>
    have hfirst := hroom 0 (Nat.succ_pos _)
    obtain ⟨s₁, h₁, hstack, ht, hr₁, hread₁, hq₁, hl₁⟩ := edited_round hs hm hd hcanon hp hr hread
      (fun hi => hb hi b List.mem_cons_self) hq rfl hfirst
    obtain ⟨s', h', hstack', hl'⟩ := ih hstack (hm.trans h₁) (ht ▸ hcanon) (ht ▸ hp) hr₁ hread₁
      (fun hi c hc => hb (ht ▸ hi) c (List.mem_cons_of_mem b hc)) hq₁ fun k hk => by
        rw [ht, hl₁]
        exact hroom (k + 1) (Nat.succ_lt_succ hk)
    refine ⟨s', h₁.trans h', hstack', ?_⟩
    rw [hl', ht, hl₁]
    rfl

/-- **A call of `copy_to_cooked` edits the line** by the rules, one character after the other, as
long as there is room for them and the console is not made to reply; what is before the end of a
line stays as it is. -/
theorem cooked_edits (d : Device) (s : Sys) (hd : d.Ctype) (hstack : s.stack = [.cooked])
    (hread : s.line.readQ.Ok) (hsecondary : s.line.secondary.Ok)
    (hcanon : s.line.termios.icanon = true) (hplain : s.line.termios.Plain)
    (hlow : s.line.termios.iuclc = true → ∀ b ∈ s.line.readQ.contents, b.toNat < 128)
    (hroom : ∀ k < s.line.readQ.contents.length, ((s.line.readQ.contents.take k).foldl
      s.line.termios.edit s.line.secondary.contents).length < 1023)
    (hmute : Mute d s) :
    ∃ s', Alone d s s' ∧ s'.stack = [] ∧ s'.line.secondary.contents =
        s.line.readQ.contents.foldl s.line.termios.edit s.line.secondary.contents ∧
      ∀ pre e post, s.line.secondary.contents = pre ++ e :: post → s.line.termios.Ends e →
        ∃ rest, s'.line.secondary.contents = pre ++ e :: rest := by
  obtain ⟨s', hs', hend, hl⟩ := edited_loop hstack hmute hd hcanon hplain hread rfl hlow hsecondary
    hroom
  refine ⟨s', hs', hend, hl, fun pre e post hinit he => ?_⟩
  rw [hl, hinit]
  exact foldl_edit_line he _ _

/-! ### A serial line never replies -/

/-- A frame that does not lead to a reply. -/
def Frame.Still : Frame → Prop
  | .conWrite _ | .respond => False
  | _ => True

theorem Frame.Round.still (h : f.Round) : f.Still := by
  cases f with
  | conWrite _ => exact h
  | respond => exact h
  | _ => trivial

theorem still_append {fs : List Frame} (h : ∀ f ∈ fs, f.Still) (h' : ∀ f ∈ st, f.Still) :
    ∀ f ∈ fs ++ st, f.Still := by
  intro f hf
  rcases List.mem_append.mp hf with hf | hf
  · exact h f hf
  · exact h' f hf

theorem still_rounds {fs : List Frame} {n : ℕ} (h : Rounds fs n) : ∀ f ∈ fs, f.Still :=
  fun f hf => (h.round f hf).still

/-- **On a serial line** nothing ever leads to a reply. -/
theorem still_goes (hd : d.console = false) (h : ∀ f ∈ s.stack, f.Still) (hs : Goes d s s') :
    ∀ f ∈ s'.stack, f.Still := by
  obtain @⟨f, st, hstack⟩ := hs
  rw [hstack, List.forall_mem_cons] at h
  obtain ⟨hf, hst⟩ := h
  cases f with
  | conWrite nr => exact hf.elim
  | respond => exact hf.elim
  | cooked =>
    rw [Device.exec]
    refine still_append ?_ hst
    split_ifs <;> simp [Frame.Still]
  | getRead => exact List.forall_mem_cons.mpr ⟨trivial, hst⟩
  | handle c => exact still_append (still_rounds (handle_spec d s.line c).1) hst
  | write =>
    rw [Device.exec, hd]
    exact hst
  | kill =>
    rw [Device.exec]
    refine still_append ?_ hst
    split_ifs
    · simp
    · have hkill : Rounds (s.line.rubOut ++ [.kill]) (0 + (Frame.kill.stores + 0)) :=
        (rounds_rubOut s.line).append ((Rounds.nil 0).cons (f := .kill) trivial)
      exact still_rounds hkill
  | putWrite c => exact hst
  | putSecondary c => exact hst
  | dec => exact hst
  | ttyWrite buf =>
    cases buf with
    | nil => simp [Device.exec, Frame.Still]
    | cons b rest =>
      rw [Device.exec]
      split_ifs <;> simp [Frame.Still]
  | fetch b rest =>
    rw [Device.exec, Device.fetch]
    dsimp only
    split_ifs <;> simp [Frame.Still]
  | ttyRead nr =>
    cases nr with
    | zero => simp [Device.exec]
    | succ nr =>
      rw [Device.exec]
      split_ifs <;> simp [Frame.Still]
  | getSecondary nr =>
    rw [Device.exec, getSecondary]
    dsimp only
    split_ifs <;> simp [Frame.Still]

theorem mute_serial (hd : d.console = false) (h : ∀ f ∈ s.stack, f.Still) : Mute d s := by
  have hstill : ∀ s', Alone d s s' → ∀ f ∈ s'.stack, f.Still := by
    intro s' hs'
    induction hs' with
    | refl => exact h
    | tail _ hgo ih => exact still_goes hd ih hgo
  intro s' hs' st hstack
  exact hstill s' hs' .respond (hstack ▸ List.mem_cons_self)

/-! ### A reply in the middle of a call -/

/-- So many operations. -/
def Device.run (d : Device) : ℕ → Sys → Sys
  | 0, s => s
  | n + 1, s =>
    match s.stack with
    | [] => s
    | f :: st => d.run n (d.exec st s f)

/-- **A call ends in one state only.** -/
theorem eq_run {n : ℕ} (hn : (d.run n s).stack = []) (h : Alone d s s') (hs : s'.stack = []) :
    s' = d.run n s := by
  induction n generalizing s with
  | zero =>
    rcases Relation.ReflTransGen.cases_head h with rfl | ⟨s₁, hgo, -⟩
    · rfl
    · obtain ⟨hstack⟩ := hgo
      exact absurd (hn.symm.trans hstack) (List.cons_ne_nil _ _).symm
  | succ n ih =>
    rcases Relation.ReflTransGen.cases_head h with rfl | ⟨s₁, hgo, hrest⟩
    · rw [Device.run, hs]
    · obtain @⟨f, st, hstack⟩ := hgo
      rw [Device.run, hstack] at hn ⊢
      exact ih hn hrest

/-- The first serial line, with the `tolower` of `ctype.h`. -/
def rs1 : Device := ⟨false, tolower, id⟩

/-- The console. -/
def tty0 : Device := ⟨true, tolower, id⟩

/-- A canonical terminal with echo. -/
def canonical : Termios := { echoing with icanon := true, isig := true, icrnl := true }

/-- These characters have come in. -/
def typed (cs : List Byte) (con : Console.Con) : Sys :=
  { idle with
    line := ⟨canonical, false, cs.foldl Queue.putch emptyQueue, emptyQueue, emptyQueue⟩
    con := con
    stack := [.cooked] }

theorem plain_canonical : canonical.Plain :=
  ⟨by decide, by decide, by decide, by decide, by decide, by decide, by decide⟩

/-- Two letters, the second of them rubbed out, and the end of the line. -/
theorem cooked_edits_typed : ∃ s', Alone rs1 (typed [97#8, 98#8, 127#8, 13#8] blank) s' ∧
    s'.stack = [] ∧ s'.line.secondary.contents = [97#8, 10#8] := by
  have hmute : Mute rs1 (typed [97#8, 98#8, 127#8, 13#8] blank) :=
    mute_serial rfl fun f hf => by
      rw [List.mem_singleton.mp hf]
      trivial
  have hread : (typed [97#8, 98#8, 127#8, 13#8] blank).line.readQ.contents =
      [97#8, 98#8, 127#8, 13#8] := by decide
  obtain ⟨s', hs', hend, hl, -⟩ := cooked_edits rs1 (typed [97#8, 98#8, 127#8, 13#8] blank)
    (fun _ _ => rfl) rfl ⟨by decide, by decide⟩ ⟨by decide, by decide⟩ rfl plain_canonical
    (by rintro ⟨⟩) (by rw [hread]; decide) hmute
  refine ⟨s', hs', hend, ?_⟩
  rw [hl, hread]
  decide

/-- A process has written an escape to the console, and a `Z` is typed. -/
def escaped : Sys := typed [90#8] { blank with ctl := { blank.ctl with state := 1 } }

/-- **A reply overtakes the character that has asked for it.** -/
theorem not_cooked_edits : ¬∀ (d : Device) (s : Sys), d.Ctype → s.stack = [.cooked] →
    s.line.readQ.Ok → s.line.secondary.Ok → s.line.termios.icanon = true →
    s.line.termios.Plain →
    (s.line.termios.iuclc = true → ∀ b ∈ s.line.readQ.contents, b.toNat < 128) →
    (∀ k < s.line.readQ.contents.length, ((s.line.readQ.contents.take k).foldl
      s.line.termios.edit s.line.secondary.contents).length < 1023) →
    ∃ s', Alone d s s' ∧ s'.stack = [] ∧ s'.line.secondary.contents =
      s.line.readQ.contents.foldl s.line.termios.edit s.line.secondary.contents := by
  intro h
  have hread : escaped.line.readQ.contents = [90#8] := by decide
  obtain ⟨s', hs', hend, hl⟩ := h tty0 escaped (fun _ _ => rfl) rfl ⟨by decide, by decide⟩
    ⟨by decide, by decide⟩ rfl plain_canonical (by rintro ⟨⟩) (by rw [hread]; decide)
  have hrun : (tty0.run 65 escaped).stack = [] ∧
      (tty0.run 65 escaped).line.secondary.contents = response ++ [90#8] := by decide +kernel
  rw [eq_run hrun.1 hs' hend, hrun.2, hread] at hl
  exact absurd hl (by decide)

end Linux011.Tty

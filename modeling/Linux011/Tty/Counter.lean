import Linux011.Tty.Editing

/-!
# The line counter

The field `data` of the secondary queue is to tell how many lines there are in it. A new line or
the end-of-file character is counted by `copy_to_cooked` before it is echoed, and stored after that;
`tty_read` takes it from the count when it takes it out of the queue.

Between the two the end-of-file character may become another, and nobody looks what is in the queue
then: a letter that is in the queue and becomes the end-of-file character is taken from a count that
it never was in (`Linux011.Tty.not_line_counter`). As long as each step compares a character as it
was compared before, the count is what it should be (`Linux011.Tty.line_counter`).
-/

namespace Linux011.Tty

/-! ### The count -/

/-- How many new lines and end-of-file characters there are. -/
def Termios.ends (t : Termios) (l : List Byte) : ℕ := l.countP fun c => t.Ends c

/-- The number of lines in the secondary queue. -/
def Sys.lines (s : Sys) : ℕ := s.line.termios.ends s.line.secondary.contents

/-- A character that has been counted and is not stored yet. -/
def Frame.counted (t : Termios) : Frame → ℕ
  | .putSecondary c => if c = 10#8 ∨ Byte.is c t.eof then 1 else 0
  | _ => 0

/-- The characters that have been counted and are not stored yet. -/
def Sys.pending (s : Sys) : ℕ := total (Frame.counted s.line.termios) s.stack

/-- **The comparison with the end-of-file character** tells whether a character is it: a `char` is
never equal to an `unsigned char` from 128 on. -/
def Termios.Sees (t : Termios) (c : Byte) : Prop := c = t.eof → c.toNat < 128

instance (t : Termios) (c : Byte) : Decidable (t.Sees c) := inferInstanceAs (Decidable (_ → _))

/-- **What an operation may meet**: there is room for what is stored, what is taken out is there,
and no end of a line is rubbed out. -/
def Sys.Fair (s : Sys) : Frame → Prop
  | .putSecondary c => ¬s.line.secondary.Full ∧ s.line.termios.Sees c
  | .getSecondary _ => ¬s.line.secondary.Empty ∧ s.line.termios.Sees s.line.secondary.front
  | .dec => ¬s.line.secondary.Empty ∧ ¬s.line.termios.Ends s.line.secondary.last
  | _ => True

/-- **A step**; if `K` holds, one that counts as was counted before. -/
inductive Counting (d : Device) (K : Prop) (s : Sys) : Sys → Prop
  | exec {f : Frame} {st : List Frame} (hs : s.stack = f :: st) (hK : K → s.Fair f) :
    Counting d K s (d.exec st s f)
  | input (cs : List Byte) : Counting d K s { s.putQueue cs with stack := .cooked :: s.stack }
  | transmit (hd : d.console = false) (hne : s.line.writeQ.chars ≠ 0) : Counting d K s s.getWrite
  | write (buf : List Byte) (hs : s.stack = []) :
    Counting d K s { s with stack := [.ttyWrite buf] }
  | read (nr : ℕ) (hs : s.stack = [])
    (hne : ¬(s.line.secondary.Empty ∨ s.line.termios.icanon ∧ s.line.secondary.data = 0#32 ∧
      20 < s.line.secondary.left)) : Counting d K s { s with stack := [.getSecondary nr] }
  | sleep {f : Frame} (hs : s.stack = [f]) (hf : f.Faults) :
    Counting d K s { s with stack := [], sleeping := f :: s.sleeping }
  | wake {f : Frame} {l l' : List Frame} (hs : s.stack = []) (hf : s.sleeping = l ++ f :: l') :
    Counting d K s { s with stack := [f], sleeping := l ++ l' }
  | flushRead (hs : s.stack = []) : Counting d K s s.flushRead
  | flushWrite (hs : s.stack = []) : Counting d K s s.flushWrite
  /-- The settings change, and the queue has as many lines as before. -/
  | termios (hs : s.stack = []) (t : Termios)
    (hK : K → t.ends s.line.secondary.contents = s.lines) :
    Counting d K s { s with line := { s.line with termios := t } }
  | crFlag (b : Bool) : Counting d K s { s with crFlag := b }

/-- The terminal has just been set up. -/
structure Fresh (s : Sys) : Prop extends Start s where
  data : s.line.secondary.data = 0#32

variable {d : Device} {s s' : Sys} {f : Frame} {st l : List Frame} {t t' : Line} {c : Byte}
  {K : Prop} {n : ℕ}

theorem ends_append (t : Termios) (l : List Byte) (c : Byte) :
    t.ends (l ++ [c]) = t.ends l + if t.Ends c then 1 else 0 := by
  rw [Termios.ends, Termios.ends, List.countP_append, List.countP_singleton]
  simp only [decide_eq_true_eq]

theorem ends_cons (t : Termios) (c : Byte) (l : List Byte) :
    t.ends (c :: l) = t.ends l + if t.Ends c then 1 else 0 := by
  rw [Termios.ends, Termios.ends, List.countP_cons]
  simp only [decide_eq_true_eq]

theorem compared_iff {cc : Byte} : Byte.is c cc ↔ c = cc ∧ c.toNat < 128 := by
  rw [Byte.is, BitVec.toInt_eq_toNat_cond, ← BitVec.toNat_inj]
  have hc := c.isLt
  have hcc := cc.isLt
  constructor
  · intro h
    split_ifs at h
    · constructor <;> omega
    · omega
  · rintro ⟨h, hlt⟩
    rw [if_pos (by omega), h]

/-- What is compared is what is counted. -/
theorem Termios.Sees.ends_iff {t : Termios} (h : t.Sees c) :
    (c = 10#8 ∨ Byte.is c t.eof) ↔ t.Ends c := by
  rw [compared_iff, Termios.Ends]
  exact or_congr_right (and_iff_left_of_imp h)

/-- An echo counts for nothing. -/
theorem counted_echo (t : Termios) (t' : Line) (c : Byte) :
    total (Frame.counted t) (t'.echo c) = 0 := by
  rw [Line.echo]
  split_ifs <;> rfl

theorem counted_rubOut (t : Termios) (t' : Line) : total (Frame.counted t) t'.rubOut = 0 := by
  rw [Line.rubOut]
  split_ifs <;> rfl

/-- **A round of `copy_to_cooked`** counts the character that it is going to store. -/
theorem counted_handle (d : Device) (t : Line) (b : Byte) : ∃ stopped n,
    (d.handle t b).1 = { t with
      stopped := stopped
      secondary := { t.secondary with data := t.secondary.data + BitVec.ofNat 32 n } } ∧
    total (Frame.counted t.termios) (d.handle t b).2 = n := by
  have hsame : t = { t with
      stopped := t.stopped
      secondary := { t.secondary with data := t.secondary.data + BitVec.ofNat 32 0 } } := by simp
  rw [Device.handle]
  cases d.translate t.termios b with
  | none => exact ⟨t.stopped, 0, hsame, rfl⟩
  | some c =>
    dsimp only
    rw [Line.cook]
    split_ifs with hkill herase hend hstop hstart hsig hline
    · exact ⟨t.stopped, 0, hsame, rfl⟩
    · exact ⟨t.stopped, 0, hsame, rfl⟩
    · exact ⟨t.stopped, 0, hsame, counted_rubOut _ t⟩
    · exact ⟨true, 0, by simp, rfl⟩
    · exact ⟨false, 0, by simp, rfl⟩
    · exact ⟨t.stopped, 0, hsame, rfl⟩
    · refine ⟨t.stopped, 1, rfl, ?_⟩
      rw [total_append, counted_echo, total_cons, Frame.counted, if_pos hline]
      rfl
    · refine ⟨t.stopped, 0, hsame, ?_⟩
      rw [total_append, counted_echo, total_cons, Frame.counted, if_neg hline]
      rfl

/-! ### Every step -/

/-- **The count is right**: it is the number of lines in the queue and of those that are about to
be stored. -/
structure Tallied (s : Sys) : Prop where
  ok : s.line.secondary.Ok
  shape : Shape s.stack
  asleep : ∀ f ∈ s.sleeping, f.Faults
  data : s.line.secondary.data = BitVec.ofNat 32 (s.lines + s.pending)

/-- **Another top of the stack**, for which as much has been counted. -/
theorem Tallied.pop (h : Tallied s) (hs : s.stack = f :: st)
    (hsec : s'.line.secondary = s.line.secondary) (ht : s'.line.termios = s.line.termios)
    (hsleep : s'.sleeping = s.sleeping) (hst : s'.stack = l ++ st)
    (hshape : Shape st → Shape (l ++ st))
    (hl : total (Frame.counted s.line.termios) l = f.counted s.line.termios) : Tallied s' := by
  have hsh := h.shape
  rw [hs] at hsh
  refine ⟨hsec ▸ h.ok, ?_, hsleep ▸ h.asleep, ?_⟩
  · rw [hst]
    exact hshape hsh.2
  · have hdata := h.data
    rw [Sys.lines, Sys.pending, hs, total_cons] at hdata
    rw [Sys.lines, Sys.pending, hst, hsec, ht, total_append, hl, hdata]

/-- The top of the stack is over. -/
theorem Tallied.tail (h : Tallied s) (hs : s.stack = f :: st)
    (hsec : s'.line.secondary = s.line.secondary) (ht : s'.line.termios = s.line.termios)
    (hsleep : s'.sleeping = s.sleeping) (hst : s'.stack = st)
    (hf : f.counted s.line.termios = 0) : Tallied s' :=
  h.pop (l := []) hs hsec ht hsleep hst id hf.symm

/-- What a process has under way is another operation. -/
theorem Tallied.process (h : Tallied s) (hs : s.stack = f :: st) (hf : f.Process)
    (hsec : s'.line.secondary = s.line.secondary) (ht : s'.line.termios = s.line.termios)
    (hsleep : s'.sleeping = s.sleeping) (hshape : Shape s'.stack)
    (hl : total (Frame.counted s.line.termios) s'.stack = 0) : Tallied s' := by
  have hsh := h.shape
  rw [hs] at hsh
  obtain rfl : st = [] := hsh.1 hf
  refine h.pop hs hsec ht hsleep (List.append_nil _).symm (fun _ => ?_) ?_
  · rw [List.append_nil]
    exact hshape
  · rw [hl]
    cases f with
    | putSecondary c => exact hf.elim
    | _ => rfl

/-- **A character is stored.** -/
theorem Tallied.putSecondary (h : Tallied s) (hs : s.stack = .putSecondary c :: st)
    (hfull : ¬s.line.secondary.Full) (hsee : s.line.termios.Sees c) :
    Tallied { s.putSecondary c with stack := st } := by
  have hsh := h.shape
  have hdata := h.data
  rw [hs] at hsh
  refine ⟨h.ok.putch, hsh.2, h.asleep, ?_⟩
  rw [Sys.lines, Sys.pending, hs, total_cons, Frame.counted,
    if_congr hsee.ends_iff rfl rfl] at hdata
  change s.line.secondary.data = BitVec.ofNat 32
    (s.line.termios.ends (s.line.secondary.putch c).contents +
      total (Frame.counted s.line.termios) st)
  rw [Queue.contents_putch h.ok hfull, ends_append, hdata, Nat.add_assoc]

/-- **A character is taken out.** -/
theorem Tallied.getSecondary {nr : ℕ} (h : Tallied s) (hs : s.stack = .getSecondary nr :: st)
    (hne : ¬s.line.secondary.Empty) (hsee : s.line.termios.Sees s.line.secondary.front) :
    Tallied (getSecondary nr s) := by
  have hsh := h.shape
  have hdata := h.data
  rw [hs] at hsh
  obtain rfl : st = [] := hsh.1 trivial
  have hchars : s.line.secondary.chars ≠ 0 := fun h0 => hne ((Queue.empty_iff h.ok).mpr h0)
  have hcont := Queue.contents_getch h.ok hchars
  rw [Sys.lines, Sys.pending, hs, hcont, ends_cons] at hdata
  have hzero : total (Frame.counted s.line.termios) [Frame.getSecondary nr] = 0 := rfl
  rw [hzero, Nat.add_zero] at hdata
  rw [Tty.getSecondary]
  dsimp only
  rw [if_congr (or_comm.trans hsee.ends_iff) rfl rfl]
  have hlast : ∀ q : Queue, q.Ok → q.contents = s.line.secondary.getch.contents →
      q.data = BitVec.ofNat 32 (s.line.termios.ends s.line.secondary.getch.contents) →
      Tallied { s with
        line := { s.line with secondary := q }
        stack := if Byte.is s.line.secondary.front s.line.termios.eof ∧ s.line.termios.icanon
          then [] else [.ttyRead nr] } := by
    intro q hq hqcont hqdata
    have hshape : Shape (if Byte.is s.line.secondary.front s.line.termios.eof ∧
        s.line.termios.icanon then [] else [.ttyRead nr]) := by
      split_ifs
      · trivial
      · exact ⟨fun _ => rfl, trivial⟩
    refine ⟨hq, hshape, h.asleep, ?_⟩
    have hnone : total (Frame.counted s.line.termios) (if Byte.is s.line.secondary.front
        s.line.termios.eof ∧ s.line.termios.icanon then [] else [.ttyRead nr]) = 0 := by
      split_ifs <;> rfl
    rw [Sys.lines, Sys.pending]
    dsimp only
    rw [hnone, hqcont, hqdata, Nat.add_zero]
  by_cases hend : s.line.termios.Ends s.line.secondary.front
  · rw [if_pos hend]
    rw [if_pos hend] at hdata
    refine hlast _ ⟨h.ok.head, h.ok.getch.tail⟩ rfl ?_
    change s.line.secondary.data - 1#32 = _
    rw [hdata, BitVec.ofNat_add]
    exact BitVec.add_sub_cancel _ _
  · rw [if_neg hend]
    rw [if_neg hend, Nat.add_zero] at hdata
    have hsame : s.line.secondary.getch.data = s.line.secondary.data := rfl
    exact hlast _ h.ok.getch rfl (hsame.trans hdata)

/-- **A character is rubbed out.** -/
theorem Tallied.dec (h : Tallied s) (hs : s.stack = .dec :: st) (hne : ¬s.line.secondary.Empty)
    (hlast : ¬s.line.termios.Ends s.line.secondary.last) :
    Tallied { s with
      line := { s.line with secondary := s.line.secondary.decHead }
      stack := st } := by
  have hsh := h.shape
  have hdata := h.data
  rw [hs] at hsh
  have hchars : s.line.secondary.chars ≠ 0 := fun h0 => hne ((Queue.empty_iff h.ok).mpr h0)
  have hcont := Queue.contents_decHead h.ok hchars
  rw [Sys.lines, Sys.pending, hs, hcont, ends_append, if_neg hlast, total_cons] at hdata
  have hdec : Frame.counted s.line.termios .dec = 0 := rfl
  rw [hdec, Nat.add_zero, Nat.zero_add] at hdata
  have hsame : s.line.secondary.decHead.data = s.line.secondary.data := by rw [Queue.decHead]
  refine ⟨h.ok.decHead, hsh.2, h.asleep, ?_⟩
  rw [Sys.lines, Sys.pending]
  dsimp only
  rw [hsame]
  exact hdata

/-- A reply has no part in the count. -/
theorem putRead_keeps (cs : List Byte) (s : Sys) :
    (cs.foldl Sys.putRead s).line.secondary = s.line.secondary ∧
      (cs.foldl Sys.putRead s).line.termios = s.line.termios ∧
      (cs.foldl Sys.putRead s).sleeping = s.sleeping := by
  induction cs generalizing s with
  | nil => exact ⟨rfl, rfl, rfl⟩
  | cons c cs ih => exact ih (s.putRead c)

/-- **An operation** that counts as was counted before. -/
theorem Tallied.exec (h : Tallied s) (hs : s.stack = f :: st) (hf : s.Fair f) :
    Tallied (d.exec st s f) := by
  cases f with
  | cooked =>
    refine h.pop hs rfl rfl rfl rfl ?_ ?_
    · intro hsh
      split_ifs
      · exact hsh
      · exact ⟨False.elim, False.elim, hsh⟩
    · split_ifs <;> rfl
  | getRead =>
    exact h.pop (l := [.handle s.line.readQ.front]) hs rfl rfl rfl rfl
      (fun hsh => ⟨False.elim, hsh⟩) rfl
  | handle b =>
    obtain ⟨stopped, n, hline, hcount⟩ := counted_handle d s.line b
    obtain ⟨hrounds, -⟩ := handle_spec d s.line b
    have hsh := h.shape
    have hdata := h.data
    rw [hs] at hsh
    rw [Sys.lines, Sys.pending, hs, total_cons] at hdata
    change _ = BitVec.ofNat 32 (_ + (0 + _)) at hdata
    rw [Device.exec, hline]
    refine ⟨⟨h.ok.head, h.ok.tail⟩, hrounds.shape hsh.2, h.asleep, ?_⟩
    change s.line.secondary.data + BitVec.ofNat 32 n = BitVec.ofNat 32
      (s.lines + total (Frame.counted s.line.termios) ((d.handle s.line b).2 ++ st))
    rw [total_append, hcount, hdata, ← BitVec.ofNat_add, Sys.lines]
    congr 1
    omega
  | putWrite c => exact h.tail hs rfl rfl rfl rfl rfl
  | write =>
    refine h.pop hs rfl rfl rfl rfl ?_ ?_
    · intro hsh
      split_ifs
      · exact ⟨False.elim, hsh⟩
      · exact hsh
    · split_ifs <;> rfl
  | putSecondary c => exact h.putSecondary hs hf.1 hf.2
  | kill =>
    refine h.pop hs rfl rfl rfl rfl ?_ ?_
    · intro hsh
      split_ifs
      · exact hsh
      · have hkill : Rounds (s.line.rubOut ++ [.kill]) (0 + (Frame.kill.stores + 0)) :=
          (rounds_rubOut s.line).append ((Rounds.nil 0).cons (f := .kill) trivial)
        exact hkill.shape hsh
    · split_ifs
      · rfl
      · rw [total_append, counted_rubOut]
        rfl
  | dec => exact h.dec hs hf.1 hf.2
  | conWrite nr =>
    cases nr with
    | zero => exact h.tail hs rfl rfl rfl rfl rfl
    | succ nr =>
      refine h.pop (l := (if s.asks then [.respond] else []) ++ [.conWrite nr]) hs rfl rfl rfl ?_ ?_
        ?_
      · rw [Device.exec, Tty.conWrite, List.append_assoc]
        rfl
      · intro hsh
        split_ifs
        · exact ⟨False.elim, False.elim, hsh⟩
        · exact ⟨False.elim, hsh⟩
      · split_ifs <;> rfl
  | respond =>
    obtain ⟨hsec, ht, hsleep⟩ := putRead_keeps response s
    rw [Device.exec]
    generalize response.foldl Sys.putRead s = t at hsec ht hsleep ⊢
    exact h.pop (l := [.cooked]) hs hsec ht hsleep rfl (fun hsh => ⟨False.elim, hsh⟩) rfl
  | ttyWrite buf =>
    cases buf with
    | nil => exact h.process hs trivial rfl rfl rfl ⟨False.elim, trivial⟩ rfl
    | cons b rest =>
      refine h.process hs trivial rfl rfl rfl ?_ ?_
      · rw [Device.exec]
        split_ifs
        · exact ⟨False.elim, trivial⟩
        · exact ⟨fun _ => rfl, trivial⟩
      · rw [Device.exec]
        split_ifs <;> rfl
  | fetch b rest =>
    rw [Device.exec, Device.fetch]
    dsimp only
    split_ifs
    all_goals exact h.process hs trivial rfl rfl rfl ⟨fun _ => rfl, trivial⟩ rfl
  | ttyRead nr =>
    cases nr with
    | zero => exact h.process hs trivial rfl rfl rfl trivial rfl
    | succ nr =>
      refine h.process hs trivial rfl rfl rfl ?_ ?_
      · rw [Device.exec]
        split_ifs
        · trivial
        · exact ⟨fun _ => rfl, trivial⟩
      · rw [Device.exec]
        split_ifs <;> rfl
  | getSecondary nr => exact h.getSecondary hs hf.1 hf.2

/-- A step that has no part in the count. -/
theorem Tallied.idle (h : Tallied s) (hsec : s'.line.secondary = s.line.secondary)
    (ht : s'.line.termios = s.line.termios) (hsleep : ∀ f ∈ s'.sleeping, f.Faults)
    (hshape : Shape s'.stack) (hp : s'.pending = s.pending) : Tallied s' := by
  refine ⟨hsec ▸ h.ok, hshape, hsleep, ?_⟩
  rw [Sys.lines, hp, hsec, ht]
  exact h.data

/-- Nothing under way counts for nothing. -/
theorem pending_eq_zero (hs : s.stack = []) : s.pending = 0 := by
  rw [Sys.pending, hs]
  rfl

/-- **Every step.** -/
theorem Tallied.step (h : Tallied s) (hstep : Counting d True s s') : Tallied s' := by
  cases hstep with
  | exec hs hK => exact h.exec hs (hK trivial)
  | input cs =>
    refine h.idle rfl rfl h.asleep ⟨False.elim, h.shape⟩ ?_
    rw [Sys.pending, Sys.pending, total_cons]
    exact Nat.zero_add _
  | transmit hd hne => exact h.idle rfl rfl h.asleep h.shape rfl
  | write buf hs =>
    exact h.idle rfl rfl h.asleep ⟨fun _ => rfl, trivial⟩ (pending_eq_zero hs).symm
  | read nr hs hne =>
    exact h.idle rfl rfl h.asleep ⟨fun _ => rfl, trivial⟩ (pending_eq_zero hs).symm
  | @sleep f hs hf =>
    refine h.idle rfl rfl (List.forall_mem_cons.mpr ⟨hf, h.asleep⟩) trivial ?_
    rw [Sys.pending, Sys.pending, hs, total_cons]
    cases f with
    | putSecondary c => exact hf.elim
    | _ => rfl
  | @wake f l l' hs hf =>
    have hasleep := h.asleep
    rw [hf] at hasleep
    have hfault := hasleep f (List.mem_append_right _ List.mem_cons_self)
    refine h.idle rfl rfl (fun g hg => hasleep g ?_) ⟨fun _ => rfl, trivial⟩ ?_
    · rcases List.mem_append.mp hg with hg | hg
      · exact List.mem_append_left _ hg
      · exact List.mem_append_right _ (List.mem_cons_of_mem _ hg)
    · rw [pending_eq_zero hs, Sys.pending, total_cons]
      cases f with
      | putSecondary c => exact hfault.elim
      | _ => rfl
  | flushRead hs => exact h.idle rfl rfl h.asleep h.shape rfl
  | flushWrite hs => exact h.idle rfl rfl h.asleep h.shape rfl
  | termios hs t hK =>
    refine ⟨h.ok, h.shape, h.asleep, ?_⟩
    have hdata := h.data
    rw [pending_eq_zero hs, ← hK trivial] at hdata
    rw [pending_eq_zero (s := { s with line := { s.line with termios := t } }) hs]
    exact hdata
  | crFlag b => exact h.idle rfl rfl h.asleep h.shape rfl

instance (s : Sys) : (f : Frame) → Decidable (s.Fair f)
  | .putSecondary _ | .getSecondary _ | .dec => inferInstanceAs (Decidable (_ ∧ _))
  | .cooked | .getRead | .handle _ | .putWrite _ | .write | .kill | .conWrite _ | .respond
  | .ttyWrite _ | .fetch _ _ | .ttyRead _ => inferInstanceAs (Decidable True)

/-- A terminal without echo. -/
def unechoed : Sys :=
  { idle with line := { idle.line with termios := { echoing with echo := false, icanon := true } } }

/-- These characters have come in, and have been stored. -/
def stored (cs : List Byte) (n : ℕ) : Sys :=
  serial.run n { unechoed.putQueue cs with stack := [.cooked] }

end Linux011.Tty

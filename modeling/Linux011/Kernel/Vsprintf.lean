import Linux011.Kernel.Format
import Linux011.Lib.Cursor
import Mathlib.Data.List.Forall2

/-!
# `vsprintf`

The formatter of `kernel/vsprintf.c`, as the source has it: the format is read at a place, which
goes on through the flags, the width, the precision and the qualifier of a conversion and then
stands at its character. A place behind the terminating NUL is not to be read, and a loop has so
many rounds.

The arguments are a stream of words; what lies at the address of a string is a parameter.
-/

namespace Linux011.Vsprintf

/-! ### The source -/

section Source

variable (fmt : List Byte)

/-- `*fmt` -/
def readAt (i : ℕ) : Except Fault Byte :=
  match charAt 0 fmt i with
  | none => throw .fmt
  | some c => pure c

/-- `skip_atoi`, with what it has so far: the number, and the place behind it. -/
def skipAtoi : ℕ → Word → ℕ → Except Fault (Word × ℕ)
  | 0, _, _ => throw .rounds
  | n + 1, i, s => do
    let c ← readAt fmt s
    if isDigit c then skipAtoi n (i * 10 + c.signExtend 32 - (ch '0').signExtend 32) (s + 1)
    else pure (i, s)

/-- What a conversion has been read of. -/
structure Conv where
  /-- The place. -/
  pos : ℕ
  /-- The next argument. -/
  arg : ℕ
  flags : Word
  width : Word
  precision : Word

/-- The flag of a character. -/
def flagOf (c : Byte) : Option Word :=
  if c = ch '-' then some Flag.left
  else if c = ch '+' then some Flag.plus
  else if c = ch ' ' then some Flag.space
  else if c = ch '#' then some Flag.special
  else if c = ch '0' then some Flag.zeropad
  else none

/-- Process flags: `repeat: ++fmt; switch (*fmt)`. -/
def readFlags : ℕ → ℕ → Word → Except Fault (ℕ × Word)
  | 0, _, _ => throw .rounds
  | n + 1, pos, flags => do
    let pos := pos + 1
    let c ← readAt fmt pos
    match flagOf c with
    | some f => readFlags n pos (flags ||| f)
    | none => pure (pos, flags)

/-- The width that is an argument. -/
def Conv.setWidth (s : Conv) (width : Word) : Conv :=
  if width.toInt < 0 then
    { s with width := -width, flags := s.flags ||| Flag.left, arg := s.arg + 1 }
  else { s with width := width, arg := s.arg + 1 }

variable (args : ℕ → Word)

/-- Get field width. -/
def readWidth (n : ℕ) (s : Conv) : Except Fault Conv := do
  let c ← readAt fmt s.pos
  if isDigit c then do
    let (width, pos) ← skipAtoi fmt n 0 s.pos
    pure { s with width := width, pos := pos }
  else if c = ch '*' then
    -- it's the next argument; `fmt` stays where it is
    pure (s.setWidth (args s.arg))
  else pure s

/-- The precision behind the dot. -/
def readDotted (n : ℕ) (s : Conv) : Except Fault Conv := do
  let c ← readAt fmt s.pos
  if isDigit c then do
    let (precision, pos) ← skipAtoi fmt n 0 s.pos
    pure { s with precision := precision, pos := pos }
  else if c = ch '*' then
    -- it's the next argument; `fmt` stays where it is
    pure { s with precision := args s.arg, arg := s.arg + 1 }
  else pure s

/-- Get the precision. -/
def readPrecision (n : ℕ) (s : Conv) : Except Fault Conv := do
  let c ← readAt fmt s.pos
  if c = ch '.' then do
    let s ← readDotted fmt args n { s with pos := s.pos + 1 }
    pure (if s.precision.toInt < 0 then { s with precision := 0 } else s)
  else pure s

/-- Get the conversion qualifier; nothing is done with it. -/
def readQualifier (s : Conv) : Except Fault Conv := do
  let c ← readAt fmt s.pos
  if c = ch 'h' ∨ c = ch 'l' ∨ c = ch 'L' then pure { s with pos := s.pos + 1 } else pure s

/-- What a turn of the loop leaves. -/
structure Done where
  /-- Where the turn ends, before the `++fmt` of the loop. -/
  pos : ℕ
  arg : ℕ
  written : List Byte
  /-- What `%n` stores, and where. -/
  stored : List (Word × Word)

/-- `str = number(str, ...)` -/
def numeral (num base : Word) (s : Conv) : Except Fault Done := do
  match ← number num base s.width s.precision s.flags with
  | none => throw .str
  | some out => pure ⟨s.pos, s.arg + 1, out, []⟩

/-- `case 'c'` -/
def convChar (s : Conv) : Done :=
  let blanks :=
    if s.flags &&& Flag.left = 0 then padFirst s.width (ch ' ') else ([], s.width)
  let rest := padFirst blanks.2 (ch ' ')
  ⟨s.pos, s.arg + 1, blanks.1 ++ (args s.arg).setWidth 8 :: rest.1, []⟩

variable (strings : Word → List Byte)

/-- `case 's'` -/
def convString (s : Conv) : Done :=
  let str := strings (args s.arg)
  let len := BitVec.ofNat 32 str.length
  let len :=
    if s.precision.toInt < 0 then len
    else if s.precision.toInt < len.toInt then s.precision
    else len
  let blanks :=
    if s.flags &&& Flag.left = 0 then padDown len s.width (ch ' ') else ([], s.width)
  let rest := padDown len blanks.2 (ch ' ')
  ⟨s.pos, s.arg + 1, blanks.1 ++ str.take len.toInt.toNat ++ rest.1, []⟩

/-- `switch (*fmt)`, when so many characters have been written. -/
def convert (count : ℕ) (s : Conv) : Except Fault Done := do
  let c ← readAt fmt s.pos
  if c = ch 'c' then pure (convChar args s)
  else if c = ch 's' then pure (convString args strings s)
  else if c = ch 'o' then numeral (args s.arg) 8 s
  else if c = ch 'p' then
    if s.width = -1 then
      numeral (args s.arg) 16 { s with width := 8, flags := s.flags ||| Flag.zeropad }
    else numeral (args s.arg) 16 s
  else if c = ch 'x' then
    numeral (args s.arg) 16 { s with flags := s.flags ||| Flag.small }
  else if c = ch 'X' then numeral (args s.arg) 16 s
  else if c = ch 'd' ∨ c = ch 'i' then
    numeral (args s.arg) 10 { s with flags := s.flags ||| Flag.sign }
  else if c = ch 'u' then numeral (args s.arg) 10 s
  else if c = ch 'n' then
    pure ⟨s.pos, s.arg + 1, [], [(args s.arg, BitVec.ofNat 32 count)]⟩
  else
    let percent := if c ≠ ch '%' then [ch '%'] else []
    if c ≠ 0 then pure ⟨s.pos, s.arg, percent ++ [c], []⟩
    else pure ⟨s.pos - 1, s.arg, percent, []⟩

/-- The conversion at a `%`. -/
def conversion (n pos arg count : ℕ) : Except Fault Done := do
  let (pos, flags) ← readFlags fmt n pos 0
  let s ← readWidth fmt args n ⟨pos, arg, flags, -1, -1⟩
  let s ← readPrecision fmt args n s
  let s ← readQualifier fmt s
  convert fmt args strings count s

/-- `vsprintf` on its way, with its turns so far. -/
structure Print where
  pos : ℕ
  arg : ℕ
  /-- What lies from `buf` to `str`. -/
  out : List Byte
  stored : List (Word × Word)
  turns : List Turn

/-- The turn that has been done at a place. -/
def turnAt (pos : ℕ) (d : Done) : Turn := ⟨(fmt.drop pos).take (d.pos + 1 - pos), d.written⟩

/-- The turn that has been done, and `++fmt`. -/
def Print.next (p : Print) (d : Done) : Print where
  pos := d.pos + 1
  arg := d.arg
  out := p.out ++ d.written
  stored := p.stored ++ d.stored
  turns := p.turns ++ [turnAt fmt p.pos d]

/-- The body of the loop, at a character that is not the NUL. -/
def body (n : ℕ) (c : Byte) (p : Print) : Except Fault Done :=
  if c ≠ ch '%' then pure ⟨p.pos, p.arg, [c], []⟩
  else conversion fmt args strings n p.pos p.arg p.out.length

/-- `for (str=buf ; *fmt ; ++fmt)` -/
def loop (n : ℕ) : ℕ → Print → Except Fault Print
  | 0, _ => throw .rounds
  | m + 1, p => do
    let c ← readAt fmt p.pos
    if c = 0 then pure p
    else do
      let d ← body fmt args strings n c p
      loop n m (p.next fmt d)

/-- What `vsprintf` leaves. -/
structure Result where
  /-- What lies from `buf` on. -/
  buf : List Byte
  ret : Word
  stored : List (Word × Word)
  turns : List Turn

/-- **`vsprintf`**, where a loop has so many rounds. -/
def vsprintf (n : ℕ) : Except Fault Result := do
  let p ← loop fmt args strings n n ⟨0, 0, [], [], []⟩
  pure ⟨p.out ++ [0], BitVec.ofNat 32 p.out.length, p.stored, p.turns⟩

end Source

/-! ### Stages -/

section Stages

variable {fmt r l : List Byte} {args : ℕ → Word} {strings : Word → List Byte} {n i arg count : ℕ}
  {s : Conv} {c : Byte} {w flags : Word}

theorem readAt_eq (h : Stands fmt i r) : readAt fmt i = .ok (r.headD 0) := by
  rw [readAt, h.charAt]
  rfl

theorem ok_bind {α β : Type} (x : α) (f : α → Except Fault β) : (Except.ok x >>= f) = f x := rfl

theorem isFlag_eq (c : Byte) : isFlag c = (flagOf c).isSome := by
  rw [isFlag, flagOf]
  split_ifs <;> simp_all

/-- The digits are passed. -/
theorem skipAtoi_run (h : Stands fmt i r) (hn : r.length < n) :
    ∃ v, skipAtoi fmt n w i = .ok (v, i + (r.takeWhile isDigit).length) := by
  induction r generalizing n w i with
  | nil =>
    obtain ⟨n, rfl⟩ := Nat.exists_eq_add_of_lt hn
    exact ⟨w, by rw [skipAtoi, readAt_eq h]; rfl⟩
  | cons c r ih =>
    rw [List.length_cons] at hn
    obtain ⟨n, rfl⟩ := Nat.exists_eq_succ_of_ne_zero (Nat.ne_of_gt (Nat.zero_lt_of_lt hn))
    rw [skipAtoi, readAt_eq h, ok_bind, List.headD_cons, List.takeWhile_cons]
    split_ifs
    · obtain ⟨v, hv⟩ := ih (w := w * 10 + c.signExtend 32 - (ch '0').signExtend 32) h.next
        (Nat.lt_of_succ_lt_succ hn)
      refine ⟨v, ?_⟩
      rw [hv, List.length_cons, Nat.add_assoc, Nat.add_comm 1]
    · exact ⟨w, rfl⟩

/-- The flags are passed. -/
theorem readFlags_run (flags : Word) (h : Stands fmt (i + 1) r) (hn : r.length < n) :
    ∃ v, readFlags fmt n i flags = .ok (i + 1 + (r.takeWhile isFlag).length, v) := by
  induction r generalizing n flags i with
  | nil =>
    obtain ⟨n, rfl⟩ := Nat.exists_eq_add_of_lt hn
    exact ⟨flags, by rw [readFlags]; simp only [readAt_eq h]; rfl⟩
  | cons c r ih =>
    rw [List.length_cons] at hn
    obtain ⟨n, rfl⟩ := Nat.exists_eq_succ_of_ne_zero (Nat.ne_of_gt (Nat.zero_lt_of_lt hn))
    rw [readFlags]
    simp only [readAt_eq h, ok_bind, List.headD_cons, List.takeWhile_cons, isFlag_eq]
    rcases hf : flagOf c with _ | f
    · exact ⟨flags, rfl⟩
    · obtain ⟨v, hv⟩ := ih (flags ||| f) h.next (Nat.lt_of_succ_lt_succ hn)
      refine ⟨v, ?_⟩
      change readFlags fmt n (i + 1) (flags ||| f) = _
      rw [hv, Option.isSome_some, if_pos rfl, List.length_cons, Nat.add_assoc _ 1,
        Nat.add_comm 1]

/-- Where a number is left: behind its digits, but at its star. -/
def behind (l : List Byte) : List Byte := if (amount l).1 = .star then l else (amount l).2

theorem behind_digits {c : Byte} (hc : isDigit c = true) :
    behind (c :: l) = (c :: l).dropWhile isDigit := by
  have hne : c ≠ ch '*' := by
    rintro rfl
    exact absurd hc (by decide)
  rw [behind, amount, if_neg hne]
  exact if_neg Amount.noConfusion

theorem behind_other {c : Byte} (hc : ¬isDigit c = true) : behind (c :: l) = c :: l := by
  rw [behind, amount]
  rcases eq_or_ne c (ch '*') with hstar | hstar
  · rw [if_pos hstar]
    rfl
  · rw [if_neg hstar, if_neg Amount.noConfusion]
    exact List.dropWhile_cons_of_neg hc

/-- Behind the characters that are passed. -/
theorem stands_span (p : Byte → Bool) (h : Stands fmt i r) :
    Stands fmt (i + (r.takeWhile p).length) (r.dropWhile p) := by
  refine Stands.skip ?_
  rwa [List.takeWhile_append_dropWhile]

theorem setWidth_pos (s : Conv) (w : Word) : (s.setWidth w).pos = s.pos := by
  rw [Conv.setWidth]
  split <;> rfl

/-- **A number**, of which the digits are passed and the star is not. -/
theorem number_run {f : Word × ℕ → Conv} {t : Conv} (hf : ∀ v, (f v).pos = v.2)
    (ht : t.pos = s.pos) (h : Stands fmt s.pos r) (hn : r.length < n) :
    ∃ s', (do
      let c ← readAt fmt s.pos
      if isDigit c then do
        let v ← skipAtoi fmt n 0 s.pos
        pure (f v)
      else if c = ch '*' then pure t
      else pure s : Except Fault Conv) = .ok s' ∧ Stands fmt s'.pos (behind r) := by
  rw [readAt_eq h, ok_bind]
  rcases r with _ | ⟨c, r⟩
  · exact ⟨s, rfl, h⟩
  · rw [List.headD_cons]
    split_ifs with hdigit hstar
    · obtain ⟨v, hv⟩ := skipAtoi_run (w := 0) h hn
      rw [hv, ok_bind, behind_digits hdigit]
      exact ⟨_, rfl, by rw [hf]; exact stands_span isDigit h⟩
    · rw [behind_other hdigit]
      exact ⟨_, rfl, by rwa [ht]⟩
    · rw [behind_other hdigit]
      exact ⟨_, rfl, h⟩

/-- **The width** is read up to its end, a star apart. -/
theorem readWidth_run (args : ℕ → Word) (h : Stands fmt s.pos r) (hn : r.length < n) :
    ∃ s', readWidth fmt args n s = .ok s' ∧ Stands fmt s'.pos (behind r) :=
  number_run (f := fun v => { s with width := v.1, pos := v.2 }) (fun _ => rfl)
    (setWidth_pos s (args s.arg)) h hn

theorem readDotted_run (args : ℕ → Word) (h : Stands fmt s.pos r) (hn : r.length < n) :
    ∃ s', readDotted fmt args n s = .ok s' ∧ Stands fmt s'.pos (behind r) :=
  number_run (f := fun v => { s with precision := v.1, pos := v.2 })
    (t := { s with precision := args s.arg, arg := s.arg + 1 }) (fun _ => rfl) rfl h hn

/-- Where a precision is left. -/
def behindDot : List Byte → List Byte
  | [] => []
  | c :: l => if c = ch '.' then behind l else c :: l

/-- **The precision** is read up to its end, a star apart. -/
theorem readPrecision_run (args : ℕ → Word) (h : Stands fmt s.pos r) (hn : r.length < n) :
    ∃ s', readPrecision fmt args n s = .ok s' ∧ Stands fmt s'.pos (behindDot r) := by
  rw [readPrecision, readAt_eq h, ok_bind]
  rcases r with _ | ⟨c, r⟩
  · exact ⟨s, rfl, h⟩
  · rw [List.length_cons] at hn
    rw [List.headD_cons, behindDot]
    split_ifs with hdot
    · obtain ⟨t, ht, hstands⟩ := readDotted_run (s := { s with pos := s.pos + 1 }) args h.next
        (Nat.lt_of_succ_lt hn)
      rw [ht, ok_bind]
      refine ⟨_, rfl, ?_⟩
      split_ifs
      · exact hstands
      · exact hstands
    · exact ⟨s, rfl, h⟩

/-- **The qualifier** is passed. -/
theorem readQualifier_run (h : Stands fmt s.pos r) :
    ∃ s', readQualifier fmt s = .ok s' ∧ Stands fmt s'.pos (qualified r).2 := by
  rw [readQualifier, readAt_eq h, ok_bind]
  rcases r with _ | ⟨c, r⟩
  · exact ⟨s, rfl, h⟩
  · rw [List.headD_cons, qualified, isQualifier]
    simp only [decide_eq_true_eq]
    split_ifs
    · exact ⟨_, rfl, h.next⟩
    · exact ⟨s, rfl, h⟩

/-- A number is written in the bases that there are. -/
theorem numeral_run {num base : Word} (hbase : 2 ≤ base.toInt ∧ base.toInt ≤ 36) (s : Conv) :
    ∃ d, numeral num base s = .ok d ∧ d.pos = s.pos := by
  rw [numeral, number_eq hbase]
  exact ⟨_, rfl, rfl⟩

/-- **The character of a conversion has been handled**: what is to be shown for it is written, and
the loop goes on behind it. -/
def Finishes (fmt r : List Byte) (x : Except Fault Done) : Prop :=
  ∃ d, x = .ok d ∧ Stands fmt (d.pos + 1) r.tail ∧ Shows r.head? d.written

/-- A known conversion. -/
theorem finishes_known {c : Byte} (h : Stands fmt s.pos (c :: r)) (hc : c ∈ known)
    {x : Except Fault Done} (hx : ∃ d, x = .ok d ∧ d.pos = s.pos) : Finishes fmt (c :: r) x := by
  obtain ⟨d, hd, hend⟩ := hx
  refine ⟨d, hd, ?_, Or.inl hc⟩
  rw [hend]
  exact h.next

/-- **The conversion character**: a known one is written somehow, the others as they are to be; and
a conversion that is cut off does not go on. -/
theorem convert_run (h : Stands fmt s.pos r) (hpos : 0 < s.pos) (hnul : ∀ c ∈ r, c ≠ 0) :
    Finishes fmt r (convert fmt args strings count s) := by
  rw [convert, readAt_eq h, ok_bind]
  rcases r with _ | ⟨c, r⟩
  · refine ⟨⟨s.pos - 1, s.arg, [ch '%'], []⟩, rfl, ?_, rfl⟩
    change Stands fmt (s.pos - 1 + 1) []
    rwa [Nat.sub_add_cancel hpos]
  · have hdone := @finishes_known fmt r s c h
    rw [List.headD_cons]
    refine iteInduction (fun hc => hdone (by rw [hc]; decide) ⟨_, rfl, rfl⟩) fun _ => ?_
    refine iteInduction (fun hc => hdone (by rw [hc]; decide) ⟨_, rfl, rfl⟩) fun _ => ?_
    refine iteInduction (fun hc => hdone (by rw [hc]; decide) (numeral_run (by decide) s))
      fun _ => ?_
    refine iteInduction (fun hc => ?_) fun _ => ?_
    · refine iteInduction (fun _ => ?_) fun _ => ?_
      · exact hdone (by rw [hc]; decide) (numeral_run (by decide) { s with
          width := 8
          flags := s.flags ||| Flag.zeropad })
      · exact hdone (by rw [hc]; decide) (numeral_run (by decide) s)
    refine iteInduction (fun hc => ?_) fun _ => ?_
    · exact hdone (by rw [hc]; decide)
        (numeral_run (by decide) { s with flags := s.flags ||| Flag.small })
    refine iteInduction (fun hc => hdone (by rw [hc]; decide) (numeral_run (by decide) s))
      fun _ => ?_
    refine iteInduction (fun hc => ?_) fun _ => ?_
    · exact hdone (by rcases hc with hc | hc <;> rw [hc] <;> decide)
        (numeral_run (by decide) { s with flags := s.flags ||| Flag.sign })
    refine iteInduction (fun hc => hdone (by rw [hc]; decide) (numeral_run (by decide) s))
      fun _ => ?_
    refine iteInduction (fun hc => hdone (by rw [hc]; decide) ⟨_, rfl, rfl⟩) fun _ => ?_
    -- the characters that are not known
    have hc : c ≠ 0 := hnul c List.mem_cons_self
    rw [if_pos hc]
    refine ⟨_, rfl, h.next, Or.inr ?_⟩
    rcases eq_or_ne c (ch '%') with hp | hp
    · rw [if_neg (not_not.mpr hp), if_pos hp, hp]
      rfl
    · rw [if_pos hp, if_neg hp]
      rfl

/-! ### A turn -/

/-- Where the character of a conversion is looked for. -/
def atLetter (l : List Byte) : List Byte :=
  (qualified (behindDot (behind (l.dropWhile isFlag)))).2

theorem length_behind (l : List Byte) : (behind l).length ≤ l.length := by
  rw [behind]
  split
  · exact le_rfl
  · exact length_amount l

theorem length_atLetter (l : List Byte) : (atLetter l).length ≤ l.length := by
  have hflags := List.length_dropWhile_le isFlag l
  have hwidth := length_behind (l.dropWhile isFlag)
  have hprecision : (behindDot (behind (l.dropWhile isFlag))).length ≤
      (behind (l.dropWhile isFlag)).length := by
    rcases behind (l.dropWhile isFlag) with _ | ⟨c, r⟩
    · exact le_rfl
    · rw [behindDot]
      split
      · exact (length_behind r).trans (Nat.le_succ _)
      · exact le_rfl
  exact (length_qualified _).trans (hprecision.trans (hwidth.trans hflags))

/-- **A conversion**, whatever it looks like. -/
theorem conversion_run (args : ℕ → Word) (strings : Word → List Byte) (arg count : ℕ)
    (h : Stands fmt i (c :: l)) (hn : l.length < n) (hnul : ∀ c ∈ fmt, c ≠ 0) :
    Finishes fmt (atLetter l) (conversion fmt args strings n i arg count) := by
  have hlen := h.length
  have hflags := List.length_dropWhile_le isFlag l
  obtain ⟨flags, hrun⟩ := readFlags_run 0 h.next hn
  have hstands := stands_span isFlag h.next
  obtain ⟨s₁, hs₁, h₁⟩ := readWidth_run args
    (s := ⟨i + 1 + (l.takeWhile isFlag).length, arg, flags, -1, -1⟩) hstands (hflags.trans_lt hn)
  have hwidth := (length_behind (l.dropWhile isFlag)).trans hflags
  obtain ⟨s₂, hs₂, h₂⟩ := readPrecision_run args h₁ (hwidth.trans_lt hn)
  obtain ⟨s₃, hs₃, h₃⟩ := readQualifier_run h₂
  have hpos : 0 < s₃.pos := by
    have hletter := h₃.length
    have hle := length_atLetter l
    rw [atLetter] at hle
    rw [List.length_cons] at hlen
    omega
  have hleft : ∀ x ∈ atLetter l, x ≠ 0 := by
    intro x hx
    rw [atLetter, ← h₃.drop] at hx
    exact hnul x (List.mem_of_mem_drop hx)
  rw [conversion, hrun, ok_bind]
  simp only [hs₁, hs₂, hs₃, ok_bind]
  exact convert_run h₃ hpos hleft

/-- **Without a star**, the code is where the conversion has its character. -/
theorem atLetter_plain (h : ¬(item (ch '%') l).1.Starred) :
    (item (ch '%') l).2 = (atLetter l).tail ∧
      ∀ written, (item (ch '%') l).1.Writes written ↔ Shows (atLetter l).head? written := by
  have hitem : item (ch '%') l = _ := if_pos rfl
  rw [hitem] at h ⊢
  simp only [Item.Starred, not_or] at h
  obtain ⟨hwidth, hprecision⟩ := h
  have hbehind : behind (l.dropWhile isFlag) = (amount (l.dropWhile isFlag)).2 := if_neg hwidth
  have hdot : behindDot (amount (l.dropWhile isFlag)).2 =
      (dotted (amount (l.dropWhile isFlag)).2).2 := by
    generalize (amount (l.dropWhile isFlag)).2 = t at hprecision ⊢
    rcases t with _ | ⟨c, r⟩
    · rfl
    · rw [dotted] at hprecision
      rw [behindDot, dotted]
      split_ifs at hprecision ⊢
      · exact if_neg fun hs => hprecision (congrArg some hs)
      · rfl
  rw [atLetter, hbehind, hdot]
  exact ⟨rfl, fun _ => Iff.rfl⟩

/-- A character makes what is left shorter. -/
theorem head_of_tail_length {q t : List Byte} (hle : q.length ≤ t.length)
    (h : q.tail.length = t.length) : q.head? = none := by
  rcases q with _ | ⟨c, q⟩
  · rfl
  · rw [List.length_cons] at hle
    rw [List.tail_cons] at h
    omega

/-- **At a star** the code stays, whether it is the width or the precision; the conversion ends
behind that, unless the format is at its end. -/
theorem atLetter_star (h : (item (ch '%') l).1.Starred) :
    ∃ t, atLetter l = ch '*' :: t ∧ ((item (ch '%') l).2.length = t.length →
      ∀ written, (item (ch '%') l).1.Writes written → written = [ch '%']) := by
  have hitem : item (ch '%') l = _ := if_pos rfl
  rw [hitem] at h ⊢
  have hdot := length_dotted (amount (l.dropWhile isFlag)).2
  have hqualified := length_qualified (dotted (amount (l.dropWhile isFlag)).2).2
  rcases eq_or_ne (amount (l.dropWhile isFlag)).1 .star with hwidth | hwidth
  · have hl := amount_star hwidth
    have hbehind : behind (l.dropWhile isFlag) = l.dropWhile isFlag := if_pos hwidth
    refine ⟨(amount (l.dropWhile isFlag)).2, ?_, fun hlen written hw => ?_⟩
    · rw [atLetter, hbehind, hl]
      rfl
    · have hnone := head_of_tail_length (hqualified.trans hdot) hlen
      rw [Item.Writes, hnone] at hw
      exact hw
  · have hprecision := h.resolve_left hwidth
    have hl := dotted_star hprecision
    have hbehind : behind (l.dropWhile isFlag) = (amount (l.dropWhile isFlag)).2 := if_neg hwidth
    refine ⟨(dotted (amount (l.dropWhile isFlag)).2).2, ?_, fun hlen written hw => ?_⟩
    · rw [atLetter, hbehind, hl]
      rfl
    · have hnone := head_of_tail_length hqualified hlen
      rw [Item.Writes, hnone] at hw
      exact hw

/-- **A turn of the loop**: without a star it is the turn of the first piece, and with one it is not
one. -/
theorem body_run (args : ℕ → Word) (strings : Word → List Byte) {p : Print}
    (h : Stands fmt p.pos (c :: l)) (hn : l.length < n)
    (hnul : ∀ c ∈ fmt, c ≠ 0) :
    ∃ d t, body fmt args strings n c p = .ok d ∧ Stands fmt (d.pos + 1) t ∧
      t.length ≤ l.length ∧
      (¬(item c l).1.Starred → t = (item c l).2 ∧ Handles (item c l).1 (turnAt fmt p.pos d)) ∧
      ((item c l).1.Starred → ¬Handles (item c l).1 (turnAt fmt p.pos d)) := by
  have hrender := item_render c l
  have htext : ∀ {d : Done} {pre t : List Byte}, pre ++ t = c :: l → Stands fmt (d.pos + 1) t →
      (turnAt fmt p.pos d).text = pre := by
    rintro d pre t hpre hd
    exact Stands.between (by rwa [hpre]) hd
  rcases eq_or_ne c (ch '%') with rfl | hc
  · obtain ⟨d, hd, hstands, hshows⟩ := conversion_run args strings p.arg p.out.length h hn
      hnul
    refine ⟨d, (atLetter l).tail, ?_, hstands, ?_, fun hplain => ?_, fun hstar hhandles => ?_⟩
    · rw [body, if_neg (not_not.mpr rfl), hd]
    · rw [List.length_tail]
      exact (Nat.sub_le _ _).trans (length_atLetter l)
    · obtain ⟨hrest, hwrites⟩ := atLetter_plain hplain
      rw [hrest] at hrender
      exact ⟨hrest.symm, htext hrender hstands, (hwrites _).mpr hshows⟩
    · obtain ⟨t, ht, hend⟩ := atLetter_star hstar
      rw [ht] at hstands hshows
      have hwritten : d.written = [ch '%', ch '*'] :=
        hshows.resolve_left (by decide)
      -- a turn of the same length leaves as much, so that the format is at its end
      have hlen : (item (ch '%') l).2.length = t.length := by
        have htaken := congrArg List.length hhandles.text
        have htext := congrArg List.length hrender
        have hpos := List.length_pos_of_ne_nil (render_ne_nil (item (ch '%') l).1)
        have hfirst := h.length
        have hlast := hstands.length
        rw [turnAt, List.length_take, List.length_drop] at htaken
        rw [List.length_append, List.length_cons] at htext
        rw [List.length_cons] at hfirst
        rw [List.tail_cons] at hlast
        omega
      have hpercent := hend hlen _ hhandles.written
      rw [show (turnAt fmt p.pos d).written = d.written from rfl, hwritten] at hpercent
      exact absurd hpercent (by decide)
  · have hitem : item c l = (.char c, l) := if_neg hc
    rw [hitem] at hrender ⊢
    refine ⟨⟨p.pos, p.arg, [c], []⟩, l, ?_, h.next, le_rfl, fun _ => ⟨rfl, ?_⟩, fun hstar => ?_⟩
    · rw [body, if_pos hc]
      rfl
    · exact ⟨htext hrender h.next, rfl⟩
    · exact hstar.elim

/-- **The loop** comes to the end of the format; its turns are those of the pieces if and only if
there is no star. -/
theorem loop_run (args : ℕ → Word) (strings : Word → List Byte) (hnul : ∀ c ∈ fmt, c ≠ 0)
    (hn : fmt.length < n) :
    ∀ (m : ℕ) (rest : List Byte) (p : Print), Stands fmt p.pos rest → rest.length < m →
      ∃ q ts, loop fmt args strings n m p = .ok q ∧ q.turns = p.turns ++ ts ∧
        q.out = p.out ++ ts.flatMap Turn.written ∧
        (List.Forall₂ Handles (parse rest) ts ↔ ∀ it ∈ parse rest, ¬it.Starred) := by
  intro m
  induction m with
  | zero => exact fun rest p _ hm => absurd hm (Nat.not_lt_zero _)
  | succ m ih =>
    intro rest p h hm
    rw [loop, readAt_eq h, ok_bind]
    rcases rest with _ | ⟨c, l⟩
    · refine ⟨p, [], rfl, (List.append_nil _).symm, (List.append_nil _).symm, ?_⟩
      rw [parse]
      simp
    · have hlen := h.length
      rw [List.length_cons] at hlen hm
      have hc : c ≠ 0 := by
        refine hnul c (List.mem_of_mem_drop (i := p.pos) ?_)
        rw [h.drop]
        exact List.mem_cons_self
      obtain ⟨d, t, hd, hstands, hle, hplain, hstar⟩ := body_run args strings (n := n) h
        (by omega) hnul
      rw [List.headD_cons, if_neg hc, hd, ok_bind]
      obtain ⟨q, ts, hq, hturns, hout, hiff⟩ := ih t (p.next fmt d) hstands (by omega)
      refine ⟨q, turnAt fmt p.pos d :: ts, hq, ?_, ?_, ?_⟩
      · rw [hturns, Print.next, List.append_assoc]
        rfl
      · rw [hout, Print.next, List.append_assoc]
        rfl
      · rw [parse, List.forall₂_cons, List.forall_mem_cons]
        by_cases hs : (item c l).1.Starred
        · exact ⟨fun ht => absurd ht.1 (hstar hs), fun ht => absurd hs ht.1⟩
        · obtain ⟨rfl, hhandles⟩ := hplain hs
          exact and_congr (iff_of_true hhandles hs) hiff

end Stages

/-! ### Every format -/

/-- **The NUL lies right behind what has been written, and its length is returned.** -/
structure Ends (r : Result) : Prop where
  buf : r.buf = r.turns.flatMap Turn.written ++ [0]
  ret : r.ret = BitVec.ofNat 32 (r.turns.flatMap Turn.written).length

/-- **`vsprintf` handles a format piece by piece if and only if no conversion takes its width or its
precision from the arguments**; and whatever the format is, it comes to an end with its NUL. -/
theorem vsprintf_handles_iff (fmt : List Byte) (args : ℕ → Word) (strings : Word → List Byte)
    (hnul : ∀ c ∈ fmt, c ≠ 0) (n : ℕ) (hn : fmt.length < n) :
    ∃ r, vsprintf fmt args strings n = .ok r ∧ Ends r ∧
      (List.Forall₂ Handles (parse fmt) r.turns ↔ ∀ it ∈ parse fmt, ¬it.Starred) := by
  obtain ⟨q, ts, hq, hturns, hout, hiff⟩ := loop_run args strings hnul hn n fmt
    ⟨0, 0, [], [], []⟩ .start hn
  rw [List.nil_append] at hturns hout
  rw [vsprintf, hq, ok_bind]
  refine ⟨_, rfl, ⟨?_, ?_⟩, ?_⟩
  · rw [hout, hturns]
  · rw [hout, hturns]
  · rw [hturns]
    exact hiff

/-- `%-5d` behind a character, cut off. -/
theorem vsprintf_handles_iff_truncated :
    ∃ r, vsprintf [ch 'a', ch '%', ch '-', ch '5'] (fun _ => 0) (fun _ => []) 5 = .ok r ∧
      Ends r ∧ (List.Forall₂ Handles (parse [ch 'a', ch '%', ch '-', ch '5']) r.turns ↔
        ∀ it ∈ parse [ch 'a', ch '%', ch '-', ch '5'], ¬it.Starred) :=
  vsprintf_handles_iff _ _ _ (by decide) 5 (by decide)

/-- **A star is not passed**: `%*y` is taken for the conversion `%*` and the character `y`. -/
theorem not_vsprintf_handles :
    ¬∀ (fmt : List Byte) (args : ℕ → Word) (strings : Word → List Byte), (∀ c ∈ fmt, c ≠ 0) →
      ∃ k, ∀ n, k < n → ∃ r, vsprintf fmt args strings n = .ok r ∧ Ends r ∧
        List.Forall₂ Handles (parse fmt) r.turns := by
  intro h
  have hnul : ∀ c ∈ [ch '%', ch '*', ch 'y'], c ≠ 0 := by decide
  obtain ⟨k, hk⟩ := h _ (fun _ => 0) (fun _ => []) hnul
  obtain ⟨r, hr, -, hturns⟩ := hk (k + 4) (by omega)
  obtain ⟨q, ts, hq, hqturns, -, hiff⟩ := loop_run (fun _ => 0) (fun _ => [])
    (n := k + 4) hnul (by simp) (k + 4) _ ⟨0, 0, [], [], []⟩ .start (by simp)
  rw [vsprintf, hq, ok_bind] at hr
  obtain rfl := Except.ok.inj hr
  rw [List.nil_append] at hqturns
  rw [hqturns] at hturns
  refine hiff.mp hturns (item (ch '%') [ch '*', ch 'y']).1 ?_ (Or.inl rfl)
  rw [parse]
  exact List.mem_cons_self

end Linux011.Vsprintf

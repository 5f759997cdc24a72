import Linux011.Lib.Countdown
import Mathlib.Data.List.GetD
import Mathlib.Data.Nat.Digits.Lemmas
import Mathlib.Tactic.Linarith

/-!
# `number`

The routine of `kernel/vsprintf.c` that writes a number: its digits go to `tmp` from the last one
on, and the field's width is counted down by three loops in a row
(`Linux011.Vsprintf.number_eq`). Each of them takes one more than it writes, so that a counter near
the end of its range comes back at the other end, and a later loop writes two thousand million
blanks. `Linux011.Vsprintf.number_prints_iff` says for which fields it does not.
-/

namespace Linux011.Vsprintf

/-- A `char`. -/
abbrev Byte := BitVec 8

/-- An `int`, or a `long`. -/
abbrev Word := BitVec 32

/-- The code of a character. -/
def ch (c : Char) : Byte := BitVec.ofNat 8 c.toNat

/-! ### The source -/

namespace Flag

/-- `ZEROPAD`: pad with zero. -/
def zeropad : Word := 1

/-- `SIGN`: unsigned/signed long. -/
def sign : Word := 2

/-- `PLUS`: show plus. -/
def plus : Word := 4

/-- `SPACE`: space if plus. -/
def space : Word := 8

/-- `LEFT`: left justified. -/
def left : Word := 16

/-- `SPECIAL`: 0x. -/
def special : Word := 32

/-- `SMALL`: use `abcdef` instead of `ABCDEF`. -/
def small : Word := 64

end Flag

/-- What must not happen. -/
inductive Fault
  /-- `tmp` is indexed outside of it. -/
  | tmp
  /-- `digits` is. -/
  | digits
  /-- A division by 0. -/
  | divide
  /-- The format is read behind its end. -/
  | fmt
  /-- `str` is no place any more. -/
  | str
  /-- There are too few rounds for a loop. -/
  | rounds
  deriving DecidableEq

/-- An array is read. -/
def load (e : Fault) (a : List Byte) (i : ℕ) : Except Fault Byte :=
  match a[i]? with
  | none => throw e
  | some c => pure c

/-- The decimal digits. -/
def decimals : List Byte := ['0', '1', '2', '3', '4', '5', '6', '7', '8', '9'].map ch

/-- `digits` -/
def digitsOf (type : Word) : List Byte :=
  decimals ++
    (if type &&& Flag.small ≠ 0 then
      ['a', 'b', 'c', 'd', 'e', 'f', 'g', 'h', 'i', 'j', 'k', 'l', 'm', 'n', 'o', 'p', 'q', 'r',
        's', 't', 'u', 'v', 'w', 'x', 'y', 'z']
    else
      ['A', 'B', 'C', 'D', 'E', 'F', 'G', 'H', 'I', 'J', 'K', 'L', 'M', 'N', 'O', 'P', 'Q', 'R',
        'S', 'T', 'U', 'V', 'W', 'X', 'Y', 'Z']).map ch

/-- `do_div`: an unsigned division, the quotient and the remainder. -/
def doDiv (n base : Word) : Except Fault (Word × Word) :=
  if base = 0 then throw .divide else pure (n / base, n % base)

/-- `while (num!=0) tmp[i++]=digits[do_div(num,base)];`: what is stored, with so many places of
`tmp` left. -/
def digitLoop (digits : List Byte) (base : Word) : ℕ → Word → Except Fault (List Byte)
  | 0, num => if num = 0 then pure [] else throw .tmp
  | room + 1, num =>
    if num = 0 then pure []
    else do
      let (quot, res) ← doDiv num base
      let c ← load .digits digits res.toNat
      let rest ← digitLoop digits base room quot
      pure (c :: rest)

/-- `if (num==0) tmp[i++]='0';`, and the loop else: what is in `tmp`. -/
def tmpOf (digits : List Byte) (base num : Word) : Except Fault (List Byte) :=
  if num = 0 then pure [ch '0'] else digitLoop digits base 36 num

/-- `while(i-->0) *str++ = tmp[i];` -/
def copyDown (tmp : List Byte) : ℕ → Except Fault (List Byte)
  | 0 => pure []
  | i + 1 => do
    let c ← load .tmp tmp i
    let rest ← copyDown tmp i
    pure (c :: rest)

/-- `if (type&LEFT) type &= ~ZEROPAD;` -/
def cleared (type : Word) : Word :=
  if type &&& Flag.left ≠ 0 then type &&& ~~~Flag.zeropad else type

/-- `sign` -/
def signOf (num type : Word) : Byte :=
  if type &&& Flag.sign ≠ 0 ∧ num.toInt < 0 then ch '-'
  else if type &&& Flag.plus ≠ 0 then ch '+'
  else if type &&& Flag.space ≠ 0 then ch ' '
  else 0

/-- `num`, which has been negated beside the sign `-`. -/
def magnitude (num type : Word) : Word :=
  if type &&& Flag.sign ≠ 0 ∧ num.toInt < 0 then -num else num

/-- `if (type&SPECIAL)`: what is taken from `size`. -/
def lessSpecial (base size type : Word) : Word :=
  if type &&& Flag.special ≠ 0 then
    if base = 16 then size - 2 else if base = 8 then size - 1 else size
  else size

/-- `if (type&SPECIAL)`: what is written. -/
def specialOf (digits : List Byte) (base type : Word) : Except Fault (List Byte) :=
  if type &&& Flag.special ≠ 0 then
    if base = 8 then pure [ch '0']
    else if base = 16 then do
      let x ← load .digits digits 33
      pure [ch '0', x]
    else pure []
  else pure []

/-- `if (i>precision) precision=i;` -/
def atLeast (i precision : Word) : Word := if precision.toInt < i.toInt then i else precision

/-- The three loops on `size`, and what is written between them: the sign, the mark of the base and
the digits. -/
def lay (type size : Word) (signs special places : List Byte) : List Byte :=
  let c := if type &&& Flag.zeropad ≠ 0 then ch '0' else ch ' '
  let blanks :=
    if type &&& (Flag.zeropad + Flag.left) = 0 then padDown 0 size (ch ' ') else ([], size)
  let fill := if type &&& Flag.left = 0 then padDown 0 blanks.2 c else ([], blanks.2)
  let rest := padDown 0 fill.2 (ch ' ')
  blanks.1 ++ signs ++ special ++ fill.1 ++ places ++ rest.1

/-- **`number`**: what it writes, or none if it returns 0. -/
def number (num base size precision type : Word) : Except Fault (Option (List Byte)) :=
  let digits := digitsOf type
  let type := cleared type
  if base.toInt < 2 ∨ 36 < base.toInt then pure none
  else do
    let sign := signOf num type
    let num := magnitude num type
    let size := if sign ≠ 0 then size - 1 else size
    let size := lessSpecial base size type
    let tmp ← tmpOf digits base num
    let i := BitVec.ofNat 32 tmp.length
    let precision := atLeast i precision
    let size := size - precision
    let signs := if sign ≠ 0 then [sign] else []
    let special ← specialOf digits base type
    let zeros := padDown i precision (ch '0')
    let places ← copyDown tmp tmp.length
    pure (some (lay type size signs special (zeros.1 ++ places)))

/-! ### What is asked for -/

/-- The number that is printed: without its sign if there is one. -/
def value (num type : Word) : ℕ :=
  if type &&& Flag.sign ≠ 0 ∧ num.toInt < 0 then num.toInt.natAbs else num.toNat

/-- The sign that the flags ask for. -/
def signs (num type : Word) : List Byte :=
  if type &&& Flag.sign ≠ 0 ∧ num.toInt < 0 then [ch '-']
  else if type &&& Flag.plus ≠ 0 then [ch '+']
  else if type &&& Flag.space ≠ 0 then [ch ' ']
  else []

/-- The mark of the base that the flags ask for. -/
def marks (base type : Word) : List Byte :=
  if type &&& Flag.special = 0 then []
  else if base = 8 then [ch '0']
  else if base = 16 then [ch '0', ch (if type &&& Flag.small ≠ 0 then 'x' else 'X')]
  else []

/-- The digits a number needs. -/
def needed (base n : ℕ) : ℕ := max 1 (Nat.digits base n).length

/-- The digits that are written. -/
def count (num base precision type : Word) : ℤ :=
  max precision.toInt (needed base.toNat (value num type))

/-- The character of a digit. -/
def digitChar (type : Word) (d : ℕ) : Byte := (digitsOf type).getD d 0

/-- **A field** of so many characters, with its padding where and of what the flags ask. -/
def field (size : ℤ) (type : Word) (signs marks places : List Byte) : List Byte :=
  let n := (size - (signs ++ marks ++ places).length).toNat
  if type &&& Flag.left ≠ 0 then signs ++ marks ++ places ++ List.replicate n (ch ' ')
  else if type &&& Flag.zeropad ≠ 0 then signs ++ marks ++ List.replicate n (ch '0') ++ places
  else List.replicate n (ch ' ') ++ signs ++ marks ++ places

/-- **The digits are those of the number, and stand in the field.** -/
structure Printed (num base size precision type : Word) (places : List ℕ) (out : List Byte) :
    Prop where
  digit : ∀ d ∈ places, d < base.toNat
  value : Nat.ofDigits base.toNat places.reverse = value num type
  count : (places.length : ℤ) = count num base precision type
  field : out = field size.toInt type (signs num type) (marks base type)
    (places.map (digitChar type))
  length : (out.length : ℤ) =
    max size.toInt ((signs num type).length + (marks base type).length + places.length)

/-- **What is written is the number**, as the flags ask for it. -/
def Prints (num base size precision type : Word) (out : List Byte) : Prop :=
  ∃ places, Printed num base size precision type places out

/-- How many loops come before the last one. -/
def loops (type : Word) : ℤ :=
  if type &&& Flag.left ≠ 0 then 0 else if type &&& Flag.zeropad ≠ 0 then 1 else 2

/-- The characters that are left for padding; there may be less than none. -/
def room (num base size precision type : Word) : ℤ :=
  size.toInt - (signs num type).length - (marks base type).length -
    count num base precision type

/-- **The counter stays away from the end of its range**: there is room for one step below it for
each loop before the last, or it has gone round and is at the same side of 0 again. -/
def Fits (num base size precision type : Word) : Prop :=
  -2 ^ 31 + loops type ≤ room num base size precision type ∨
    room num base size precision type ≤ -2 ^ 32

/-! ### The flags -/

section Flags

variable {type f : Word}

theorem cleared_and (hf : ~~~Flag.zeropad &&& f = f) : cleared type &&& f = type &&& f := by
  rw [cleared]
  split
  · rw [BitVec.and_assoc, hf]
  · rfl

theorem cleared_zeropad :
    cleared type &&& Flag.zeropad ≠ 0 ↔
      ¬type &&& Flag.left ≠ 0 ∧ type &&& Flag.zeropad ≠ 0 := by
  rw [cleared]
  split <;> rename_i h
  · have hclear : ~~~Flag.zeropad &&& Flag.zeropad = 0#32 := rfl
    rw [BitVec.and_assoc, hclear, BitVec.and_zero]
    exact ⟨fun hne => absurd rfl hne, fun hne => absurd h hne.1⟩
  · exact ⟨fun hz => ⟨h, hz⟩, fun hz => hz.2⟩

theorem cleared_both :
    cleared type &&& (Flag.zeropad + Flag.left) = 0 ↔
      ¬type &&& Flag.left ≠ 0 ∧ ¬type &&& Flag.zeropad ≠ 0 := by
  have hsum : Flag.zeropad + Flag.left = Flag.zeropad ||| Flag.left := rfl
  have hleft : cleared type &&& Flag.left = type &&& Flag.left := cleared_and rfl
  have hor : ∀ x y : Word, x ||| y = 0 ↔ x = 0 ∧ y = 0 := fun x y => BitVec.or_eq_zero_iff
  rw [hsum, BitVec.and_or_distrib_left, hor, hleft]
  constructor
  · rintro ⟨hz, hl⟩
    exact ⟨not_not.mpr hl, fun hne => cleared_zeropad.mpr ⟨not_not.mpr hl, hne⟩ hz⟩
  · rintro ⟨hl, hz⟩
    exact ⟨by_contra fun hne => hz (cleared_zeropad.mp hne).2, not_not.mp hl⟩

end Flags

/-! ### The pieces -/

section Pieces

variable {num base size type : Word} {digits tmp : List Byte}

theorem signOf_signs (num type : Word) :
    (if signOf num type ≠ 0 then [signOf num type] else []) = signs num type := by
  rw [signOf, signs]
  split_ifs <;> first | rfl | simp_all [ch]

theorem less_signs (num size type : Word) :
    (if signOf num type ≠ 0 then size - 1 else size) =
      size - BitVec.ofInt 32 (signs num type).length := by
  rw [← signOf_signs]
  split_ifs
  · rfl
  · simp

theorem lessSpecial_eq (base size type : Word) :
    lessSpecial base size type = size - BitVec.ofInt 32 (marks base type).length := by
  rw [lessSpecial, marks]
  split_ifs <;> simp_all

theorem toNat_eq_zero {x : Word} : x.toNat = 0 ↔ x = 0 := by
  rw [← BitVec.toNat_inj]
  rfl

theorem length_digitsOf (type : Word) : (digitsOf type).length = 36 := by
  rw [digitsOf]
  split_ifs <;> rfl

theorem load_eq {e : Fault} {a : List Byte} {i : ℕ} (h : i < a.length) :
    load e a i = .ok (a.getD i 0) := by
  rw [load, List.getElem?_eq_getElem h, List.getD_eq_getElem _ _ h]
  rfl

theorem specialOf_eq (base type : Word) :
    specialOf (digitsOf type) base (cleared type) = .ok (marks base type) := by
  have hspecial : cleared type &&& Flag.special = type &&& Flag.special := cleared_and rfl
  have hx : (digitsOf type).getD 33 0 = ch (if type &&& Flag.small ≠ 0 then 'x' else 'X') := by
    rw [digitsOf]
    split_ifs <;> rfl
  rw [specialOf, hspecial, load_eq (by rw [length_digitsOf]; omega), hx, marks]
  rcases eq_or_ne (type &&& Flag.special) 0 with hs | hs
  · rw [if_neg (not_not.mpr hs), if_pos hs]
    rfl
  · rw [if_pos hs, if_neg hs]
    split_ifs <;> rfl

/-- **The digits**: `tmp` has room for them, and they are those of the number. -/
theorem digitLoop_eq (hlen : digits.length = 36) (hlow : 2 ≤ base.toNat)
    (hhigh : base.toNat ≤ 36) :
    ∀ room num, num.toNat < 1 <<< room → digitLoop digits base room num =
      .ok ((Nat.digits base.toNat num.toNat).map (digits.getD · 0)) := by
  intro room
  induction room with
  | zero =>
    intro num hnum
    have hzero : num.toNat = 0 := Nat.lt_one_iff.mp hnum
    rw [digitLoop, if_pos (toNat_eq_zero.mp hzero), hzero, Nat.digits_zero]
    rfl
  | succ room ih =>
    intro num hnum
    rw [digitLoop]
    rcases eq_or_ne num 0 with hzero | hne
    · rw [if_pos hzero, toNat_eq_zero.mpr hzero, Nat.digits_zero]
      rfl
    · have hpos : 0 < num.toNat := by
        rw [Nat.pos_iff_ne_zero, ne_eq, toNat_eq_zero]
        exact hne
      have hbase : base ≠ 0 := by
        rintro rfl
        exact absurd hlow (by decide)
      have hres : (num % base).toNat < base.toNat := by
        rw [BitVec.toNat_umod]
        exact Nat.mod_lt _ (by omega)
      have hquot : (num / base).toNat < 1 <<< room := by
        rw [BitVec.toNat_udiv]
        rw [Nat.shiftLeft_succ] at hnum
        exact Nat.div_lt_of_lt_mul (by nlinarith)
      rw [if_neg hne, doDiv, if_neg hbase]
      simp only [pure_bind]
      rw [load_eq (by omega), ih _ hquot, Nat.digits_def' hlow hpos, BitVec.toNat_udiv,
        BitVec.toNat_umod]
      rfl

/-- The digits of a number, the last one first, at least one. -/
def places (base n : ℕ) : List ℕ := if n = 0 then [0] else Nat.digits base n

theorem length_places {base n : ℕ} (hb : 2 ≤ base) : (places base n).length = needed base n := by
  rw [places, needed]
  rcases Nat.eq_zero_or_pos n with rfl | hpos
  · rw [if_pos rfl, Nat.digits_zero]
    rfl
  · rw [if_neg (by omega), Nat.digits_def' hb hpos, List.length_cons]
    omega

theorem needed_le {base n : ℕ} (hb : 2 ≤ base) (hn : n < 2 ^ 32) : needed base n ≤ 32 := by
  have hpow : 2 ^ 32 ≤ base ^ 32 := Nat.pow_le_pow_left hb 32
  have hlen := (Nat.digits_length_le_iff hb n).mpr (lt_of_lt_of_le hn hpow)
  rw [needed]
  omega

/-- **`tmp`** -/
theorem tmpOf_eq (hlow : 2 ≤ base.toNat) (hhigh : base.toNat ≤ 36) (num type : Word) :
    tmpOf (digitsOf type) base num =
      .ok ((places base.toNat num.toNat).map (digitChar type)) := by
  rw [tmpOf]
  rcases eq_or_ne num 0 with hzero | hne
  · rw [if_pos hzero, places, if_pos (toNat_eq_zero.mpr hzero)]
    rfl
  · have hnum : num.toNat < 1 <<< 36 := lt_trans num.isLt (by decide)
    rw [if_neg hne, places, if_neg (mt toNat_eq_zero.mp hne),
      digitLoop_eq (length_digitsOf type) hlow hhigh 36 num hnum]
    rfl

/-- The digits come back in the other order. -/
theorem copyDown_eq (tmp : List Byte) :
    ∀ i, i ≤ tmp.length → copyDown tmp i = .ok (tmp.take i).reverse
  | 0, _ => rfl
  | i + 1, h => by
    have hi : i < tmp.length := h
    rw [copyDown, load_eq hi, copyDown_eq tmp i (by omega), List.take_succ_eq_append_getElem hi,
      List.reverse_append, List.getD_eq_getElem _ _ hi]
    rfl

/-- **A negation that does not fit** is the magnitude all the same, for a division without signs. -/
theorem magnitude_toNat (num type : Word) : (magnitude num type).toNat = value num type := by
  rw [magnitude, value]
  split
  · rename_i h
    have hneg := h.2
    have hlt := num.isLt
    rw [BitVec.toNat_neg]
    rw [BitVec.toInt_eq_toNat_cond] at hneg ⊢
    split at hneg <;> split <;> omega
  · rfl

theorem value_lt (num type : Word) : value num type < 2 ^ 32 := by
  rw [← magnitude_toNat]
  exact (magnitude num type).isLt

theorem signOf_cleared (num type : Word) : signOf num (cleared type) = signOf num type := by
  rw [signOf, signOf, cleared_and rfl, cleared_and rfl, cleared_and rfl]

theorem magnitude_cleared (num type : Word) :
    magnitude num (cleared type) = magnitude num type := by
  rw [magnitude, magnitude, cleared_and rfl]

theorem lessSpecial_cleared (base size type : Word) :
    lessSpecial base size (cleared type) = lessSpecial base size type := by
  rw [lessSpecial, lessSpecial, cleared_and rfl]

end Pieces

/-! ### What is written -/

section Written

variable {num base size precision type s : Word} {c : Byte}

/-- The counter behind a loop. -/
def after (s : Word) : Word := (if 0 < s.toInt then 0 else s) - 1

/-- The padding of a loop. -/
def pad (c : Byte) (s : Word) : List Byte := List.replicate s.toInt.toNat c

theorem padDown_zero (s : Word) (c : Byte) : padDown 0 s c = (pad c s, after s) := by
  rw [padDown_eq, pad, after, show (0 : Word).toInt = 0 from rfl, sub_zero]

/-- The digits that are written, the first one first. -/
def written (num base precision type : Word) : List ℕ :=
  List.replicate (count num base precision type -
    needed base.toNat (value num type)).toNat 0 ++ (places base.toNat (value num type)).reverse

/-- **What is written**, from the counter that the loops share. -/
def output (s type : Word) (signs marks places : List Byte) : List Byte :=
  if type &&& Flag.left ≠ 0 then signs ++ marks ++ places ++ pad (ch ' ') s
  else if type &&& Flag.zeropad ≠ 0 then
    signs ++ marks ++ pad (ch '0') s ++ places ++ pad (ch ' ') (after s)
  else pad (ch ' ') s ++ signs ++ marks ++ pad (ch ' ') (after s) ++ places ++
    pad (ch ' ') (after (after s))

/-- **The three loops**, as far as they are run through. -/
theorem lay_eq (type s : Word) (signs marks places : List Byte) :
    lay (cleared type) s signs marks places = output s type signs marks places := by
  have hleft : cleared type &&& Flag.left = type &&& Flag.left := cleared_and rfl
  rw [lay, output]
  simp only [cleared_both, cleared_zeropad, hleft, padDown_zero]
  rcases eq_or_ne (type &&& Flag.left) 0 with hl | hl
  · rcases eq_or_ne (type &&& Flag.zeropad) 0 with hz | hz
    · simp only [hl, hz, ne_eq, not_true, not_false_iff, and_self, if_true, if_false, and_false,
        List.append_assoc]
    · simp only [hl, hz, ne_eq, not_true, not_false_iff, and_true, if_true, if_false, and_false,
        List.append_assoc, List.nil_append]
  · simp only [hl, ne_eq, not_true, not_false_iff, false_and, if_true, if_false,
      List.append_assoc, List.nil_append]

/-- A count that an `int` holds. -/
theorem toInt_ofNat {n : ℕ} (h : n < 2 ^ 31) : (BitVec.ofNat 32 n).toInt = n := by
  rw [BitVec.toInt_eq_toNat_cond, BitVec.toNat_ofNat]
  split <;> omega

/-- `size`, when the loops begin. -/
theorem size_eq (hlow : 2 ≤ base.toNat) :
    lessSpecial base (size - BitVec.ofInt 32 (signs num type).length) type -
        atLeast (BitVec.ofNat 32 (needed base.toNat (value num type))) precision =
      BitVec.ofInt 32 (room num base size precision type) := by
  have hneeded := needed_le hlow (value_lt num type)
  have hcount : atLeast (BitVec.ofNat 32 (needed base.toNat (value num type))) precision =
      BitVec.ofInt 32 (count num base precision type) := by
    rw [atLeast, toInt_ofNat (by omega), count]
    split <;> rename_i h
    · rw [max_eq_right (by omega), BitVec.ofInt_natCast]
    · rw [max_eq_left (by omega), BitVec.ofInt_toInt]
  rw [lessSpecial_eq, hcount, room, ofInt_sub, ofInt_sub, ofInt_sub, BitVec.ofInt_toInt]

/-- The zeros before the digits. -/
theorem zeros_eq (hlow : 2 ≤ base.toNat) :
    let i := BitVec.ofNat 32 (needed base.toNat (value num type))
    (padDown i (atLeast i precision) (ch '0')).1 =
      List.replicate (count num base precision type - needed base.toNat (value num type)).toNat
        (ch '0') := by
  have hneeded := needed_le hlow (value_lt num type)
  intro i
  have hi : i.toInt = needed base.toNat (value num type) := toInt_ofNat (by omega)
  have hcount : (atLeast i precision).toInt = count num base precision type := by
    rw [atLeast, count]
    split <;> omega
  rw [padDown_eq, hcount, hi]

/-- A base that is taken, without its sign. -/
theorem two_le_toNat (hbase : 2 ≤ base.toInt ∧ base.toInt ≤ 36) : 2 ≤ base.toNat := by
  rw [BitVec.toInt_eq_toNat_cond] at hbase
  split at hbase <;> omega

/-- **What `number` does**, for every base it takes. -/
theorem number_eq (hbase : 2 ≤ base.toInt ∧ base.toInt ≤ 36) :
    number num base size precision type = .ok (some
      (output (BitVec.ofInt 32 (room num base size precision type)) type (signs num type)
        (marks base type) ((written num base precision type).map (digitChar type)))) := by
  have hlow := two_le_toNat hbase
  have hhigh : base.toNat ≤ 36 := by
    rw [BitVec.toInt_eq_toNat_cond] at hbase
    split at hbase <;> omega
  have hzero : digitChar type 0 = ch '0' := by
    rw [digitChar, digitsOf]
    rfl
  rw [number]
  simp only [signOf_cleared, magnitude_cleared, lessSpecial_cleared]
  rw [if_neg (by omega), tmpOf_eq hlow hhigh, specialOf_eq, magnitude_toNat]
  have hbind : ∀ (x : List Byte) (f : List Byte → Except Fault (Option (List Byte))),
      (Except.ok x >>= f) = f x := fun _ _ => rfl
  simp only [hbind]
  rw [copyDown_eq _ _ le_rfl, List.take_length, List.length_map, length_places hlow, less_signs,
    size_eq hlow, zeros_eq hlow, signOf_signs, hbind, lay_eq, written, List.map_append,
    List.map_replicate, hzero, List.map_reverse]
  rfl

/-! ### The field -/

/-- The counter behind a loop, as a number. -/
theorem after_toInt (s : Word) :
    (after s).toInt =
      if 0 < s.toInt then -1 else if s.toInt = -2 ^ 31 then 2 ^ 31 - 1 else s.toInt - 1 := by
  have hle := s.le_toInt
  rw [after]
  split_ifs with hpos hmin
  · rfl
  · have hs : s = BitVec.ofInt 32 (-2 ^ 31) := by
      rw [← hmin, BitVec.ofInt_toInt]
    rw [hs]
    rfl
  · have hone : s - 1 = BitVec.ofInt 32 (s.toInt - 1) := by
      rw [ofInt_sub, BitVec.ofInt_toInt]
      rfl
    rw [hone]
    exact toInt_ofInt_eq (by omega) (by have := s.toInt_lt; omega)

/-- How much padding is written. -/
def padding (s type : Word) : ℕ :=
  if type &&& Flag.left ≠ 0 then s.toInt.toNat
  else if type &&& Flag.zeropad ≠ 0 then s.toInt.toNat + (after s).toInt.toNat
  else s.toInt.toNat + (after s).toInt.toNat + (after (after s)).toInt.toNat

theorem length_output (s type : Word) (signs marks places : List Byte) :
    (output s type signs marks places).length =
      signs.length + marks.length + places.length + padding s type := by
  rw [output, padding]
  split_ifs <;> simp only [pad, List.length_append, List.length_replicate] <;> omega

/-- **The loops pad a field** if the first of them alone has something to do. -/
theorem output_eq_field {size : ℤ} {signs marks places : List Byte}
    (hfirst : s.toInt.toNat = (size - (signs ++ marks ++ places).length).toNat)
    (hpadding : padding s type = s.toInt.toNat) :
    output s type signs marks places = field size type signs marks places := by
  rw [padding] at hpadding
  rw [output, field, ← hfirst]
  split_ifs at hpadding ⊢
  · rfl
  · have hnext : (after s).toInt.toNat = 0 := by omega
    simp only [pad, hnext, List.replicate_zero, List.append_nil]
  · have hnext : (after s).toInt.toNat = 0 := by omega
    have hlast : (after (after s)).toInt.toNat = 0 := by omega
    simp only [pad, hnext, hlast, List.replicate_zero, List.append_nil]

/-- The room is between what a counter holds and twice that below 0. -/
theorem room_bounds (hlow : 2 ≤ base.toNat) :
    -2 ^ 32 - 2 ≤ room num base size precision type ∧
      room num base size precision type < 2 ^ 31 := by
  have hneeded := needed_le hlow (value_lt num type)
  have hsize := size.le_toInt
  have hsize' := size.toInt_lt
  have hprecision := precision.toInt_lt
  have hsigns : (signs num type).length ≤ 1 := by
    rw [signs]
    split_ifs <;> simp
  have hmarks : (marks base type).length ≤ 2 := by
    rw [marks]
    split_ifs <;> simp
  rw [room, count]
  omega

/-- **The counter** that the loops begin with. -/
theorem counter_eq (hlow : 2 ≤ base.toNat) :
    (BitVec.ofInt 32 (room num base size precision type)).toInt =
      if room num base size precision type < -2 ^ 31 then
        room num base size precision type + 2 ^ 32
      else room num base size precision type := by
  obtain ⟨hge, hlt⟩ := @room_bounds num base size precision type hlow
  split_ifs with h
  · exact toInt_ofInt_wrap (by omega) h
  · exact toInt_ofInt_eq (by omega) hlt

/-- **How much is padded** is as much as there is room for, unless the counter comes round. -/
theorem padding_iff (hlow : 2 ≤ base.toNat) :
    padding (BitVec.ofInt 32 (room num base size precision type)) type =
        (room num base size precision type).toNat ↔
      Fits num base size precision type := by
  have hcounter := @counter_eq num base size precision type hlow
  obtain ⟨hge, hlt⟩ := @room_bounds num base size precision type hlow
  have hnext := after_toInt (BitVec.ofInt 32 (room num base size precision type))
  have hlast := after_toInt (after (BitVec.ofInt 32 (room num base size precision type)))
  generalize BitVec.ofInt 32 (room num base size precision type) = s at *
  rw [padding, Fits, loops]
  split_ifs at hcounter <;> split_ifs at hnext <;> split_ifs at hlast <;> split_ifs <;> omega

/-! ### The digits -/

theorem written_lt (hlow : 2 ≤ base.toNat) :
    ∀ d ∈ written num base precision type, d < base.toNat := by
  intro d hd
  rw [written, List.mem_append, List.mem_replicate, List.mem_reverse, places] at hd
  rcases hd with ⟨-, rfl⟩ | hd
  · omega
  · split at hd
    · rw [List.mem_singleton] at hd
      omega
    · exact Nat.digits_lt_base hlow hd

theorem ofDigits_written :
    Nat.ofDigits base.toNat (written num base precision type).reverse = value num type := by
  rw [written, List.reverse_append, List.reverse_reverse, List.reverse_replicate,
    Nat.ofDigits_append_replicate_zero, places]
  split
  · rename_i h
    rw [h]
    rfl
  · exact Nat.ofDigits_digits _ _

theorem length_written (hlow : 2 ≤ base.toNat) :
    ((written num base precision type).length : ℤ) = count num base precision type := by
  rw [written, List.length_append, List.length_replicate, List.length_reverse,
    length_places hlow, count]
  omega

/-- **A field is printed when the counter stays in its range**, and only then. -/
theorem prints_iff (hlow : 2 ≤ base.toNat) :
    Prints num base size precision type
        (output (BitVec.ofInt 32 (room num base size precision type)) type (signs num type)
          (marks base type) ((written num base precision type).map (digitChar type))) ↔
      Fits num base size precision type := by
  have hpadding := @padding_iff num base size precision type hlow
  have hcount := @length_written num base precision type hlow
  have hroom : room num base size precision type = size.toInt - (signs num type).length -
    (marks base type).length - count num base precision type := rfl
  constructor
  · rintro ⟨places, hprinted⟩
    have hlength := hprinted.length
    have hplaces := hprinted.count
    rw [length_output, List.length_map] at hlength
    exact hpadding.mp (by omega)
  · intro hfits
    have hpad := hpadding.mpr hfits
    have hcounter := @counter_eq num base size precision type hlow
    refine ⟨written num base precision type, written_lt hlow, ofDigits_written, hcount, ?_, ?_⟩
    · have hfirst : (BitVec.ofInt 32 (room num base size precision type)).toInt.toNat =
          (room num base size precision type).toNat := by
        rw [Fits, loops] at hfits
        split_ifs at hcounter hfits <;> omega
      refine output_eq_field ?_ (hpad.trans hfirst.symm)
      rw [hfirst, List.length_append, List.length_append, List.length_map]
      omega
    · rw [length_output, List.length_map, hpad]
      omega

/-- **`number` prints the number if and only if the field fits**; `tmp` has room in any case. -/
theorem number_prints_iff (num base size precision type : Word)
    (hbase : 2 ≤ base.toInt ∧ base.toInt ≤ 36) :
    ∃ out, number num base size precision type = .ok (some out) ∧
      (Prints num base size precision type out ↔ Fits num base size precision type) :=
  ⟨_, number_eq hbase, prints_iff (two_le_toNat hbase)⟩

/-- The least number, in ten columns with zeros. -/
theorem number_prints_iff_least :
    ∃ out, number (BitVec.intMin 32) 10 10 (-1) (Flag.sign + Flag.zeropad) = .ok (some out) ∧
      (Prints (BitVec.intMin 32) 10 10 (-1) (Flag.sign + Flag.zeropad) out ↔
        Fits (BitVec.intMin 32) 10 10 (-1) (Flag.sign + Flag.zeropad)) :=
  number_prints_iff _ _ _ _ _ (by decide)

/-- **A counter comes round**: 0 with its sign, in a width of `-2 ^ 31`, has two thousand million
blanks before it. -/
theorem not_number_prints :
    ¬∀ num base size precision type : Word, 2 ≤ base.toInt ∧ base.toInt ≤ 36 →
      ∃ out, number num base size precision type = .ok (some out) ∧
        Prints num base size precision type out := by
  intro h
  have hbase : 2 ≤ (10 : Word).toInt ∧ (10 : Word).toInt ≤ 36 := by decide
  obtain ⟨out, hout, hprints⟩ := h 0 10 (BitVec.intMin 32) (-1) Flag.plus hbase
  rw [number_eq hbase, Except.ok.injEq, Option.some.injEq] at hout
  rw [← hout, prints_iff (two_le_toNat hbase), Fits] at hprints
  have hneeded : needed (10 : Word).toNat (value 0 Flag.plus) = 1 := by
    rw [show value 0 Flag.plus = 0 from rfl, needed, Nat.digits_zero]
    rfl
  have hroom : room 0 10 (BitVec.intMin 32) (-1) Flag.plus = -2 ^ 31 - 2 := by
    rw [room, count, hneeded]
    rfl
  rw [hroom, show loops Flag.plus = 2 from rfl] at hprints
  omega

end Written

end Linux011.Vsprintf

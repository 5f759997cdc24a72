import Linux011.Kernel.Number
import Mathlib.Data.List.TakeWhile

/-!
# Formats

A format is a sequence of characters and conversions. A conversion is a `%` with its flags, a width,
a precision behind a dot, a qualifier and a character, of which only the `%` has to be there: what
is taken for each of them is as long as it can be, so that every text is a format, and is one in a
single way (`Linux011.Vsprintf.parse`, `Linux011.Vsprintf.parse_render`).

What is to be written for a character is the character, and for a conversion that is not known, or
that the end of the format cuts off, a `%` with its character if there is one
(`Linux011.Vsprintf.Handles`). What is written for the known ones is left open here.
-/

namespace Linux011.Vsprintf

/-! ### Items -/

/-- **A number of a format**: its digits, which may be none, or the next argument. -/
inductive Amount
  | digits (ds : List Byte)
  | star
  deriving DecidableEq

/-- **A piece of a format.** -/
inductive Item
  | char (c : Byte)
  | conv (flags : List Byte) (width : Amount) (precision : Option Amount)
      (qualifier letter : Option Byte)
  deriving DecidableEq

/-- The text of a number. -/
def Amount.render : Amount → List Byte
  | digits ds => ds
  | star => [ch '*']

/-- The text of a precision. -/
def renderDotted : Option Amount → List Byte
  | none => []
  | some a => ch '.' :: a.render

namespace Item

/-- **The text of a piece.** -/
def render : Item → List Byte
  | char c => [c]
  | conv flags width precision qualifier letter =>
    ch '%' :: (flags ++ width.render ++ renderDotted precision ++ qualifier.toList ++
      letter.toList)

/-- **The next argument** is the width or the precision. -/
def Starred : Item → Prop
  | char _ => False
  | conv _ width precision _ _ => width = .star ∨ precision = some .star

end Item

/-! ### What a format consists of -/

/-- `is_digit` -/
def isDigit (c : Byte) : Bool := decide ((ch '0').toNat ≤ c.toNat ∧ c.toNat ≤ (ch '9').toNat)

/-- The flags. -/
def isFlag (c : Byte) : Bool :=
  decide (c = ch '-' ∨ c = ch '+' ∨ c = ch ' ' ∨ c = ch '#' ∨ c = ch '0')

/-- The qualifiers. -/
def isQualifier (c : Byte) : Bool := decide (c = ch 'h' ∨ c = ch 'l' ∨ c = ch 'L')

/-- A number, and what is left. -/
def amount : List Byte → Amount × List Byte
  | [] => (.digits [], [])
  | c :: l =>
    if c = ch '*' then (.star, l)
    else (.digits ((c :: l).takeWhile isDigit), (c :: l).dropWhile isDigit)

/-- A precision, and what is left. -/
def dotted : List Byte → Option Amount × List Byte
  | [] => (none, [])
  | c :: l => if c = ch '.' then (some (amount l).1, (amount l).2) else (none, c :: l)

/-- A qualifier, and what is left. -/
def qualified : List Byte → Option Byte × List Byte
  | [] => (none, [])
  | c :: l => if isQualifier c then (some c, l) else (none, c :: l)

/-- **The first piece**, and what is left. -/
def item (c : Byte) (l : List Byte) : Item × List Byte :=
  if c = ch '%' then
    let width := amount (l.dropWhile isFlag)
    let precision := dotted width.2
    let qualifier := qualified precision.2
    (.conv (l.takeWhile isFlag) width.1 precision.1 qualifier.1 qualifier.2.head?,
      qualifier.2.tail)
  else (.char c, l)

theorem amount_render (l : List Byte) : (amount l).1.render ++ (amount l).2 = l := by
  rcases l with _ | ⟨c, l⟩
  · rfl
  · rw [amount]
    split_ifs with h
    · rw [h]
      rfl
    · exact List.takeWhile_append_dropWhile

theorem dotted_render (l : List Byte) : renderDotted (dotted l).1 ++ (dotted l).2 = l := by
  rcases l with _ | ⟨c, l⟩
  · rfl
  · rw [dotted]
    split_ifs with h
    · rw [h, renderDotted, List.cons_append, amount_render]
    · rfl

theorem qualified_render (l : List Byte) : (qualified l).1.toList ++ (qualified l).2 = l := by
  rcases l with _ | ⟨c, l⟩
  · rfl
  · rw [qualified]
    split_ifs <;> rfl

theorem head_tail (l : List Byte) : l.head?.toList ++ l.tail = l := by
  rcases l with _ | ⟨c, l⟩ <;> rfl

/-- **A piece and what is left are the text.** -/
theorem item_render (c : Byte) (l : List Byte) : (item c l).1.render ++ (item c l).2 = c :: l := by
  rw [item]
  split_ifs with h
  · simp only [Item.render, List.cons_append, List.append_assoc]
    rw [head_tail, qualified_render, dotted_render, amount_render,
      List.takeWhile_append_dropWhile, h]
  · rfl

/-- What is left behind a star. -/
theorem amount_star {l : List Byte} (h : (amount l).1 = .star) : l = ch '*' :: (amount l).2 := by
  rcases l with _ | ⟨c, l⟩
  · exact absurd h Amount.noConfusion
  · rw [amount] at h ⊢
    split_ifs at h ⊢ with hc
    rw [hc]

theorem dotted_star {l : List Byte} (h : (dotted l).1 = some .star) :
    l = ch '.' :: ch '*' :: (dotted l).2 := by
  rcases l with _ | ⟨c, l⟩
  · exact absurd h.symm (Option.some_ne_none _)
  · rw [dotted] at h ⊢
    split_ifs at h ⊢ with hc
    rw [hc]
    exact congrArg (ch '.' :: ·) (amount_star (Option.some.inj h))

theorem length_amount (l : List Byte) : (amount l).2.length ≤ l.length := by
  have hlen := congrArg List.length (amount_render l)
  rw [List.length_append] at hlen
  omega

theorem length_dotted (l : List Byte) : (dotted l).2.length ≤ l.length := by
  have hlen := congrArg List.length (dotted_render l)
  rw [List.length_append] at hlen
  omega

theorem length_qualified (l : List Byte) : (qualified l).2.length ≤ l.length := by
  have hlen := congrArg List.length (qualified_render l)
  rw [List.length_append] at hlen
  omega

theorem render_ne_nil (it : Item) : it.render ≠ [] := by
  rcases it with c | _
  · exact List.cons_ne_nil _ _
  · exact List.cons_ne_nil _ _

theorem length_item (c : Byte) (l : List Byte) : (item c l).2.length ≤ l.length := by
  have hlen := congrArg List.length (item_render c l)
  have hpos := List.length_pos_of_ne_nil (render_ne_nil (item c l).1)
  rw [List.length_append, List.length_cons] at hlen
  omega

/-- **The pieces of a format.** -/
def parse : List Byte → List Item
  | [] => []
  | c :: l => (item c l).1 :: parse (item c l).2
termination_by l => l.length
decreasing_by
  have hlen := length_item c l
  rw [List.length_cons]
  omega

/-- **Every text is a format.** -/
theorem parse_render (l : List Byte) : (parse l).flatMap Item.render = l := by
  fun_induction parse l with
  | case1 => rfl
  | case2 c l ih => rw [List.flatMap_cons, ih, item_render]

/-! ### What is to be written -/

/-- The characters of the conversions that there are, `%` apart. -/
def known : List Byte := ['c', 's', 'o', 'p', 'x', 'X', 'd', 'i', 'u', 'n'].map ch

/-- What is written for a conversion with this character. -/
def Shows : Option Byte → List Byte → Prop
  | none, written => written = [ch '%']
  | some c, written =>
    c ∈ known ∨ written = if c = ch '%' then [ch '%'] else [ch '%', c]

/-- **What is written for a piece.** -/
def Item.Writes : Item → List Byte → Prop
  | char c, written => written = [c]
  | conv _ _ _ _ letter, written => Shows letter written

/-- **A turn**: what is taken from the format, and what is written for it. -/
structure Turn where
  text : List Byte
  written : List Byte
  deriving DecidableEq

/-- **The turn of a piece**: its text is taken, and what it asks for is written. -/
structure Handles (it : Item) (t : Turn) : Prop where
  text : t.text = it.render
  written : it.Writes t.written

end Linux011.Vsprintf

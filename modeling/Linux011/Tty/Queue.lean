import Mathlib.Data.BitVec
import Mathlib.Data.List.Range
import Mathlib.Data.Int.Notation
import Mathlib.Logic.Function.Basic
import Mathlib.Tactic.Common

/-!
# The queues of a terminal

`struct tty_queue` and the macros of `include/linux/tty.h`. `PUTCH` does not look whether there is
room: on a full queue it makes the queue empty. Where there is room it puts the character behind
the others (`Linux011.Tty.Queue.contents_putch`), and `GETCH` takes the first one from a queue that
is not empty (`Linux011.Tty.Queue.contents_getch`).

`put_queue` of `kernel/chr_drv/keyboard.S` and `read_char` of `kernel/chr_drv/rs_io.s` store before
they look, and leave the head where it was if there is no room for everything.
-/

namespace Linux011.Tty

/-- `char`. -/
abbrev Byte := BitVec 8

/-- `TTY_BUF_SIZE`. -/
def ttyBufSize : ℕ := 1024

/-- **`struct tty_queue`.** -/
structure Queue where
  /-- The lines in it, for the secondary queue. -/
  data : BitVec 32
  head : ℕ
  tail : ℕ
  buf : ℕ → Byte

namespace Queue

/-- `CHARS`. -/
def chars (q : Queue) : ℕ := (((q.head : ℤ) - q.tail) % ttyBufSize).toNat

/-- `LEFT`. -/
def left (q : Queue) : ℕ := (((q.tail : ℤ) - q.head - 1) % ttyBufSize).toNat

/-- `EMPTY`. -/
def Empty (q : Queue) : Prop := q.head = q.tail

instance (q : Queue) : Decidable q.Empty := inferInstanceAs (Decidable (_ = _))

/-- `FULL`. -/
def Full (q : Queue) : Prop := q.left = 0

instance (q : Queue) : Decidable q.Full := inferInstanceAs (Decidable (_ = _))

/-- `LAST`. -/
def last (q : Queue) : Byte := q.buf ((q.head + (ttyBufSize - 1)) % ttyBufSize)

/-- `PUTCH`. -/
def putch (q : Queue) (c : Byte) : Queue :=
  { q with buf := Function.update q.buf q.head c, head := (q.head + 1) % ttyBufSize }

/-- The character that `GETCH` gets. -/
def front (q : Queue) : Byte := q.buf q.tail

/-- What `GETCH` leaves. -/
def getch (q : Queue) : Queue := { q with tail := (q.tail + 1) % ttyBufSize }

/-- `DEC(queue.head)`. -/
def decHead (q : Queue) : Queue := { q with head := (q.head + (ttyBufSize - 1)) % ttyBufSize }

/-- `flush`. -/
def flush (q : Queue) : Queue := { q with head := q.tail }

/-- The loop of `put_queue`, at place `i`: what is in the buffer then, and the new head, if there
was room. -/
def store (tail : ℕ) : List Byte → ℕ → (ℕ → Byte) → (ℕ → Byte) × Option ℕ
  | [], i, buf => (buf, some i)
  | c :: cs, i, buf =>
    if (i + 1) % ttyBufSize = tail then (Function.update buf i c, none)
    else store tail cs ((i + 1) % ttyBufSize) (Function.update buf i c)

/-- `put_queue`, and with one character the store of `read_char`. -/
def putQueue (cs : List Byte) (q : Queue) : Queue :=
  { q with
    buf := (store q.tail cs q.head q.buf).1
    head := (store q.tail cs q.head q.buf).2.getD q.head }

/-- The characters that `put_queue` accepts. -/
def accepted (cs : List Byte) (q : Queue) : List Byte :=
  if (store q.tail cs q.head q.buf).2.isSome then cs else []

/-- **The indices are inside the buffer.** -/
structure Ok (q : Queue) : Prop where
  head : q.head < ttyBufSize
  tail : q.tail < ttyBufSize

/-- The place of the character that is `i` behind the tail. -/
def place (q : Queue) (i : ℕ) : ℕ := (q.tail + i) % ttyBufSize

/-- **What is in the queue**, the oldest character first. -/
def contents (q : Queue) : List Byte := (List.range q.chars).map fun i => q.buf (q.place i)

variable {q : Queue} {c : Byte} {i j : ℕ}

/-! ### The indices -/

theorem chars_eq (h : q.Ok) :
    q.chars = if q.tail ≤ q.head then q.head - q.tail else q.head + ttyBufSize - q.tail := by
  obtain ⟨hh, ht⟩ := h
  rw [ttyBufSize] at *
  rw [chars, ttyBufSize]
  split
  · omega
  · omega

/-- What is not taken is left, but for one place. -/
theorem left_eq (h : q.Ok) : q.left + q.chars = 1023 := by
  have hc := chars_eq h
  obtain ⟨hh, ht⟩ := h
  rw [ttyBufSize] at *
  rw [left, ttyBufSize]
  split at hc
  · omega
  · omega

theorem empty_iff (h : q.Ok) : q.Empty ↔ q.chars = 0 := by
  have hc := chars_eq h
  obtain ⟨hh, ht⟩ := h
  rw [ttyBufSize] at *
  rw [Empty]
  split at hc
  · omega
  · omega

theorem place_lt (q : Queue) (i : ℕ) : q.place i < ttyBufSize := Nat.mod_lt _ (by decide)

theorem place_chars (h : q.Ok) : q.place q.chars = q.head := by
  have hc := chars_eq h
  obtain ⟨hh, ht⟩ := h
  rw [ttyBufSize] at *
  rw [place, ttyBufSize]
  split at hc
  · omega
  · omega

/-- The places of one round are different. -/
theorem place_inj (hi : i < ttyBufSize) (hj : j < ttyBufSize) (h : q.place i = q.place j) :
    i = j := by
  rw [place, place, ttyBufSize] at h
  rw [ttyBufSize] at hi hj
  omega

theorem place_succ (q : Queue) (i : ℕ) : (q.place i + 1) % ttyBufSize = q.place (i + 1) := by
  rw [place, place, ttyBufSize]
  omega

/-- The place a round behind the tail is the tail. -/
theorem place_eq_tail (h : q.Ok) (hi : i < ttyBufSize) : q.place (i + 1) = q.tail ↔ i = 1023 := by
  have ht := h.tail
  rw [place]
  rw [ttyBufSize] at *
  omega

/-! ### One character -/

theorem Ok.putch (h : q.Ok) : (q.putch c).Ok := ⟨Nat.mod_lt _ (by decide), h.tail⟩

theorem Ok.getch (h : q.Ok) : q.getch.Ok := ⟨h.head, Nat.mod_lt _ (by decide)⟩

theorem Ok.decHead (h : q.Ok) : q.decHead.Ok := by
  have hpos : 0 < ttyBufSize := by decide
  rw [Queue.decHead]
  exact ⟨Nat.mod_lt _ hpos, h.tail⟩

theorem Ok.flush (h : q.Ok) : q.flush.Ok := ⟨h.tail, h.tail⟩

theorem chars_putch (h : q.Ok) (hleft : q.left ≠ 0) : (q.putch c).chars = q.chars + 1 := by
  have hl := left_eq h
  have hc := chars_eq h
  have hc' := chars_eq (h.putch (c := c))
  obtain ⟨hh, ht⟩ := h
  rw [Queue.putch] at hc' ⊢
  rw [ttyBufSize] at *
  dsimp only at hc'
  split at hc <;> split at hc' <;> omega

theorem chars_getch (h : q.Ok) (hne : q.chars ≠ 0) : q.getch.chars = q.chars - 1 := by
  have hc := chars_eq h
  have hc' := chars_eq h.getch
  obtain ⟨hh, ht⟩ := h
  rw [Queue.getch] at hc' ⊢
  rw [ttyBufSize] at *
  dsimp only at hc'
  split at hc <;> split at hc' <;> omega

theorem chars_decHead (h : q.Ok) (hne : q.chars ≠ 0) : q.decHead.chars = q.chars - 1 := by
  have hc := chars_eq h
  have hc' := chars_eq h.decHead
  obtain ⟨hh, ht⟩ := h
  rw [Queue.decHead] at hc' ⊢
  rw [ttyBufSize] at *
  dsimp only at hc'
  split at hc <;> split at hc' <;> omega

theorem chars_flush (h : q.Ok) : q.flush.chars = 0 := (empty_iff h.flush).mp rfl

theorem length_contents (q : Queue) : q.contents.length = q.chars := by
  rw [contents, List.length_map, List.length_range]

/-- What is in the queue is not changed by a store into places that are free. -/
theorem contents_congr {q' : Queue} (hchars : q'.chars = q.chars) (htail : q'.tail = q.tail)
    (hbuf : ∀ i < q.chars, q'.buf (q.place i) = q.buf (q.place i)) :
    q'.contents = q.contents := by
  rw [contents, contents, hchars]
  refine List.map_congr_left fun i hi => ?_
  rw [show q'.place i = q.place i by rw [place, place, htail]]
  exact hbuf i (List.mem_range.mp hi)

/-- **`PUTCH`, where there is room**, puts the character behind the others. -/
theorem contents_putch (h : q.Ok) (hleft : q.left ≠ 0) :
    (q.putch c).contents = q.contents ++ [c] := by
  have hl := left_eq h
  rw [contents, contents, chars_putch h hleft, List.range_succ, List.map_append, List.map_singleton]
  have hplace : ∀ i, (q.putch c).place i = q.place i := fun _ => rfl
  have hbuf : (q.putch c).buf = Function.update q.buf q.head c := rfl
  rw [hplace, hbuf, place_chars h, Function.update_self]
  refine congrArg (· ++ [c]) (List.map_congr_left fun i hi => ?_)
  have hi := List.mem_range.mp hi
  rw [hplace, Function.update_of_ne]
  intro heq
  rw [← place_chars h] at heq
  have hsize : ttyBufSize = 1024 := rfl
  have := place_inj (by omega) (by omega) heq
  omega

/-- **`PUTCH` on a full queue** makes it empty. -/
theorem contents_putch_full (h : q.Ok) (hfull : q.Full) : (q.putch c).contents = [] := by
  have hok := h.putch (c := c)
  have hhead : (q.putch c).head = (q.head + 1) % ttyBufSize := rfl
  have htail : (q.putch c).tail = q.tail := rfl
  have hl := left_eq h
  have hc := chars_eq h
  rw [← List.length_eq_zero_iff, length_contents, ← empty_iff hok, Empty, hhead, htail]
  obtain ⟨hh, ht⟩ := h
  rw [Full] at hfull
  rw [ttyBufSize] at *
  split at hc
  · omega
  · omega

/-- **`GETCH`, from a queue that is not empty**, takes the first character. -/
theorem contents_getch (h : q.Ok) (hne : q.chars ≠ 0) :
    q.contents = q.front :: q.getch.contents := by
  obtain ⟨n, hn⟩ := Nat.exists_eq_succ_of_ne_zero hne
  have hn' : q.getch.chars = n := by rw [chars_getch h hne, hn, Nat.succ_sub_one]
  rw [contents, contents, hn, hn', List.range_succ_eq_map, List.map_cons, List.map_map]
  refine congrArg₂ List.cons ?_ (List.map_congr_left fun i _ => ?_)
  · rw [place, Nat.add_zero, Nat.mod_eq_of_lt h.tail]
    rfl
  · have hplace : q.getch.place i = q.place (i + 1) := by
      rw [place, place, show q.getch.tail = (q.tail + 1) % ttyBufSize from rfl, ttyBufSize]
      omega
    rw [Function.comp_apply, hplace]
    rfl

theorem contents_flush (h : q.Ok) : q.flush.contents = [] := by
  rw [← List.length_eq_zero_iff, length_contents, chars_flush h]

theorem contents_eq_nil_iff (h : q.Ok) : q.contents = [] ↔ q.Empty := by
  rw [← List.length_eq_zero_iff, length_contents, empty_iff h]

/-- **`DEC` takes the last character**, which is the one that `LAST` is. -/
theorem contents_decHead (h : q.Ok) (hne : q.chars ≠ 0) :
    q.contents = q.decHead.contents ++ [q.last] := by
  obtain ⟨n, hn⟩ := Nat.exists_eq_succ_of_ne_zero hne
  have hn' : q.decHead.chars = n := by rw [chars_decHead h hne, hn, Nat.succ_sub_one]
  have hlast : q.place n = (q.head + (ttyBufSize - 1)) % ttyBufSize := by
    have hc := chars_eq h
    obtain ⟨hh, ht⟩ := h
    rw [place]
    rw [ttyBufSize] at *
    split at hc
    · omega
    · omega
  have hback : q.last = q.buf (q.place n) := congrArg q.buf hlast.symm
  have hplace : ∀ i, q.decHead.place i = q.place i := by
    intro i
    rw [place, place, decHead]
  have hbuf : q.decHead.buf = q.buf := by rw [decHead]
  have hfront : q.decHead.contents = (List.range n).map fun i => q.buf (q.place i) := by
    rw [contents, hn']
    exact List.map_congr_left fun i _ => by rw [hplace, hbuf]
  rw [hfront, hback, contents, hn, List.range_succ, List.map_append, List.map_singleton]

/-! ### Several characters -/

/-- **The loop of `put_queue`** leaves alone what is in front of it, and if there is room it stores
one character behind the other. -/
theorem store_spec (h : q.Ok) (cs : List Byte) (n : ℕ) (buf : ℕ → Byte) (hn : n < ttyBufSize) :
    (∀ i < n, (store q.tail cs (q.place n) buf).1 (q.place i) = buf (q.place i)) ∧
      ∀ k, (store q.tail cs (q.place n) buf).2 = some k → n + cs.length < ttyBufSize ∧
        k = q.place (n + cs.length) ∧
        ∀ i (hi : i < cs.length),
          (store q.tail cs (q.place n) buf).1 (q.place (n + i)) = cs[i] := by
  induction cs generalizing n buf with
  | nil =>
    refine ⟨fun i _ => rfl, fun k hk => ⟨hn, (Option.some.inj hk).symm, fun i hi => ?_⟩⟩
    exact absurd hi (Nat.not_lt_zero i)
  | cons c cs ih =>
    have hother : ∀ i < n, Function.update buf (q.place n) c (q.place i) = buf (q.place i) := by
      intro i hi
      refine Function.update_of_ne (fun heq => ?_) ..
      have := place_inj (by omega) hn heq
      omega
    rw [store, place_succ]
    by_cases hend : q.place (n + 1) = q.tail
    · rw [if_pos hend]
      exact ⟨hother, (by rintro k ⟨⟩)⟩
    · rw [if_neg hend]
      have hn' : n + 1 < ttyBufSize := by
        rw [place_eq_tail h hn] at hend
        rw [ttyBufSize] at hn ⊢
        omega
      obtain ⟨hfront, hback⟩ := ih (n + 1) (Function.update buf (q.place n) c) hn'
      refine ⟨fun i hi => (hfront i (by omega)).trans (hother i hi), fun k hk => ?_⟩
      obtain ⟨hlt, hk', hcs⟩ := hback k hk
      have hlen : (c :: cs).length = cs.length + 1 := List.length_cons
      refine ⟨by omega, by rw [hk', hlen, Nat.add_right_comm, Nat.add_assoc], fun i hi => ?_⟩
      cases i with
      | zero => exact (hfront n (Nat.lt_succ_self n)).trans (Function.update_self ..)
      | succ i =>
        rw [show n + (i + 1) = n + 1 + i by omega]
        exact hcs i (by omega)

theorem store_isSome (h : q.Ok) (cs : List Byte) (n : ℕ) (buf : ℕ → Byte)
    (hn : n + cs.length < ttyBufSize) :
    (store q.tail cs (q.place n) buf).2.isSome = true := by
  induction cs generalizing n buf with
  | nil => rfl
  | cons c cs ih =>
    rw [List.length_cons] at hn
    have hne : ¬q.place (n + 1) = q.tail := by
      rw [place_eq_tail h (by omega)]
      rw [ttyBufSize] at hn
      omega
    rw [store, place_succ, if_neg hne]
    exact ih (n + 1) _ (by omega)

/-- **`put_queue` puts all it is given, or nothing.** -/
theorem putQueue_spec (h : q.Ok) (cs : List Byte) :
    (q.putQueue cs).Ok ∧ (q.putQueue cs).contents = q.contents ++ q.accepted cs := by
  have hchars : q.chars < ttyBufSize := by
    have := left_eq h
    rw [ttyBufSize]
    omega
  obtain ⟨hfront, hback⟩ := store_spec h cs q.chars q.buf hchars
  rw [place_chars h] at hfront hback
  cases hs : (store q.tail cs q.head q.buf).2 with
  | none =>
    have hq : (q.putQueue cs).head = q.head := by rw [putQueue, hs]; rfl
    have hc : (q.putQueue cs).chars = q.chars := by rw [chars, chars, hq]; rfl
    refine ⟨⟨hq ▸ h.head, h.tail⟩, ?_⟩
    rw [accepted, hs]
    simp only [Option.isSome_none, Bool.false_eq_true, if_false, List.append_nil]
    exact contents_congr hc rfl hfront
  | some k =>
    obtain ⟨hlt, hk, hcs⟩ := hback k hs
    have hq : (q.putQueue cs).head = q.place (q.chars + cs.length) := by
      rw [putQueue, hs]
      exact hk
    have hok : (q.putQueue cs).Ok := ⟨hq ▸ place_lt q _, h.tail⟩
    have hc : (q.putQueue cs).chars = q.chars + cs.length := by
      have hc' := chars_eq hok
      have ht : (q.putQueue cs).tail = q.tail := rfl
      have hqt := h.tail
      rw [ht, hq, place] at hc'
      rw [ttyBufSize] at *
      split at hc' <;> omega
    refine ⟨hok, ?_⟩
    rw [accepted, hs]
    simp only [Option.isSome_some, if_true]
    rw [contents, contents, hc, List.range_add, List.map_append, List.map_map]
    refine congrArg₂ (· ++ ·) (List.map_congr_left fun i hi => hfront i (List.mem_range.mp hi)) ?_
    refine List.ext_getElem (by simp) fun i hi hi' => ?_
    rw [List.getElem_map, List.getElem_range, Function.comp_apply]
    exact hcs i hi'

end Queue

end Linux011.Tty

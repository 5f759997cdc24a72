import Linux011.Tty.Blind
import Mathlib.Data.Nat.Digits.Defs

/-!
# `put_queue`

The routine of `kernel/chr_drv/keyboard.S`, instruction by instruction, on the ring itself. It
stores a byte before it knows whether the next one has room, and sets the head at the end only
(`Linux011.Keyboard.putLoop_eq`): so a value is put whole, or the queue holds what it has held
(`Linux011.Keyboard.putRing_spec`).

That the value has come to its end is seen by what `shrdl` leaves of it; a byte 0 in the middle does
not end it (`Linux011.Keyboard.bytesOf_eq`).
-/

namespace Linux011.Keyboard

open Tty (Queue ttyBufSize)

/-! ### The source -/

/-- **The read queue of the console**, with the task that waits and the states of the tasks. -/
structure Terminal where
  q : Queue
  procList : Option ℕ
  state : ℕ → ℤ

/-- `shrdl $8,%ebx,%eax` -/
def shrdl (ebx eax : BitVec 32) : BitVec 32 :=
  (ebx.extractLsb' 0 8 ++ eax.extractLsb' 8 24 : BitVec (8 + 24))

/-- **The loop of `put_queue`**, for so many rounds: what is in the buffer then, and `%ecx` if it
comes to `2:`. -/
def putLoop (tail : ℕ) : ℕ → BitVec 32 → BitVec 32 → ℕ → (ℕ → Byte) →
    Option ((ℕ → Byte) × Option ℕ)
  | 0, _, _, _, _ => none
  | n + 1, ebx, eax, ecx, buf =>
    -- movb %al,buf(%edx,%ecx)
    let buf := Function.update buf ecx (eax.extractLsb' 0 8)
    -- incl %ecx; andl $size-1,%ecx
    let ecx := (ecx + 1) % 2 ^ 32 &&& (ttyBufSize - 1)
    -- cmpl tail(%edx),%ecx; je 3f
    if ecx = tail then some (buf, none)
    else
      let eax := shrdl ebx eax
      if eax = 0 then some (buf, some ecx)
      else putLoop tail n (ebx >>> 8) eax ecx buf

/-- `movl $0,(%ecx)` for the task that waits, if there is one. -/
def Terminal.wake (t : Terminal) : Terminal :=
  match t.procList with
  | none => t
  | some p => { t with state := Function.update t.state p 0 }

/-- **`put_queue`** -/
def putRing (ebx eax : BitVec 32) (t : Terminal) : Option Terminal :=
  match putLoop t.q.tail 8 ebx eax t.q.head t.q.buf with
  | none => none
  | some (buf, none) => some { t with q := { t.q with buf := buf } }
  | some (buf, some head) => some { t with q := { t.q with buf := buf, head := head } }.wake

/-! ### The bytes of a value -/

/-- **The bytes of a value** from the lowest one up to the last that is not 0, and one byte
for 0. -/
def valueBytes (value : BitVec 32) : List Byte :=
  if value = 0 then [0] else (Nat.digits 256 value.toNat).map (BitVec.ofNat 8)

variable {ebx eax : BitVec 32} {ecx tail n : ℕ} {buf : ℕ → Byte}

theorem shrdl_toNat (ebx eax : BitVec 32) :
    (shrdl ebx eax).toNat = eax.toNat / 256 + ebx.toNat % 256 * 2 ^ 24 := by
  have hlt := eax.isLt
  rw [shrdl, BitVec.toNat_append, ← Nat.shiftLeft_add_eq_or_of_lt (BitVec.isLt _),
    BitVec.extractLsb'_toNat, BitVec.extractLsb'_toNat, Nat.shiftRight_zero,
    Nat.shiftRight_eq_div_pow, Nat.shiftLeft_eq]
  omega

theorem shrdl_eq_zero (ebx eax : BitVec 32) :
    shrdl ebx eax = 0 ↔ eax.toNat / 256 + ebx.toNat % 256 * 2 ^ 24 = 0 := by
  rw [← shrdl_toNat, BitVec.toNat_eq]
  rfl

theorem bytesOf_succ (n : ℕ) (ebx eax : BitVec 32) : bytesOf (n + 1) ebx eax =
    eax.extractLsb' 0 8 :: if shrdl ebx eax = 0 then [] else
      bytesOf n (ebx >>> 8) (shrdl ebx eax) := rfl

theorem low_byte (value : BitVec 32) :
    BitVec.ofNat 8 (value.toNat % 256) = value.extractLsb' 0 8 := by
  rw [BitVec.toNat_eq, BitVec.toNat_ofNat, BitVec.extractLsb'_toNat, Nat.shiftRight_zero]
  omega

theorem valueBytes_ne_nil (value : BitVec 32) : valueBytes value ≠ [] := by
  rw [valueBytes]
  split_ifs with hzero
  · exact List.cons_ne_nil _ _
  · intro hnil
    have hdigits := Nat.digits_eq_nil_iff_eq_zero.mp (List.map_eq_nil_iff.mp hnil)
    exact hzero (BitVec.eq_of_toNat_eq hdigits)

/-- **A value that is in `%eax` alone** is put byte by byte up to the last one that is not 0. -/
theorem bytesOf_eq (h : eax.toNat < 256 ^ (n + 1)) : bytesOf (n + 1) 0 eax = valueBytes eax := by
  induction n generalizing eax with
  | zero =>
    have hzero : (0 : BitVec 32).toNat = 0 := rfl
    have hlast : shrdl 0 eax = 0 := by
      rw [shrdl_eq_zero, hzero, Nat.zero_mod, Nat.zero_mul, Nat.add_zero]
      exact Nat.div_eq_of_lt h
    rw [bytesOf_succ, if_pos hlast, valueBytes]
    by_cases heax : eax = 0
    · rw [if_pos heax, heax]
      rfl
    · have hne : eax.toNat ≠ 0 := fun h0 => heax (BitVec.eq_of_toNat_eq h0)
      rw [if_neg heax, Nat.digits_of_lt 256 _ hne (by omega), List.map_singleton, ← low_byte,
        Nat.mod_eq_of_lt (by omega)]
  | succ n ih =>
    have hnext := shrdl_toNat 0 eax
    have hzero : (0 : BitVec 32).toNat = 0 := rfl
    rw [hzero, Nat.zero_mod, Nat.zero_mul, Nat.add_zero] at hnext
    rw [bytesOf_succ, valueBytes]
    by_cases heax : eax = 0
    · rw [heax, if_pos (by decide), if_pos rfl]
      rfl
    · have hne : eax.toNat ≠ 0 := fun h0 => heax (BitVec.eq_of_toNat_eq h0)
      rw [if_neg heax, Nat.digits_def' (by decide) (Nat.pos_of_ne_zero hne), List.map_cons,
        low_byte, ← hnext]
      by_cases hlast : shrdl 0 eax = 0
      · rw [if_pos hlast, hlast]
        rfl
      · have hshift : (0 : BitVec 32) >>> 8 = 0 := by decide
        rw [Nat.pow_succ, Nat.mul_comm] at h
        have hlt : (shrdl 0 eax).toNat < 256 ^ (n + 1) := by
          rw [hnext]
          exact Nat.div_lt_of_lt_mul h
        rw [if_neg hlast, hshift, ih hlt, valueBytes, if_neg hlast]

/-- The loop puts the bytes that `shrdl` has shown, as far as there is room. -/
theorem putLoop_eq (h : ebx.toNat * 2 ^ 32 + eax.toNat < 256 ^ (n + 1)) :
    putLoop tail (n + 1) ebx eax ecx buf =
      some (Queue.store tail (bytesOf (n + 1) ebx eax) ecx buf) := by
  have hmask : ∀ i, (i + 1) % 2 ^ 32 &&& (ttyBufSize - 1) = (i + 1) % ttyBufSize := by
    intro i
    rw [ttyBufSize, show 1024 - 1 = 2 ^ 10 - 1 from rfl, Nat.and_two_pow_sub_one_eq_mod]
    omega
  induction n generalizing ebx eax ecx buf with
  | zero =>
    have hlast : shrdl ebx eax = 0 := (shrdl_eq_zero ebx eax).mpr (by omega)
    rw [putLoop, bytesOf_succ, hmask, Queue.store]
    dsimp only
    rw [if_pos hlast, if_pos hlast]
    split_ifs <;> rfl
  | succ n ih =>
    rw [putLoop, bytesOf_succ, hmask, Queue.store]
    by_cases hfull : (ecx + 1) % ttyBufSize = tail
    · rw [if_pos hfull, if_pos hfull]
    rw [if_neg hfull, if_neg hfull]
    by_cases hlast : shrdl ebx eax = 0
    · rw [if_pos hlast, if_pos hlast]
      rfl
    · rw [if_neg hlast, if_neg hlast]
      refine ih ?_
      rw [shrdl_toNat, BitVec.toNat_ushiftRight, Nat.shiftRight_eq_div_pow]
      have hpow : 256 ^ (n + 1 + 1) = 256 ^ (n + 1) * 256 := pow_succ 256 (n + 1)
      rw [hpow] at h
      generalize 256 ^ (n + 1) = k at h ⊢
      refine Nat.lt_of_not_le fun hge => ?_
      omega

/-! ### The ring -/

/-- **`put_queue` is all or nothing.** It puts the bytes of a value behind the others if there is
room for all of them; or the head stays, and the queue holds what it has held. It comes to an end,
and changes neither the tail nor a byte between the tail and the head. -/
theorem putRing_spec {t : Terminal} (h : t.q.Ok) (value : BitVec 32) : ∃ t',
    putRing 0 value t = some t' ∧ t'.q.tail = t.q.tail ∧
      (∀ i < t.q.chars, t'.q.buf (t.q.place i) = t.q.buf (t.q.place i)) ∧
      ((valueBytes value).length ≤ t.q.left → t'.q.Ok ∧ ¬t'.q.Empty ∧
        t'.q.contents = t.q.contents ++ valueBytes value) ∧
      (t.q.left < (valueBytes value).length → t'.q.head = t.q.head ∧
        t'.q.contents = t.q.contents) := by
  have hlt : value.toNat < 256 ^ (7 + 1) := lt_of_lt_of_le value.isLt (by decide)
  have hzero : (0 : BitVec 32).toNat = 0 := rfl
  have hloop : putLoop t.q.tail 8 0 value t.q.head t.q.buf = _ :=
    putLoop_eq (n := 7) (by omega)
  rw [bytesOf_eq hlt] at hloop
  generalize hcs : valueBytes value = cs at *
  -- what the routine leaves of the queue
  have hq : ∃ t', putRing 0 value t = some t' ∧ t'.q = t.q.putQueue cs := by
    rw [putRing, hloop]
    rcases hstore : Queue.store t.q.tail cs t.q.head t.q.buf with ⟨buf, _ | head⟩
    · refine ⟨_, rfl, ?_⟩
      rw [Queue.putQueue, hstore]
      rfl
    · refine ⟨_, rfl, ?_⟩
      rw [Queue.putQueue, hstore, Terminal.wake]
      dsimp only
      split <;> rfl
  obtain ⟨t', hrun, hq⟩ := hq
  have hleft := Queue.left_eq h
  have hchars : t.q.chars < ttyBufSize := by
    rw [ttyBufSize]
    omega
  obtain ⟨hfront, hback⟩ := Queue.store_spec h cs t.q.chars t.q.buf hchars
  rw [Queue.place_chars h] at hfront hback
  obtain ⟨hok, hcontents⟩ := Queue.putQueue_spec h cs
  rw [← hq] at hok hcontents
  refine ⟨t', hrun, by rw [hq]; rfl, fun i hi => by rw [hq]; exact hfront i hi, ?_, ?_⟩
  · intro hroom
    have hsome := Queue.store_isSome h cs t.q.chars t.q.buf (by rw [ttyBufSize]; omega)
    rw [Queue.place_chars h] at hsome
    rw [Queue.accepted, if_pos hsome] at hcontents
    refine ⟨hok, fun hempty => ?_, hcontents⟩
    rw [(Queue.contents_eq_nil_iff hok).mpr hempty] at hcontents
    obtain ⟨-, hnil⟩ := List.append_eq_nil_iff.mp hcontents.symm
    exact valueBytes_ne_nil value (hcs.trans hnil)
  · intro hfull
    have hnone : (Queue.store t.q.tail cs t.q.head t.q.buf).2 = none := by
      rcases hstore : (Queue.store t.q.tail cs t.q.head t.q.buf).2 with _ | k
      · rfl
      · have hlt := (hback k hstore).1
        rw [ttyBufSize] at hlt
        omega
    rw [Queue.accepted, hnone, if_neg (by decide), List.append_nil] at hcontents
    refine ⟨?_, hcontents⟩
    rw [hq, Queue.putQueue, hnone]
    rfl

/-- An empty queue, near the end of the ring. -/
def emptyTerminal : Terminal := ⟨⟨0, 1022, 1022, fun _ => 0⟩, none, fun _ => 0⟩

/-- A value that begins with a byte 0 is put whole, over the end of the ring. -/
theorem putRing_zero : ∃ t', putRing 0 0x414200#32 emptyTerminal = some t' ∧
    t'.q.contents = [0, 0x42, 0x41] := by
  obtain ⟨t', hrun, -, -, hroom, -⟩ :=
    putRing_spec (t := emptyTerminal) ⟨by decide, by decide⟩ 0x414200#32
  have hbytes : valueBytes 0x414200#32 = [0, 0x42, 0x41] := by decide +kernel
  have hempty : emptyTerminal.q.contents = [] := by decide
  rw [hbytes, hempty] at hroom
  exact ⟨t', hrun, (hroom (by decide)).2.2⟩

end Linux011.Keyboard

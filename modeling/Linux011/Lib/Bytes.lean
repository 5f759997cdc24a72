import Mathlib.Data.List.Basic
import Mathlib.Tactic.Common
import Mathlib.Tactic.Ring

/-!
# Lists of bytes in a memory

A memory is a partial function from addresses to bytes. `Linux011.Holds` says that a list of
bytes is in it from an address on, and the rules below take such a list apart and follow it
through changes of the memory. On top of that are the two things that are laid out in memory
as bytes: strings that a zero byte ends, one after another (`Linux011.block`), and tables of
words of four bytes, the least first (`Linux011.table`). `Linux011.pointers` are the
addresses at which the strings of a block begin.
-/

namespace Linux011

variable {mem mem' : ℕ → Option UInt8} {a lo hi : ℕ} {bs cs : List UInt8} {s : List UInt8}
  {ss ts : List (List UInt8)} {vs : List ℕ}

/-! ### Bytes -/

/-- **The memory holds the bytes** from `a` on. -/
def Holds (mem : ℕ → Option UInt8) (a : ℕ) (bs : List UInt8) : Prop :=
  ∀ k (h : k < bs.length), mem (a + k) = some bs[k]

theorem holds_nil : Holds mem a [] := fun _ h => absurd h (Nat.not_lt_zero _)

theorem holds_append : Holds mem a (bs ++ cs) ↔ Holds mem a bs ∧ Holds mem (a + bs.length) cs := by
  refine ⟨fun h => ⟨fun k hk => ?_, fun k hk => ?_⟩, fun h k hk => ?_⟩
  · have := h k (by rw [List.length_append]; omega)
    rwa [List.getElem_append_left hk] at this
  · have := h (bs.length + k) (by rw [List.length_append]; omega)
    rw [List.getElem_append_right (Nat.le_add_right _ _)] at this
    simp only [Nat.add_sub_cancel_left] at this
    rwa [Nat.add_assoc]
  · rw [List.length_append] at hk
    by_cases hlt : k < bs.length
    · rw [List.getElem_append_left hlt]
      exact h.1 k hlt
    · rw [List.getElem_append_right (not_lt.mp hlt), ← h.2 (k - bs.length) (by omega)]
      congr 1
      omega

theorem holds_cons {b : UInt8} :
    Holds mem a (b :: bs) ↔ mem a = some b ∧ Holds mem (a + 1) bs := by
  rw [← List.singleton_append, holds_append]
  refine and_congr_left fun _ => ⟨fun h => h 0 Nat.one_pos, fun h k hk => ?_⟩
  obtain rfl : k = 0 := by
    rw [List.length_singleton] at hk
    omega
  exact h

/-- The bytes outside do not matter. -/
theorem Holds.congr (h : Holds mem a bs)
    (heq : ∀ x, a ≤ x → x < a + bs.length → mem' x = mem x) : Holds mem' a bs := fun k hk => by
  rw [heq (a + k) (by omega) (by omega)]
  exact h k hk

/-- A memory with zeros from `lo` to `hi`. -/
def cleared (mem : ℕ → Option UInt8) (lo hi x : ℕ) : Option UInt8 :=
  if lo ≤ x ∧ x < hi then some 0 else mem x

/-- **Clearing** leaves the bytes as they are just if it meets zeros only. -/
theorem Holds.cleared_iff (h : Holds mem a bs) : Holds (cleared mem lo hi) a bs ↔
    ∀ k (hk : k < bs.length), lo ≤ a + k → a + k < hi → bs[k] = 0 := by
  refine forall_congr' fun k => forall_congr' fun hk => ?_
  unfold cleared
  rw [h k hk]
  split
  · next hin =>
    exact ⟨fun heq _ _ => (Option.some.inj heq).symm, fun heq => by rw [heq hin.1 hin.2]⟩
  · next hout => exact ⟨fun _ hlo hhi => absurd ⟨hlo, hhi⟩ hout, fun _ => rfl⟩

/-! ### Strings -/

/-- **The memory holds the string** at `a`, with the zero byte that ends it. -/
def HoldsString (mem : ℕ → Option UInt8) (a : ℕ) (s : List UInt8) : Prop :=
  (0 : UInt8) ∉ s ∧ Holds mem a (s ++ [0])

/-- Strings one after another. -/
def block (ss : List (List UInt8)) : List UInt8 := ss.flatMap (· ++ [0])

@[simp] theorem block_nil : block [] = [] := rfl

@[simp] theorem block_cons : block (s :: ss) = s ++ 0 :: block ss := by
  unfold block
  rw [List.flatMap_cons, List.append_assoc, List.singleton_append]

@[simp] theorem block_append : block (ss ++ ts) = block ss ++ block ts := List.flatMap_append

/-- Every string is a byte at least. -/
theorem length_le_block (ss : List (List UInt8)) : ss.length ≤ (block ss).length := by
  induction ss with
  | nil => exact le_rfl
  | cons s ss ih =>
    rw [block_cons, List.length_append, List.length_cons, List.length_cons]
    omega

/-- The addresses of the strings of a block. -/
def pointers : ℕ → List (List UInt8) → List ℕ
  | _, [] => []
  | a, s :: ss => a :: pointers (a + s.length + 1) ss

@[simp] theorem length_pointers : (pointers a ss).length = ss.length := by
  induction ss generalizing a with
  | nil => rfl
  | cons s ss ih => rw [pointers, List.length_cons, ih, List.length_cons]

theorem pointers_lt {v : ℕ} (hv : v ∈ pointers a ss) : v < a + (block ss).length := by
  induction ss generalizing a with
  | nil => cases hv
  | cons s ss ih =>
    rw [block_cons, List.length_append, List.length_cons]
    rcases List.mem_cons.mp hv with rfl | hv
    · omega
    · have := ih hv
      omega

/-- **What is at the pointers** are the strings. -/
theorem holdsString_pointers (h0 : ∀ s ∈ ss, (0 : UInt8) ∉ s) (h : Holds mem a (block ss)) {i : ℕ}
    (hi : i < ss.length) (hp : i < (pointers a ss).length) :
    HoldsString mem (pointers a ss)[i] ss[i] := by
  induction ss generalizing a i with
  | nil => exact absurd hi (Nat.not_lt_zero _)
  | cons s ss ih =>
    obtain ⟨hs, hss⟩ := List.forall_mem_cons.mp h0
    rw [block_cons, ← List.singleton_append, ← List.append_assoc, holds_append,
      List.length_append, List.length_singleton, ← Nat.add_assoc] at h
    cases i with
    | zero => exact ⟨hs, h.1⟩
    | succ i => exact ih hss h.2 (Nat.lt_of_succ_lt_succ hi) (Nat.lt_of_succ_lt_succ hp)

/-! ### Words -/

/-- The four bytes of a word. -/
def wordBytes (v : ℕ) : List UInt8 :=
  [UInt8.ofNat v, UInt8.ofNat (v / 2 ^ 8), UInt8.ofNat (v / 2 ^ 16), UInt8.ofNat (v / 2 ^ 24)]

@[simp] theorem length_wordBytes (v : ℕ) : (wordBytes v).length = 4 := rfl

/-- The word at an address. -/
def wordAt (f : ℕ → UInt8) (a : ℕ) : ℕ :=
  (f a).toNat + 2 ^ 8 * (f (a + 1)).toNat + 2 ^ 16 * (f (a + 2)).toNat + 2 ^ 24 * (f (a + 3)).toNat

/-- A memory that holds the bytes of a word has the word. -/
theorem wordAt_of_holds {f : ℕ → UInt8} {v : ℕ} (hv : v < 2 ^ 32)
    (h : Holds (fun x => some (f x)) a (wordBytes v)) : wordAt f a = v := by
  have h0 := Option.some.inj (h 0 (show 0 < 4 by decide))
  have h1 := Option.some.inj (h 1 (show 1 < 4 by decide))
  have h2 := Option.some.inj (h 2 (show 2 < 4 by decide))
  have h3 := Option.some.inj (h 3 (show 3 < 4 by decide))
  unfold wordAt
  rw [← Nat.add_zero a, h0, Nat.add_zero, h1, h2, h3]
  simp only [wordBytes, List.getElem_cons_zero, List.getElem_cons_succ, UInt8.toNat_ofNat']
  omega

/-- A table of words. -/
def table (vs : List ℕ) : List UInt8 := vs.flatMap wordBytes

@[simp] theorem table_nil : table [] = [] := rfl

@[simp] theorem table_cons {v : ℕ} : table (v :: vs) = wordBytes v ++ table vs :=
  List.flatMap_cons

@[simp] theorem table_append {us : List ℕ} : table (vs ++ us) = table vs ++ table us :=
  List.flatMap_append

@[simp] theorem length_table : (table vs).length = 4 * vs.length := by
  induction vs with
  | nil => rfl
  | cons v vs ih =>
    rw [table_cons, List.length_append, length_wordBytes, ih, List.length_cons]
    ring

/-- The words of a table. -/
theorem holds_table (h : Holds mem a (table vs)) {i : ℕ} (hi : i < vs.length) :
    Holds mem (a + 4 * i) (wordBytes vs[i]) := by
  induction vs generalizing a i with
  | nil => exact absurd hi (Nat.not_lt_zero _)
  | cons v vs ih =>
    rw [table_cons, holds_append, length_wordBytes] at h
    cases i with
    | zero => exact h.1
    | succ i =>
      have := ih h.2 (Nat.lt_of_succ_lt_succ hi)
      rwa [show a + 4 + 4 * i = a + 4 * (i + 1) by ring] at this

end Linux011

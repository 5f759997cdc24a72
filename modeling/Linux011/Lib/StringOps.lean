import Mathlib.Data.BitVec
import Mathlib.Data.List.Infix
import Mathlib.Logic.Function.Basic
import Mathlib.Tactic.Ring

/-!
# String instructions

The string instructions of the processor, on registers, flags and a memory of bytes. An instruction
is a function of the state `Linux011.X86.Cpu`; the ones that compare or count set the flags
(`Linux011.X86.Cpu.compare`), the ones that move leave them.

A repeated instruction counts `%ecx` down, and what it leaves there, in its pointer and in the flags
is said here once: `Linux011.X86.Cpu.repne_scasb_hit` and `Linux011.X86.Cpu.repeating_scasb_miss`
for the search, `Linux011.X86.Cpu.repeating_stosb` and `Linux011.X86.Cpu.repeating_stosl` for the
fill.

A string is what lies in the memory up to a byte 0 (`Linux011.X86.Str`); addresses are of 32 bits,
and go round.
-/

namespace Linux011.X86

/-- An address. -/
abbrev Addr := BitVec 32

/-- A byte. -/
abbrev Byte := BitVec 8

/-! ### The processor -/

/-- **The registers, the flags and the memory**. -/
structure Cpu where
  eax : BitVec 32
  ecx : BitVec 32
  edx : BitVec 32
  esi : Addr
  edi : Addr
  /-- The direction flag. -/
  df : Bool
  zf : Bool
  sf : Bool
  /-- The sign flag and the overflow flag are different. -/
  less : Bool
  mem : Addr → Byte
  /-- Where something has been stored, the last place first. -/
  stores : List Addr

namespace Cpu

variable (c : Cpu)

/-- `%al` -/
def al : Byte := c.eax.setWidth 8

/-- `%ah` -/
def ah : Byte := c.eax.extractLsb' 8 8

/-- `movb b,%al` -/
def setAl (b : Byte) : Cpu := { c with eax := (c.eax.extractLsb' 8 24 ++ b : BitVec (24 + 8)) }

/-- `movb b,%ah` -/
def setAh (b : Byte) : Cpu :=
  { c with eax := (c.eax.extractLsb' 16 16 ++ b ++ c.eax.extractLsb' 0 8 : BitVec (16 + 8 + 8)) }

/-- How a pointer goes on. -/
def step : Addr := if c.df then -1 else 1

/-- **A comparison**: the flags of `a - b`. -/
def compare {n : ℕ} (a b : BitVec n) : Cpu :=
  { c with
    zf := decide (a = b)
    sf := (a - b).msb
    less := a.slt b }

/-- `testb %al,%al` -/
def testAl : Cpu := c.compare c.al 0

/-- `cld` -/
def cld : Cpu := { c with df := false }

/-- `std` -/
def std : Cpu := { c with df := true }

/-- `decl %ecx` -/
def declEcx : Cpu := { c.compare c.ecx 1 with ecx := c.ecx - 1 }

/-- `decl %edi` -/
def declEdi : Cpu := { c.compare c.edi 1 with edi := c.edi - 1 }

/-- `decl %eax` -/
def declEax : Cpu := { c.compare c.eax 1 with eax := c.eax - 1 }

/-- `incl %esi` -/
def inclEsi : Cpu := { c.compare c.esi (-1) with esi := c.esi + 1 }

/-- `xorl %eax,%eax` -/
def xorlEax : Cpu := { c.compare (0 : BitVec 32) 0 with eax := 0 }

/-- `negl %eax` -/
def neglEax : Cpu := { c.compare 0 c.eax with eax := -c.eax }

/-- A byte is stored. -/
def store (a : Addr) (b : Byte) : Cpu :=
  { c with
    mem := Function.update c.mem a b
    stores := a :: c.stores }

/-- `lodsb` -/
def lodsb : Cpu := { c.setAl (c.mem c.esi) with esi := c.esi + c.step }

/-- `stosb` -/
def stosb : Cpu := { c.store c.edi c.al with edi := c.edi + c.step }

/-- `scasb` -/
def scasb : Cpu := { c.compare c.al (c.mem c.edi) with edi := c.edi + c.step }

/-- `cmpsb` -/
def cmpsb : Cpu :=
  { c.compare (c.mem c.esi) (c.mem c.edi) with esi := c.esi + c.step, edi := c.edi + c.step }

/-- `stosl` -/
def stosl : Cpu :=
  { c with
    mem := fun x =>
      if (x - c.edi).toNat < 4 then c.eax.extractLsb' (8 * (x - c.edi).toNat) 8 else c.mem x
    stores := c.edi :: (c.edi + 1) :: (c.edi + 2) :: (c.edi + 3) :: c.stores
    edi := c.edi + 4 * c.step }

/-- An instruction again and again, until it sets the flags so, or the count is over. -/
def repeating (op : Cpu → Cpu) (stop : Cpu → Bool) : ℕ → Cpu → Cpu
  | 0, c => c
  | n + 1, c =>
    let c := op { c with ecx := c.ecx - 1 }
    if stop c then c else repeating op stop n c

/-- `rep` -/
def rep (op : Cpu → Cpu) : Cpu := repeating op (fun _ => false) c.ecx.toNat c

/-- `repne` -/
def repne (op : Cpu → Cpu) : Cpu := repeating op (fun c => c.zf) c.ecx.toNat c

/-- `repe` -/
def repe (op : Cpu → Cpu) : Cpu := repeating op (fun c => !c.zf) c.ecx.toNat c

end Cpu

/-! ### Memory -/

variable {m m' : Addr → Byte} {a b x : Addr} {s t : List Byte} {n i : ℕ} {c : Cpu}

/-- **A string** with its byte 0. -/
def Str (m : Addr → Byte) : Addr → List Byte → Prop
  | a, [] => m a = 0
  | a, c :: s => m a = c ∧ c ≠ 0 ∧ Str m (a + 1) s

/-- One of so many bytes from an address on. -/
def Within (a : Addr) (n : ℕ) (x : Addr) : Prop := ∃ i < n, x = a + BitVec.ofNat 32 i

/-- Two places without a byte in common. -/
def Apart (a : Addr) (n : ℕ) (b : Addr) (k : ℕ) : Prop := ∀ x, Within a n x → ¬Within b k x

/-- **Bytes are stored** from an address on. -/
def write (m : Addr → Byte) : Addr → List Byte → Addr → Byte
  | _, [] => m
  | a, b :: bs => write (Function.update m a b) (a + 1) bs

theorem ofNat_succ (i : ℕ) : BitVec.ofNat 32 (i + 1) = 1 + BitVec.ofNat 32 i := by
  rw [Nat.add_comm, BitVec.ofNat_add]
  rfl

theorem within_succ : Within a (n + 1) x ↔ x = a ∨ Within (a + 1) n x := by
  constructor
  · rintro ⟨i, hi, rfl⟩
    cases i with
    | zero => exact Or.inl (BitVec.add_zero a)
    | succ i =>
      refine Or.inr ⟨i, by omega, ?_⟩
      rw [ofNat_succ, BitVec.add_assoc]
  · rintro (rfl | ⟨i, hi, rfl⟩)
    · exact ⟨0, by omega, (BitVec.add_zero x).symm⟩
    · refine ⟨i + 1, by omega, ?_⟩
      rw [ofNat_succ, BitVec.add_assoc]

theorem within_self (n : ℕ) (a : Addr) : Within a (n + 1) a := within_succ.mpr (Or.inl rfl)

/-- So many bytes are all there are. -/
theorem within_all (a x : Addr) : Within a (2 ^ 32) x := by
  refine ⟨(x - a).toNat, (x - a).isLt, ?_⟩
  rw [BitVec.ofNat_toNat, BitVec.setWidth_eq]
  ring

theorem Within.mono {k : ℕ} (h : Within a n x) (hle : n ≤ k) : Within a k x := by
  obtain ⟨i, hi, rfl⟩ := h
  exact ⟨i, by omega, rfl⟩

theorem within_iff (hn : n ≤ 2 ^ 32) : Within a n x ↔ (x - a).toNat < n := by
  constructor
  · rintro ⟨i, hi, rfl⟩
    have hsub : a + BitVec.ofNat 32 i - a = BitVec.ofNat 32 i := by ring
    rw [hsub, BitVec.toNat_ofNat, Nat.mod_eq_of_lt (by omega)]
    exact hi
  · intro hlt
    refine ⟨(x - a).toNat, hlt, ?_⟩
    rw [BitVec.ofNat_toNat, BitVec.setWidth_eq]
    ring

theorem Within.of_add {k : ℕ} (h : Within (a + BitVec.ofNat 32 k) n x) : Within a (k + n) x := by
  obtain ⟨i, hi, rfl⟩ := h
  refine ⟨k + i, by omega, ?_⟩
  rw [BitVec.ofNat_add, BitVec.add_assoc]

theorem Apart.tail {k : ℕ} (h : Apart a (n + 1) b (k + 1)) : Apart (a + 1) n (b + 1) k :=
  fun x hx hx' => h x (within_succ.mpr (Or.inr hx)) (within_succ.mpr (Or.inr hx'))

theorem Str.congr (h : Str m a s) (hsame : ∀ x, Within a (s.length + 1) x → m' x = m x) :
    Str m' a s := by
  induction s generalizing a with
  | nil => exact (hsame a (within_self _ a)).trans h
  | cons c s ih =>
    obtain ⟨hc, hne, hrest⟩ := h
    refine ⟨(hsame a (within_self _ a)).trans hc, hne, ih hrest fun x hx => hsame x ?_⟩
    exact within_succ.mpr (Or.inr hx)

theorem Str.ne_zero (h : Str m a s) : ∀ c ∈ s, c ≠ 0 := by
  induction s generalizing a with
  | nil => exact fun c hc => absurd hc List.not_mem_nil
  | cons d s ih =>
    obtain ⟨-, hne, hrest⟩ := h
    intro c hc
    rcases List.mem_cons.mp hc with rfl | hc
    · exact hne
    · exact ih hrest c hc

theorem Str.get (h : Str m a s) : ∀ i (hi : i < s.length), m (a + BitVec.ofNat 32 i) = s[i] := by
  induction s generalizing a with
  | nil => exact fun i hi => absurd hi (Nat.not_lt_zero i)
  | cons c s ih =>
    intro i hi
    obtain ⟨hc, -, hrest⟩ := h
    cases i with
    | zero => exact (congrArg m (BitVec.add_zero a)).trans hc
    | succ i =>
      rw [ofNat_succ, ← BitVec.add_assoc, ih hrest i (Nat.lt_of_succ_lt_succ hi)]
      rfl

theorem Str.get_end (h : Str m a s) : m (a + BitVec.ofNat 32 s.length) = 0 := by
  induction s generalizing a with
  | nil => exact (congrArg m (BitVec.add_zero a)).trans h
  | cons c s ih =>
    rw [List.length_cons, ofNat_succ, ← BitVec.add_assoc]
    exact ih h.2.2

/-- **A string that leaves room** for another byte is shorter than the memory. -/
theorem Str.length_lt (hx : ¬Within a (s.length + 1) x) : s.length + 1 < 2 ^ 32 := by
  by_contra hge
  exact hx ((within_all a x).mono (Nat.not_lt.mp hge))

theorem write_append (m : Addr → Byte) (a : Addr) (s t : List Byte) :
    write m a (s ++ t) = write (write m a s) (a + BitVec.ofNat 32 s.length) t := by
  induction s generalizing a m with
  | nil => rw [List.nil_append, write, List.length_nil, BitVec.add_zero]
  | cons c s ih =>
    rw [List.cons_append, write, write, ih, List.length_cons, ofNat_succ, BitVec.add_assoc]

/-! ### Repeated instructions -/

namespace Cpu

theorem al_setAl (c : Cpu) (b : Byte) : (c.setAl b).al = b := by
  rw [al, setAl, BitVec.setWidth_append, dif_pos le_rfl, BitVec.setWidth_eq]

/-- A comparison of what is equal. -/
theorem compare_self {n : ℕ} (c : Cpu) (a : BitVec n) :
    c.compare a a = { c with zf := true, sf := false, less := false } := by
  rw [compare, BitVec.sub_self, BitVec.msb_zero, decide_eq_true rfl]
  congr 1
  exact decide_eq_false (lt_irrefl _)

theorem step_of_cld (h : c.df = false) : c.step = 1 := by
  rw [step, h]
  rfl

theorem repeating_succ {op : Cpu → Cpu} {stop : Cpu → Bool} {n : ℕ} (c : Cpu) :
    repeating op stop (n + 1) c = if stop (op { c with ecx := c.ecx - 1 }) then
      op { c with ecx := c.ecx - 1 } else
      repeating op stop n (op { c with ecx := c.ecx - 1 }) := rfl

theorem walk_succ (a step : Addr) (i : ℕ) :
    a + BitVec.ofNat 32 (i + 1) * step = a + step + BitVec.ofNat 32 i * step := by
  rw [ofNat_succ]
  ring

theorem walk_zero (a step : Addr) : a + BitVec.ofNat 32 0 * step = a := by
  rw [BitVec.zero_mul, BitVec.add_zero]

theorem count_succ (a : BitVec 32) (i : ℕ) :
    a - BitVec.ofNat 32 (i + 1) = a - 1 - BitVec.ofNat 32 i := by
  rw [ofNat_succ]
  ring

theorem repeating_scasb_hit {n i : ℕ} {c : Cpu} (hi : i < n)
    (hmiss : ∀ j < i, c.mem (c.edi + BitVec.ofNat 32 j * c.step) ≠ c.al)
    (hhit : c.mem (c.edi + BitVec.ofNat 32 i * c.step) = c.al) :
    repeating scasb (fun c => c.zf) n c =
      { c with
        ecx := c.ecx - BitVec.ofNat 32 (i + 1)
        edi := c.edi + BitVec.ofNat 32 (i + 1) * c.step
        zf := true
        sf := false
        less := false } := by
  induction i generalizing n c with
  | zero =>
    obtain ⟨n, rfl⟩ := Nat.exists_eq_succ_of_ne_zero (Nat.ne_of_gt hi)
    rw [walk_zero] at hhit
    have hop : scasb { c with ecx := c.ecx - 1 } = { c with
        ecx := c.ecx - 1, edi := c.edi + c.step, zf := true, sf := false, less := false } := by
      rw [scasb]
      dsimp only
      rw [hhit]
      exact congrArg (fun d : Cpu => { d with edi := c.edi + c.step })
        (compare_self { c with ecx := c.ecx - 1 } c.al)
    rw [Nat.succ_eq_add_one, repeating_succ, hop, if_pos rfl, walk_succ, walk_zero, count_succ,
      BitVec.sub_zero]
  | succ i ih =>
    obtain ⟨n, rfl⟩ := Nat.exists_eq_succ_of_ne_zero (Nat.ne_of_gt (Nat.zero_lt_of_lt hi))
    have hmiss' : c.al ≠ c.mem c.edi := by
      have hzero := hmiss 0 (Nat.succ_pos i)
      rw [walk_zero] at hzero
      exact hzero.symm
    have hzf : (scasb { c with ecx := c.ecx - 1 }).zf = false := decide_eq_false hmiss'
    rw [Nat.succ_eq_add_one, repeating_succ, hzf, if_neg Bool.false_ne_true, ih (by omega)]
    · rw [count_succ c.ecx (i + 1), walk_succ c.edi c.step (i + 1)]
      rfl
    · intro j hj
      have hnext := hmiss (j + 1) (by omega)
      rw [walk_succ] at hnext
      exact hnext
    · rw [walk_succ] at hhit
      exact hhit

/-- **The search** ends behind the first byte that is `%al`. -/
theorem repne_scasb_hit {i : ℕ} {c : Cpu} (hi : i < c.ecx.toNat)
    (hmiss : ∀ j < i, c.mem (c.edi + BitVec.ofNat 32 j * c.step) ≠ c.al)
    (hhit : c.mem (c.edi + BitVec.ofNat 32 i * c.step) = c.al) :
    c.repne scasb =
      { c with
        ecx := c.ecx - BitVec.ofNat 32 (i + 1)
        edi := c.edi + BitVec.ofNat 32 (i + 1) * c.step
        zf := true
        sf := false
        less := false } := repeating_scasb_hit hi hmiss hhit

/-- A search that finds nothing leaves the zero flag clear. -/
theorem repeating_scasb_miss {n : ℕ} {c : Cpu} (hn : 0 < n)
    (hmiss : ∀ j < n, c.mem (c.edi + BitVec.ofNat 32 j * c.step) ≠ c.al) :
    (repeating scasb (fun c => c.zf) n c).zf = false ∧
      (repeating scasb (fun c => c.zf) n c).eax = c.eax ∧
      (repeating scasb (fun c => c.zf) n c).mem = c.mem := by
  induction n generalizing c with
  | zero => exact absurd hn (lt_irrefl 0)
  | succ n ih =>
    have hmiss' : c.al ≠ c.mem c.edi := by
      have hzero := hmiss 0 (Nat.succ_pos n)
      rw [walk_zero] at hzero
      exact hzero.symm
    have hzf : (scasb { c with ecx := c.ecx - 1 }).zf = false := decide_eq_false hmiss'
    rw [repeating_succ, hzf, if_neg Bool.false_ne_true]
    rcases Nat.eq_zero_or_pos n with rfl | hpos
    · exact ⟨hzf, rfl, rfl⟩
    · refine ih hpos fun j hj => ?_
      have hnext := hmiss (j + 1) (by omega)
      rw [walk_succ] at hnext
      exact hnext

/-- **Bytes have been stored** from `%edi` on, and nowhere else. -/
structure Wrote (c d : Cpu) (bytes : List Byte) : Prop where
  mem : d.mem = write c.mem c.edi bytes
  stores : ∀ x ∈ d.stores, x ∈ c.stores ∨ Within c.edi bytes.length x

theorem Wrote.refl (c : Cpu) : Wrote c c [] := ⟨rfl, fun _ hx => Or.inl hx⟩

/-- One byte, and then others. -/
theorem Wrote.cons {c d e : Cpu} {b : Byte} {bytes : List Byte} (h : Wrote d e bytes)
    (hmem : d.mem = Function.update c.mem c.edi b) (hstores : d.stores = c.edi :: c.stores)
    (hedi : d.edi = c.edi + 1) : Wrote c e (b :: bytes) := by
  constructor
  · rw [h.mem, hmem, hedi, write]
  · intro x hx
    rcases h.stores x hx with hold | hin
    · rw [hstores] at hold
      rcases List.mem_cons.mp hold with rfl | hold
      · exact Or.inr (within_self _ _)
      · exact Or.inl hold
    · rw [hedi] at hin
      exact Or.inr (within_succ.mpr (Or.inr hin))

theorem stosb_of_cld (h : c.df = false) :
    c.stosb = { c.store c.edi c.al with edi := c.edi + 1 } := by
  rw [stosb, step_of_cld h]

/-- **The fill** with `%al`. -/
theorem repeating_stosb {n : ℕ} {c : Cpu} (hdf : c.df = false) :
    Wrote c (repeating stosb (fun _ => false) n c) (List.replicate n c.al) := by
  induction n generalizing c with
  | zero => exact .refl c
  | succ n ih =>
    rw [repeating_succ, if_neg Bool.false_ne_true, stosb_of_cld (by exact hdf), List.replicate_succ]
    exact .cons (ih (by exact hdf)) rfl rfl rfl

/-- **The fill**, backwards: so many words end up 0, and nothing else changes. -/
theorem repeating_stosl {n : ℕ} {c : Cpu} {a : Addr} (hn : 4 * n ≤ 2 ^ 32) (hdf : c.df = true)
    (heax : c.eax = 0) (hedi : c.edi = a + BitVec.ofNat 32 (4 * n) - 4) :
    (repeating stosl (fun _ => false) n c).edx = c.edx ∧
      ∀ x, (repeating stosl (fun _ => false) n c).mem x =
        if (x - a).toNat < 4 * n then 0 else c.mem x := by
  induction n generalizing c with
  | zero =>
    refine ⟨rfl, fun x => ?_⟩
    rw [if_neg (Nat.not_lt_zero _)]
    rfl
  | succ n ih =>
    rw [repeating_succ, if_neg Bool.false_ne_true]
    have hedi' : c.edi = a + BitVec.ofNat 32 (4 * n) := by
      rw [hedi, Nat.mul_succ, BitVec.ofNat_add, show BitVec.ofNat 32 4 = (4 : BitVec 32) from rfl]
      ring
    have hstep : c.step = -1 := by
      rw [step, hdf]
      rfl
    obtain ⟨hedx, hmem⟩ := @ih (stosl { c with ecx := c.ecx - 1 }) (by omega) hdf heax (by
      change c.edi + 4 * c.step = _
      rw [hedi', hstep]
      ring)
    refine ⟨hedx, fun x => ?_⟩
    rw [hmem]
    change (if (x - a).toNat < 4 * n then 0 else if (x - c.edi).toNat < 4 then
      c.eax.extractLsb' (8 * (x - c.edi).toNat) 8 else c.mem x) = _
    have hsub : x - c.edi = x - a - BitVec.ofNat 32 (4 * n) := by
      rw [hedi']
      ring
    have hzero : ∀ i, (0 : BitVec 32).extractLsb' i 8 = 0 := fun i => BitVec.extractLsb'_zero
    rw [hsub, heax, hzero]
    generalize x - a = y
    rw [BitVec.toNat_sub, BitVec.toNat_ofNat]
    have hy := y.isLt
    split_ifs <;> first | rfl | omega

end Cpu

end Linux011.X86

import Linux011.Strings.Copies

/-!
# What the comparisons return

`strcmp` and `strncmp` come to the first two characters that differ (`Linux011.Strings.firstDiff`),
and return 1 or -1 by `jl`, the jump for signed numbers (`Linux011.Strings.strcmpLoop_run`,
`Linux011.Strings.strncmpLoop_run`).
-/

namespace Linux011.Strings

open X86

variable {c d : Cpu} {s t : List Byte} {n k : ℕ}

/-- **The first characters that differ**, the byte 0 at the end included. -/
def firstDiff : List Byte → List Byte → Option (Byte × Byte)
  | [], [] => none
  | a :: _, [] => some (a, 0)
  | [], b :: _ => some (0, b)
  | a :: s, b :: t => if a = b then firstDiff s t else some (a, b)

/-- What is returned for two characters. -/
def verdict : Option (Byte × Byte) → BitVec 32
  | none => 0
  | some (a, b) => if b.slt a = true then 1 else -1

/-! ### Two characters -/

/-- **Two characters have been compared.** -/
structure Compared (c d : Cpu) : Prop where
  zf : d.zf = decide (c.mem c.esi = c.mem c.edi)
  less : d.less = (c.mem c.esi).slt (c.mem c.edi)
  al : d.al = c.mem c.esi
  esi : d.esi = c.esi + 1
  edi : d.edi = c.edi + 1
  ecx : d.ecx = c.ecx
  df : d.df = false
  mem : d.mem = c.mem
  stores : d.stores = c.stores

theorem compared (h : c.df = false) : Compared c c.lodsb.scasb := by
  have hal : c.lodsb.al = c.mem c.esi := Cpu.al_setAl c _
  have hstep : c.step = 1 := Cpu.step_of_cld h
  have hstep' : c.lodsb.step = 1 := Cpu.step_of_cld (by exact h)
  constructor
  · change decide (c.lodsb.al = c.mem c.edi) = _
    rw [hal]
  · change c.lodsb.al.slt (c.mem c.edi) = _
    rw [hal]
  · exact hal
  · change c.esi + c.step = _
    rw [hstep]
  · change c.edi + c.lodsb.step = _
    rw [hstep']
  · rfl
  · exact h
  · rfl
  · rfl

/-- **The end of a comparison**: what is returned, and that nothing has been stored. -/
structure Decided (c d : Cpu) (v : BitVec 32) : Prop where
  eax : d.eax = v
  mem : d.mem = c.mem
  stores : d.stores = c.stores

/-- Characters that differ. -/
theorem Compared.order (h : Compared c d) {a b : Byte} (ha : c.mem c.edi = a)
    (hb : c.mem c.esi = b) : Decided c (order d) (verdict (some (a, b))) := by
  have hless : d.less = b.slt a := by rw [h.less, ha, hb]
  rw [Strings.order, verdict]
  dsimp only
  rw [hless]
  split_ifs
  · exact ⟨rfl, h.mem, h.stores⟩
  · exact ⟨rfl, h.mem, h.stores⟩

/-- The strings are equal so far, and both are over. -/
theorem Compared.over (h : Compared c d) : Decided c d.testAl.xorlEax 0 := ⟨rfl, h.mem, h.stores⟩

/-- The first characters of the two strings. -/
theorem head_eq {m : Addr → Byte} {a : Addr} (h : Str m a s) : m a = s.headD 0 := by
  cases s with
  | nil => exact h
  | cons b s => exact h.1

/-- Strings whose first characters differ. -/
theorem firstDiff_of_ne (h : s.headD 0 ≠ t.headD 0) :
    firstDiff s t = some (s.headD 0, t.headD 0) := by
  cases s with
  | nil =>
    cases t with
    | nil => exact absurd rfl h
    | cons b t => rfl
  | cons a s =>
    cases t with
    | nil => rfl
    | cons b t => exact if_neg h

/-- **A round of the loops**: characters that differ, two strings that are over, or a character that
both have. -/
inductive Round (c d : Cpu) (s t : List Byte) : Prop
  | differ (zf : d.zf = false) (heads : s.headD 0 ≠ t.headD 0)
      (decided : Decided c (order d) (verdict (firstDiff s t)))
  | ended (zf : d.zf = true) (al : d.testAl.zf = true) (left : s = []) (right : t = [])
  | same (zf : d.zf = true) (al : d.testAl.zf = false) (a : Byte) (s' t' : List Byte)
      (left : s = a :: s') (right : t = a :: t') (hs : Str d.mem d.edi s') (ht : Str d.mem d.esi t')

theorem Compared.round (h : Compared c d) (hs : Str c.mem c.edi s) (ht : Str c.mem c.esi t) :
    Round c d s t := by
  have hleft := head_eq hs
  have hright := head_eq ht
  by_cases hne : s.headD 0 = t.headD 0
  · have hzf : d.zf = true := by
      rw [h.zf, hleft, hright, hne]
      exact decide_eq_true rfl
    have hal : d.testAl.zf = decide (t.headD 0 = 0) := by
      change decide (d.al = 0) = _
      rw [h.al, hright]
    cases s with
    | nil =>
      cases t with
      | nil => exact .ended hzf (hal.trans (decide_eq_true rfl)) rfl rfl
      | cons b t => exact absurd hne.symm ht.2.1
    | cons a s =>
      cases t with
      | nil => exact absurd hne hs.2.1
      | cons b t =>
        obtain rfl : a = b := hne
        refine .same hzf (hal.trans (decide_eq_false hs.2.1)) a s t rfl rfl ?_ ?_
        · rw [h.mem, h.edi]
          exact hs.2.2
        · rw [h.mem, h.esi]
          exact ht.2.2
  · have hzf : d.zf = false := by
      rw [h.zf, hleft, hright]
      exact decide_eq_false (Ne.symm hne)
    refine .differ hzf hne ?_
    rw [firstDiff_of_ne hne]
    exact h.order hleft hright

theorem Decided.trans {e : Cpu} {v : BitVec 32} (h : Decided d e v) (hmem : d.mem = c.mem)
    (hstores : d.stores = c.stores) : Decided c e v :=
  ⟨h.eax, h.mem.trans hmem, h.stores.trans hstores⟩

/-! ### `strcmp` -/

/-- **The loop of `strcmp`** -/
theorem strcmpLoop_run (hs : Str c.mem c.edi s) (ht : Str c.mem c.esi t) (hdf : c.df = false)
    (hn : s.length < n) :
    ∃ d, strcmpLoop n c = some d ∧ Decided c d (verdict (firstDiff s t)) := by
  induction n generalizing c s t with
  | zero => exact absurd hn (Nat.not_lt_zero _)
  | succ n ih =>
    have hcompared := compared hdf
    cases hcompared.round hs ht with
    | differ hzf _ hdecided =>
      refine ⟨_, ?_, hdecided⟩
      rw [strcmpLoop]
      exact if_pos hzf
    | ended hzf hal hleft hright =>
      refine ⟨_, ?_, by rw [hleft, hright]; exact hcompared.over⟩
      rw [strcmpLoop]
      exact (if_neg (ne_false_of_eq_true hzf)).trans
        (if_neg (ne_false_of_eq_true hal))
    | same hzf hal a s' t' hleft hright hs' ht' =>
      subst hleft hright
      obtain ⟨d, hrun, hdecided⟩ := @ih c.lodsb.scasb.testAl s' t' hs' ht' hcompared.df
        (Nat.lt_of_succ_lt_succ hn)
      refine ⟨d, ?_, ?_⟩
      · rw [strcmpLoop]
        exact (if_neg (ne_false_of_eq_true hzf)).trans ((if_pos hal).trans hrun)
      · rw [firstDiff, if_pos rfl]
        exact hdecided.trans hcompared.mem hcompared.stores

/-! ### `strncmp` -/

/-- **The loop of `strncmp`** looks at no more characters than it is to. -/
theorem strncmpLoop_run (hs : Str c.mem c.edi s) (ht : Str c.mem c.esi t) (hdf : c.df = false)
    (hk : c.ecx.toNat = k) (hlt : k < 2 ^ 31) (hn : k < n) :
    ∃ d, strncmpLoop n c = some d ∧
      Decided c d (verdict (firstDiff (s.take k) (t.take k))) := by
  induction k generalizing n c s t with
  | zero =>
    obtain ⟨n, rfl⟩ := Nat.exists_eq_succ_of_ne_zero (Nat.ne_of_gt hn)
    refine ⟨c.declEcx.xorlEax, ?_, ⟨rfl, rfl, rfl⟩⟩
    rw [strncmpLoop]
    exact if_pos (declEcx_of_zero hk)
  | succ k ih =>
    obtain ⟨n, rfl⟩ := Nat.exists_eq_succ_of_ne_zero (Nat.ne_of_gt (Nat.zero_lt_of_lt hn))
    obtain ⟨hsf, hecx⟩ := declEcx_of_succ hk hlt
    have hsf' : ¬c.declEcx.sf = true := ne_true_of_eq_false hsf
    have hcompared := compared (c := c.declEcx) hdf
    cases hcompared.round hs ht with
    | differ hzf hne hdecided =>
      have hhead : ∀ l : List Byte, (l.take (k + 1)).headD 0 = l.headD 0 := by
        intro l
        cases l <;> rfl
      refine ⟨order c.declEcx.lodsb.scasb, ?_, ?_⟩
      · rw [strncmpLoop]
        exact (if_neg hsf').trans (if_pos hzf)
      · rw [firstDiff_of_ne hne] at hdecided
        rw [firstDiff_of_ne (by rw [hhead, hhead]; exact hne), hhead, hhead]
        exact hdecided.trans rfl rfl
    | ended hzf hal hleft hright =>
      refine ⟨_, ?_, by rw [hleft, hright]; exact hcompared.over.trans rfl rfl⟩
      rw [strncmpLoop]
      exact (if_neg hsf').trans ((if_neg (ne_false_of_eq_true hzf)).trans
        (if_neg (ne_false_of_eq_true hal)))
    | same hzf hal a s' t' hleft hright hs' ht' =>
      subst hleft hright
      obtain ⟨d, hrun, hdecided⟩ := @ih c.declEcx.lodsb.scasb.testAl s' t' n hs' ht' hcompared.df
        (hcompared.ecx ▸ hecx) (by omega) (Nat.lt_of_succ_lt_succ hn)
      refine ⟨d, ?_, ?_⟩
      · rw [strncmpLoop]
        exact (if_neg hsf').trans ((if_neg (ne_false_of_eq_true hzf)).trans
          ((if_pos hal).trans hrun))
      · rw [List.take_succ_cons, List.take_succ_cons, firstDiff, if_pos rfl]
        exact hdecided.trans hcompared.mem hcompared.stores

end Linux011.Strings

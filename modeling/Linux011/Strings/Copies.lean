import Linux011.Strings.Routines

/-!
# What the copies store

The loop of `strcpy` and `strcat` stores a string with its byte 0 (`Linux011.Strings.copyLoop_run`).
The one of `strncpy` counts, and fills up with 0 (`Linux011.Strings.strncpyLoop_run`). The one of
`strncat` counts too; but where the string ends first it has stored the byte 0 already, and another
one comes after it (`Linux011.Strings.strncatLoop_run`).
-/

namespace Linux011.Strings

open X86

variable {c d : Cpu} {dest src : Addr} {s t : List Byte} {n k : ℕ}

/-! ### One byte -/

/-- **A byte has been copied**, and compared with 0. -/
structure Copied (c d : Cpu) : Prop where
  zf : d.zf = decide (c.mem c.esi = 0)
  mem : d.mem = Function.update c.mem c.edi (c.mem c.esi)
  stores : d.stores = c.edi :: c.stores
  esi : d.esi = c.esi + 1
  edi : d.edi = c.edi + 1
  al : d.al = c.mem c.esi
  ecx : d.ecx = c.ecx
  df : d.df = false

theorem copied (h : c.df = false) : Copied c c.lodsb.stosb.testAl := by
  have hstep : c.step = 1 := Cpu.step_of_cld h
  have hal : c.lodsb.al = c.mem c.esi := Cpu.al_setAl c _
  have hstep' : c.lodsb.step = 1 := Cpu.step_of_cld (by exact h)
  constructor
  · change decide (c.lodsb.al = 0) = _
    rw [hal]
  · change Function.update c.mem c.edi c.lodsb.al = _
    rw [hal]
  · rfl
  · change c.esi + c.step = _
    rw [hstep]
  · change c.edi + c.lodsb.step = _
    rw [hstep']
  · exact hal
  · rfl
  · exact h

/-- What is left of the string is where it was. -/
theorem Copied.rest (h : Copied c d) {b : Byte} (hs : Str c.mem c.esi (b :: s))
    (hd : ¬Within c.esi (s.length + 2) c.edi) : Str d.mem d.esi s := by
  rw [h.esi, h.mem]
  refine hs.2.2.congr fun x hx => Function.update_of_ne ?_ _ _
  rintro rfl
  exact hd (within_succ.mpr (Or.inr hx))

/-! ### `strcpy` and `strcat` -/

/-- **The loop of `strcpy`** stores the string with its byte 0. -/
theorem copyLoop_run (hs : Str c.mem c.esi s) (hd : Apart c.edi (s.length + 1) c.esi (s.length + 1))
    (hdf : c.df = false) (hn : s.length < n) :
    ∃ d, copyLoop n c = some d ∧ Cpu.Wrote c d (s ++ [0]) := by
  induction s generalizing n c with
  | nil =>
    obtain ⟨n, rfl⟩ := Nat.exists_eq_succ_of_ne_zero (Nat.ne_of_gt (Nat.zero_lt_of_lt hn))
    have hcopy := copied hdf
    have hzero : c.mem c.esi = 0 := hs
    have hzf : c.lodsb.stosb.testAl.zf = true := by
      rw [hcopy.zf, hzero]
      rfl
    refine ⟨c.lodsb.stosb.testAl, ?_, ?_⟩
    · rw [copyLoop]
      exact if_neg (ne_false_of_eq_true hzf)
    · exact .cons (.refl _) (by rw [hcopy.mem, hzero]) hcopy.stores hcopy.edi
  | cons b s ih =>
    obtain ⟨n, rfl⟩ := Nat.exists_eq_succ_of_ne_zero (Nat.ne_of_gt (Nat.zero_lt_of_lt hn))
    have hcopy := copied hdf
    have hb : c.mem c.esi = b := hs.1
    have hzf : c.lodsb.stosb.testAl.zf = false := by
      rw [hcopy.zf, hb]
      exact decide_eq_false hs.2.1
    rw [List.length_cons] at hd hn
    obtain ⟨d, hrun, hwrote⟩ := ih (c := c.lodsb.stosb.testAl)
      (hcopy.rest hs (hd _ (within_self _ _)))
      (by rw [hcopy.edi, hcopy.esi]; exact hd.tail) hcopy.df (Nat.lt_of_succ_lt_succ hn)
    refine ⟨d, ?_, ?_⟩
    · rw [copyLoop]
      exact (if_pos hzf).trans hrun
    · exact .cons hwrote (by rw [hcopy.mem, hb]) hcopy.stores hcopy.edi

/-! ### `strncpy` -/

/-- The count before a byte is copied. -/
theorem declEcx_of_succ (hk : c.ecx.toNat = k + 1) (hlt : k + 1 < 2 ^ 31) :
    c.declEcx.sf = false ∧ c.declEcx.ecx.toNat = k := by
  have hnat : (c.ecx - 1).toNat = k := by
    rw [BitVec.toNat_sub, hk]
    change (2 ^ 32 - 1 + (k + 1)) % 2 ^ 32 = k
    omega
  refine ⟨?_, hnat⟩
  change (c.ecx - 1).msb = false
  rw [BitVec.msb_eq_decide, hnat]
  exact decide_eq_false (by omega)

/-- The count is over. -/
theorem declEcx_of_zero (hk : c.ecx.toNat = 0) : c.declEcx.sf = true := by
  have hzero : c.ecx = 0 := BitVec.eq_of_toNat_eq hk
  change (c.ecx - 1).msb = true
  rw [hzero]
  decide

/-- **The loop of `strncpy`** stores so many bytes: those of the string, and then 0. -/
theorem strncpyLoop_run (hs : Str c.mem c.esi s) (hd : Apart c.edi k c.esi (s.length + 1))
    (hdf : c.df = false) (hk : c.ecx.toNat = k) (hlt : k < 2 ^ 31) (hn : k < n) :
    ∃ d, strncpyLoop n c = some d ∧
      Cpu.Wrote c d (s.take k ++ List.replicate (k - s.length) 0) := by
  induction k generalizing n c s with
  | zero =>
    obtain ⟨n, rfl⟩ := Nat.exists_eq_succ_of_ne_zero (Nat.ne_of_gt hn)
    refine ⟨c.declEcx, ?_, ?_⟩
    · rw [strncpyLoop]
      exact if_pos (declEcx_of_zero hk)
    · rw [Nat.zero_sub]
      exact ⟨rfl, fun _ hx => Or.inl hx⟩
  | succ k ih =>
    obtain ⟨n, rfl⟩ := Nat.exists_eq_succ_of_ne_zero (Nat.ne_of_gt (Nat.zero_lt_of_lt hn))
    obtain ⟨hsf, hecx⟩ := declEcx_of_succ hk hlt
    have hsf' : ¬c.declEcx.sf = true := ne_true_of_eq_false hsf
    have hcopy := copied (c := c.declEcx) hdf
    cases s with
    | nil =>
      have hzero : c.mem c.esi = 0 := hs
      have hal : c.declEcx.lodsb.stosb.testAl.al = 0 := hcopy.al.trans hzero
      have hzf : ¬c.declEcx.lodsb.stosb.testAl.zf = false := by
        rw [hcopy.zf, show c.declEcx.mem c.declEcx.esi = 0 from hzero]
        exact Bool.noConfusion
      refine ⟨c.declEcx.lodsb.stosb.testAl.rep Cpu.stosb, ?_, ?_⟩
      · rw [strncpyLoop]
        exact (if_neg hsf').trans (if_neg hzf)
      · have hfill := Cpu.repeating_stosb (n := k) hcopy.df
        rw [hal] at hfill
        rw [List.take_nil, List.nil_append, List.length_nil, Nat.sub_zero, List.replicate_succ,
          Cpu.rep, hcopy.ecx, hecx]
        refine .cons hfill ?_ hcopy.stores hcopy.edi
        rw [hcopy.mem]
        exact congrArg _ hzero
    | cons b s =>
      have hb : c.mem c.esi = b := hs.1
      have hzf : c.declEcx.lodsb.stosb.testAl.zf = false := by
        rw [hcopy.zf, show c.declEcx.mem c.declEcx.esi = b from hb]
        exact decide_eq_false hs.2.1
      rw [List.length_cons] at hd
      obtain ⟨d, hrun, hwrote⟩ := ih (c := c.declEcx.lodsb.stosb.testAl)
        (hcopy.rest hs (hd _ (within_self _ _)))
        (by rw [hcopy.edi, hcopy.esi]; exact hd.tail) hcopy.df
        (by rw [hcopy.ecx, hecx]) (by omega) (Nat.lt_of_succ_lt_succ hn)
      refine ⟨d, ?_, ?_⟩
      · rw [strncpyLoop]
        exact (if_neg hsf').trans ((if_pos hzf).trans hrun)
      · rw [List.take_succ_cons, List.cons_append, List.length_cons, Nat.add_sub_add_right]
        refine .cons hwrote ?_ hcopy.stores hcopy.edi
        rw [hcopy.mem]
        exact congrArg _ hb

/-! ### The end of a string -/

/-- **The search for the byte 0** leaves `%edi` there. -/
theorem repne_scasb_str {s : List Byte} (hs : Str c.mem c.edi s) (hal : c.al = 0)
    (hdf : c.df = false) (hlen : s.length < c.ecx.toNat) :
    c.repne Cpu.scasb = { c with
      ecx := c.ecx - BitVec.ofNat 32 (s.length + 1)
      edi := c.edi + BitVec.ofNat 32 (s.length + 1)
      zf := true
      sf := false
      less := false } := by
  have hstep : c.step = 1 := Cpu.step_of_cld hdf
  rw [Cpu.repne_scasb_hit hlen, hstep, mul_one]
  · intro j hj
    rw [hstep, mul_one, hs.get j hj, hal]
    exact hs.ne_zero _ (List.getElem_mem hj)
  · rw [hstep, mul_one, hs.get_end, hal]

/-- The end of the string that something is put behind. -/
theorem toEnd_eq (hs : Str c.mem dest t) (hlen : t.length + 1 < 2 ^ 32) :
    (toEnd dest src c).edi = dest + BitVec.ofNat 32 t.length ∧ (toEnd dest src c).esi = src ∧
      (toEnd dest src c).df = false ∧ (toEnd dest src c).mem = c.mem ∧
      (toEnd dest src c).stores = [] := by
  have hfound := repne_scasb_str (c := (inputs c 0 0xffffffff src dest).cld) hs rfl rfl
    (show t.length < 2 ^ 32 - 1 by omega)
  rw [toEnd, hfound]
  refine ⟨?_, rfl, rfl, rfl, rfl⟩
  change dest + BitVec.ofNat 32 (t.length + 1) - 1 = _
  rw [ofNat_succ]
  ring

/-! ### `strncat` -/

/-- **The loop of `strncat`** ends in front of a byte that has not been stored, if the count is not
larger than the string; else behind the byte 0 of the string, which has been stored. -/
theorem strncatLoop_run (hs : Str c.mem c.esi s) (hd : Apart c.edi (min k (s.length + 1)) c.esi
    (s.length + 1)) (hdf : c.df = false) (hk : c.ecx.toNat = k) (hlt : k < 2 ^ 31) (hn : k < n) :
    ∃ d bytes, strncatLoop n c = some d ∧ Cpu.Wrote c d bytes ∧ d.df = false ∧
      d.edi = c.edi + BitVec.ofNat 32 bytes.length ∧
      bytes = if k ≤ s.length then s.take k else s ++ [0] := by
  induction k generalizing n c s with
  | zero =>
    obtain ⟨n, rfl⟩ := Nat.exists_eq_succ_of_ne_zero (Nat.ne_of_gt hn)
    refine ⟨c.declEcx, [], ?_, ⟨rfl, fun _ hx => Or.inl hx⟩, hdf, (BitVec.add_zero _).symm, ?_⟩
    · rw [strncatLoop]
      exact if_pos (declEcx_of_zero hk)
    · rw [if_pos (Nat.zero_le _), List.take_zero]
  | succ k ih =>
    obtain ⟨n, rfl⟩ := Nat.exists_eq_succ_of_ne_zero (Nat.ne_of_gt (Nat.zero_lt_of_lt hn))
    obtain ⟨hsf, hecx⟩ := declEcx_of_succ hk hlt
    have hsf' : ¬c.declEcx.sf = true := ne_true_of_eq_false hsf
    have hcopy := copied (c := c.declEcx) hdf
    cases s with
    | nil =>
      have hzero : c.mem c.esi = 0 := hs
      have hzf : ¬c.declEcx.lodsb.stosb.testAl.zf = false := by
        rw [hcopy.zf, show c.declEcx.mem c.declEcx.esi = 0 from hzero]
        exact Bool.noConfusion
      refine ⟨c.declEcx.lodsb.stosb.testAl, [0], ?_, ?_, hcopy.df, hcopy.edi, ?_⟩
      · rw [strncatLoop]
        exact (if_neg hsf').trans (if_neg hzf)
      · refine .cons (.refl _) ?_ hcopy.stores hcopy.edi
        rw [hcopy.mem]
        exact congrArg _ hzero
      · exact (if_neg (Nat.not_succ_le_zero k)).symm
    | cons b s =>
      have hb : c.mem c.esi = b := hs.1
      have hzf : c.declEcx.lodsb.stosb.testAl.zf = false := by
        rw [hcopy.zf, show c.declEcx.mem c.declEcx.esi = b from hb]
        exact decide_eq_false hs.2.1
      rw [List.length_cons, Nat.add_min_add_right] at hd
      obtain ⟨d, bytes, hrun, hwrote, hdf', hedi, hbytes⟩ := ih (c := c.declEcx.lodsb.stosb.testAl)
        (hcopy.rest hs (hd _ (within_self _ _)))
        (by rw [hcopy.edi, hcopy.esi]; exact hd.tail) hcopy.df
        (by rw [hcopy.ecx, hecx]) (by omega) (Nat.lt_of_succ_lt_succ hn)
      refine ⟨d, b :: bytes, ?_, ?_, hdf', ?_, ?_⟩
      · rw [strncatLoop]
        exact (if_neg hsf').trans ((if_pos hzf).trans hrun)
      · refine .cons hwrote ?_ hcopy.stores hcopy.edi
        rw [hcopy.mem]
        exact congrArg _ hb
      · rw [hedi, hcopy.edi, List.length_cons, ofNat_succ, BitVec.add_assoc]
        rfl
      · rw [hbytes, List.length_cons, List.take_succ_cons, List.cons_append]
        by_cases hle : k ≤ s.length
        · rw [if_pos hle, if_pos (Nat.succ_le_succ hle)]
        · rw [if_neg hle, if_neg fun h => hle (Nat.le_of_succ_le_succ h)]

end Linux011.Strings

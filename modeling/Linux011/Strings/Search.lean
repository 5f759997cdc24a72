import Linux011.Strings.Compare
import Mathlib.Data.List.Infix

/-!
# What the searches return

`strchr` returns the place of the first character that is the one, the byte 0 at the end included
(`Linux011.Strings.strchrLoop_run`). `strstr` compares at one place after the other, and ends where
it has come to the byte 0 of the string (`Linux011.Strings.strstrLoop_run`); that the empty string
is at the first place it knows by the flag of `decl`, which `repe` leaves if it has nothing to
compare.
-/

namespace Linux011.Strings

open X86

variable {c d : Cpu} {a : Addr} {s t : List Byte} {b : Byte} {n : ℕ}

/-! ### `strchr` -/

theorem ah_setAl (c : Cpu) (b : Byte) : (c.setAl b).ah = c.ah := by
  rw [Cpu.ah, Cpu.setAl, BitVec.extractLsb'_append_eq_of_le (by decide)]
  ext i hi
  rw [BitVec.getElem_extractLsb', BitVec.getLsbD_extractLsb', Cpu.ah, BitVec.getElem_extractLsb']
  simp only [Nat.sub_self, Nat.zero_add, Bool.and_eq_right_iff_imp, decide_eq_true_eq]
  omega

/-- **A character has been read**, and compared with the one that is searched for. -/
structure Read (c d : Cpu) : Prop where
  zf : d.zf = decide (c.mem c.esi = c.ah)
  test : d.testAl.zf = decide (c.mem c.esi = 0)
  ah : d.ah = c.ah
  esi : d.esi = c.esi + 1
  df : d.df = false
  mem : d.mem = c.mem
  stores : d.stores = c.stores

theorem read (h : c.df = false) : Read c (c.lodsb.compare c.lodsb.al c.lodsb.ah) := by
  have hal : c.lodsb.al = c.mem c.esi := Cpu.al_setAl c _
  have hah : c.lodsb.ah = c.ah := ah_setAl c _
  have hstep : c.step = 1 := Cpu.step_of_cld h
  constructor
  · change decide (c.lodsb.al = c.lodsb.ah) = _
    rw [hal, hah]
  · change decide (c.lodsb.al = 0) = _
    rw [hal]
  · exact hah
  · change c.esi + c.step = _
    rw [hstep]
  · exact h
  · rfl
  · rfl

/-- The character has been found. -/
theorem Read.found (h : Read c d) : Decided c ({ d with eax := d.esi } : Cpu).declEax c.esi := by
  refine ⟨?_, h.mem, h.stores⟩
  change d.esi - 1 = _
  rw [h.esi]
  ring

/-- The string is over. -/
theorem Read.over (h : Read c d) {v : BitVec 32} (hv : v = 1) : Decided c ({ d.testAl with
    esi := v
    eax := v } : Cpu).declEax 0 := by
  refine ⟨?_, h.mem, h.stores⟩
  change v - 1 = 0
  rw [hv]
  exact BitVec.sub_self 1

/-- What is returned for the first place of a character. -/
def place (a : Addr) (s : List Byte) (b : Byte) : Addr :=
  ((s ++ [0]).idxOf? b).elim 0 fun i => a + BitVec.ofNat 32 i

/-- The character is the first one. -/
theorem place_head (h : s.headD 0 = b) : place a s b = a := by
  cases s with
  | nil =>
    subst h
    exact BitVec.add_zero a
  | cons x s =>
    subst h
    rw [place, List.cons_append, List.idxOf?_cons]
    exact (congrArg (fun o : Option ℕ => o.elim 0 fun i => a + BitVec.ofNat 32 i)
      (if_pos (beq_self_eq_true x))).trans (BitVec.add_zero a)

/-- It is not the only one, that of the end. -/
theorem place_nil (h : 0 ≠ b) : place a [] b = 0 := by
  rw [place, List.nil_append, List.idxOf?_cons, if_neg (by rwa [beq_iff_eq])]
  rfl

/-- It is not the first one. -/
theorem place_cons {x : Byte} (h : x ≠ b) : place a (x :: s) b = place (a + 1) s b := by
  rw [place, place, List.cons_append, List.idxOf?_cons, if_neg (by rwa [beq_iff_eq])]
  rcases List.idxOf? b (s ++ [0]) with _ | i
  · rfl
  · change a + BitVec.ofNat 32 (i + 1) = a + 1 + BitVec.ofNat 32 i
    rw [ofNat_succ, BitVec.add_assoc]

/-- **The loop of `strchr`** -/
theorem strchrLoop_run (hs : Str c.mem c.esi s) (hah : c.ah = b) (hdf : c.df = false)
    (hn : s.length < n) : ∃ d, strchrLoop n c = some d ∧ Decided c d (place c.esi s b) := by
  induction n generalizing c s with
  | zero => exact absurd hn (Nat.not_lt_zero _)
  | succ n ih =>
    have hread := read hdf
    have hhead := head_eq hs
    by_cases hb : s.headD 0 = b
    · have hzf := hread.zf.trans (decide_eq_true (hhead.trans (hb.trans hah.symm)))
      refine ⟨({ c.lodsb.compare c.lodsb.al c.lodsb.ah with
        eax := (c.lodsb.compare c.lodsb.al c.lodsb.ah).esi } : Cpu).declEax, ?_, ?_⟩
      · rw [strchrLoop]
        exact if_pos hzf
      · rw [place_head hb]
        exact hread.found
    · have hzf : ¬(c.lodsb.compare c.lodsb.al c.lodsb.ah).zf = true := by
        rw [hread.zf, hhead, hah, decide_eq_true_iff]
        exact hb
      cases s with
      | nil =>
        have hend : ¬(c.lodsb.compare c.lodsb.al c.lodsb.ah).testAl.zf = false := by
          rw [hread.test, hhead, List.headD_nil, decide_eq_true rfl]
          exact Bool.noConfusion
        refine ⟨({ (c.lodsb.compare c.lodsb.al c.lodsb.ah).testAl with
          esi := 1
          eax := 1 } : Cpu).declEax, ?_, ?_⟩
        · rw [strchrLoop]
          exact (if_neg hzf).trans (if_neg hend)
        · rw [place_nil hb]
          exact hread.over rfl
      | cons x s =>
        have hnext : (c.lodsb.compare c.lodsb.al c.lodsb.ah).testAl.zf = false := by
          rw [hread.test, hhead]
          exact decide_eq_false hs.2.1
        obtain ⟨d, hrun, hdecided⟩ := @ih (c.lodsb.compare c.lodsb.al c.lodsb.ah).testAl s
          (by change Str c.mem (c.lodsb.compare c.lodsb.al c.lodsb.ah).esi s
              rw [hread.esi]
              exact hs.2.2)
          (hread.ah.trans hah) hread.df (Nat.lt_of_succ_lt_succ hn)
        refine ⟨d, ?_, ?_⟩
        · rw [strchrLoop]
          exact (if_neg hzf).trans ((if_pos hnext).trans hrun)
        · rw [place_cons (show x ≠ b from hb), ← hread.esi]
          exact hdecided.trans hread.mem hread.stores

/-! ### `strstr` -/

/-- **The place of a string in another one**, or 0 if there is none. -/
def Found (a : Addr) (s t : List Byte) (r : Addr) : Prop :=
  (∃ i ≤ s.length, t <+: s.drop i ∧ (∀ j < i, ¬t <+: s.drop j) ∧ r = a + BitVec.ofNat 32 i) ∨
    (∀ i ≤ s.length, ¬t <+: s.drop i) ∧ r = 0

/-- It is at the first place. -/
theorem Found.here (h : t <+: s) : Found a s t a :=
  Or.inl ⟨0, Nat.zero_le _, h, fun _ hj => absurd hj (Nat.not_lt_zero _), (BitVec.add_zero a).symm⟩

/-- It is not at the first place. -/
theorem Found.cons {r : Addr} (h : ¬t <+: b :: s) (hf : Found (a + 1) s t r) :
    Found a (b :: s) t r := by
  rcases hf with ⟨i, hi, hpre, hmin, rfl⟩ | ⟨hnone, hr⟩
  · refine Or.inl ⟨i + 1, Nat.succ_le_succ hi, hpre, ?_, ?_⟩
    · rintro (_ | j) hj
      · exact h
      · exact hmin j (Nat.lt_of_succ_lt_succ hj)
    · rw [ofNat_succ, BitVec.add_assoc]
  · refine Or.inr ⟨?_, hr⟩
    rintro (_ | i) hi
    · exact h
    · exact hnone i (Nat.le_of_succ_le_succ hi)

/-- It is longer. -/
theorem Found.short (h : s.length < t.length) : Found a s t 0 := by
  refine Or.inr ⟨fun i _ hpre => ?_, rfl⟩
  have hle := hpre.length_le
  rw [List.length_drop] at hle
  omega

/-- What a comparison of two strings does, other than to the flags and the pointers. -/
structure Kept (c d : Cpu) : Prop where
  eax : d.eax = c.eax
  edx : d.edx = c.edx
  df : d.df = c.df
  mem : d.mem = c.mem
  stores : d.stores = c.stores

/-- **What the comparison finds** at a place: what is searched for, or a byte that is different; if
that is the byte 0 of the string, the string is shorter. -/
inductive Matched (c d : Cpu) (s t : List Byte) : Prop
  | found (zf : t ≠ [] ∨ c.zf = true → d.zf = true) (prefixed : t <+: s)
  | differs (zf : d.zf = false) (notPrefixed : ¬t <+: s)
      (short : c.mem (d.esi - 1) = 0 → s.length < t.length) (ended : s = [] → c.mem (d.esi - 1) = 0)

theorem repeating_cmpsb (hs : Str c.mem c.esi s) (ht : Str c.mem c.edi t) (hdf : c.df = false) :
    Kept c (Cpu.repeating Cpu.cmpsb (fun c => !c.zf) t.length c) ∧
      Matched c (Cpu.repeating Cpu.cmpsb (fun c => !c.zf) t.length c) s t := by
  induction t generalizing c s with
  | nil =>
    refine ⟨⟨rfl, rfl, rfl, rfl, rfl⟩, .found ?_ List.nil_prefix⟩
    rintro (hne | hzf)
    · exact absurd rfl hne
    · exact hzf
  | cons b t ih =>
    have hstep : c.step = 1 := Cpu.step_of_cld hdf
    have hhead := head_eq hs
    have hesi : (Cpu.cmpsb { c with ecx := c.ecx - 1 }).esi = c.esi + 1 :=
      congrArg (c.esi + ·) hstep
    have hedi : (Cpu.cmpsb { c with ecx := c.ecx - 1 }).edi = c.edi + 1 :=
      congrArg (c.edi + ·) hstep
    have hzf : (Cpu.cmpsb { c with ecx := c.ecx - 1 }).zf = decide (s.headD 0 = b) := by
      change decide (c.mem c.esi = c.mem c.edi) = _
      rw [hhead, ht.1]
    rw [List.length_cons, Cpu.repeating_succ]
    by_cases hb : s.headD 0 = b
    · rw [hzf, decide_eq_true hb, if_neg (by exact Bool.false_ne_true)]
      cases s with
      | nil => exact absurd hb.symm ht.2.1
      | cons x s =>
        obtain rfl : x = b := hb
        obtain ⟨hkept, hmatched⟩ := @ih (Cpu.cmpsb { c with ecx := c.ecx - 1 }) s
          (by rw [hesi]; exact hs.2.2) (by rw [hedi]; exact ht.2.2) hdf
        refine ⟨⟨hkept.eax, hkept.edx, hkept.df, hkept.mem, hkept.stores⟩, ?_⟩
        cases hmatched with
        | found hfound hpre =>
          refine .found (fun _ => hfound (Or.inr ?_)) ?_
          · rw [hzf]
            exact decide_eq_true rfl
          · exact List.cons_prefix_cons.mpr ⟨rfl, hpre⟩
        | differs hfalse hnot hshort hover =>
          refine .differs hfalse ?_ ?_ ?_
          · rw [List.cons_prefix_cons]
            exact fun h => hnot h.2
          · exact fun h => Nat.succ_lt_succ (hshort h)
          · exact fun h => absurd h (List.cons_ne_nil _ _)
    · rw [hzf, decide_eq_false hb, if_pos (by rfl)]
      have hback : (Cpu.cmpsb { c with ecx := c.ecx - 1 }).esi - 1 = c.esi := by
        rw [hesi]
        ring
      refine ⟨⟨rfl, rfl, rfl, rfl, rfl⟩, .differs (hzf.trans (decide_eq_false hb)) ?_ ?_ ?_⟩
      · cases s with
        | nil => exact fun h => absurd h.length_le (Nat.not_succ_le_zero _)
        | cons x s =>
          rw [List.cons_prefix_cons]
          exact fun h => hb h.1.symm
      · rw [hback, hhead]
        cases s with
        | nil => exact fun _ => Nat.succ_pos _
        | cons x s => exact fun h => absurd h hs.2.1
      · rintro rfl
        rw [hback]
        exact hs

/-- `xchgl %eax,%esi; incl %esi; cmpb $0,-1(%eax)` -/
def next (d : Cpu) : Cpu :=
  ({ d with eax := d.esi, esi := d.eax } : Cpu).inclEsi.compare (d.mem (d.esi - 1)) 0

/-- **The loop of `strstr`** -/
theorem strstrLoop_run {ct : Addr} (hs : Str c.mem c.esi s) (ht : Str c.mem ct t)
    (hdf : c.df = false) (hedx : c.edx.toNat = t.length) (hzf : t = [] → c.zf = true)
    (hn : s.length < n) :
    ∃ d r, strstrLoop ct n c = some d ∧ Found c.esi s t r ∧ Decided c d r := by
  induction n generalizing c s with
  | zero => exact absurd hn (Nat.not_lt_zero _)
  | succ n ih =>
    have hround := @repeating_cmpsb ({ c with edi := ct, eax := c.esi, ecx := c.edx } : Cpu) s t
      hs ht hdf
    have hrepe : ({ c with edi := ct, eax := c.esi, ecx := c.edx } : Cpu).repe Cpu.cmpsb =
        Cpu.repeating Cpu.cmpsb (fun c => !c.zf) t.length
          { c with edi := ct, eax := c.esi, ecx := c.edx } :=
      congrArg (fun k => Cpu.repeating Cpu.cmpsb (fun c => !c.zf) k _) hedx
    rw [← hrepe] at hround
    obtain ⟨hkept, hmatched⟩ := hround
    generalize hd : ({ c with edi := ct, eax := c.esi, ecx := c.edx } : Cpu).repe Cpu.cmpsb = d
      at hkept hmatched
    have hstep : strstrLoop ct (n + 1) c = if d.zf = true then some d else
        if (Strings.next d).zf = false then strstrLoop ct n (Strings.next d) else
          some (Strings.next d).xorlEax := by
      rw [← hd]
      rfl
    cases hmatched with
    | found hzf' hpre =>
      have hfound : d.zf = true := by
        refine hzf' ?_
        by_cases ht : t = []
        · exact Or.inr (hzf ht)
        · exact Or.inl ht
      exact ⟨d, c.esi, hstep.trans (if_pos hfound), .here hpre, hkept.eax, hkept.mem, hkept.stores⟩
    | differs hzf' hnot hshort hover =>
      have hzero : (Strings.next d).zf = decide (c.mem (d.esi - 1) = 0) := by
        rw [← show d.mem = c.mem from hkept.mem]
        rfl
      have hne : ¬d.zf = true := by
        rw [hzf']
        exact Bool.noConfusion
      by_cases hend : c.mem (d.esi - 1) = 0
      · refine ⟨(Strings.next d).xorlEax, 0, ?_, .short (hshort hend), rfl, hkept.mem, hkept.stores⟩
        rw [hstep, if_neg hne, hzero, decide_eq_true hend]
        exact if_neg Bool.noConfusion
      · cases s with
        | nil => exact absurd (hover rfl) hend
        | cons x s =>
          have hesi : (Strings.next d).esi = c.esi + 1 := congrArg (· + 1) hkept.eax
          have hmem : (Strings.next d).mem = c.mem := hkept.mem
          obtain ⟨e, r, hrun, hfound, hdecided⟩ := @ih (Strings.next d) s
            (by rw [hesi, hmem]; exact hs.2.2) (by rw [hmem]; exact ht) (hkept.df.trans hdf)
            (by rw [← hedx]; exact congrArg BitVec.toNat hkept.edx)
            (by rintro rfl; exact absurd List.nil_prefix hnot) (Nat.lt_of_succ_lt_succ hn)
          refine ⟨e, r, ?_, .cons hnot (hesi ▸ hfound), hdecided.trans hmem hkept.stores⟩
          rw [hstep, if_neg hne, hzero, decide_eq_false hend]
          exact (if_pos rfl).trans hrun

end Linux011.Strings

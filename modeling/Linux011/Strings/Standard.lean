import Linux011.Strings.Search

/-!
# The string routines and the C standard

A call (`Linux011.Strings.Call`), what the standard asks of the one who makes it
(`Linux011.Strings.Call.Proper`) and of the routine (`Linux011.Strings.Call.Meets`). The routines do
what they should but for two of them: where `strncat` comes to the end of the string before the
count is over, the byte 0 has been stored, and `stosb` stores another one behind it; and `strcmp`
and `strncmp` jump as for signed numbers, so that a character from 128 on comes before the others.
`Linux011.Strings.Call.Right` says when neither happens, and `Linux011.Strings.standard_iff` that
this is exactly when the standard is met.
-/

namespace Linux011.Strings

open X86

variable {m : Addr → Byte} {c d : Cpu} {dest src cs ct a : Addr} {s t bytes : List Byte} {n : ℕ}
variable {count char r : BitVec 32}

/-! ### The calls -/

/-- **A call** of a string routine. -/
inductive Call
  | strcpy (dest src : Addr)
  | strncpy (dest src : Addr) (count : BitVec 32)
  | strcat (dest src : Addr)
  | strncat (dest src : Addr) (count : BitVec 32)
  | strcmp (cs ct : Addr)
  | strncmp (cs ct : Addr) (count : BitVec 32)
  | strchr (s : Addr) (char : BitVec 32)
  | strstr (cs ct : Addr)

/-- The routine runs, for so many rounds of its loop at most: what it returns, and the processor
afterwards. -/
def Call.run (n : ℕ) (c : Cpu) : Call → Option (BitVec 32 × Cpu)
  | strcpy dest src => Strings.strcpy n dest src c
  | strncpy dest src count => Strings.strncpy n dest src count c
  | strcat dest src => Strings.strcat n dest src c
  | strncat dest src count => Strings.strncat n dest src count c
  | strcmp cs ct => Strings.strcmp n cs ct c
  | strncmp cs ct count => Strings.strncmp n cs ct count c
  | strchr s char => Strings.strchr n s char c
  | strstr cs ct => Strings.strstr n cs ct c

/-- **What the standard asks of the caller**: strings with their byte 0, the first one `s` for a
comparison or a search and the source for a copy; counts that are not negative; and memory for what
is stored that has nothing in common with the source. -/
def Call.Proper (m : Addr → Byte) (s t : List Byte) : Call → Prop
  | strcpy dest src => Str m src s ∧ Apart dest (s.length + 1) src (s.length + 1)
  | strncpy dest src count =>
    Str m src s ∧ 0 ≤ count.toInt ∧ Apart dest count.toNat src (s.length + 1)
  | strcat dest src =>
    Str m src s ∧ Str m dest t ∧ Apart dest (t.length + (s.length + 1)) src (s.length + 1)
  | strncat dest src count =>
    Str m src s ∧ Str m dest t ∧ 0 ≤ count.toInt ∧
      Apart dest (t.length + (min count.toNat s.length + 1)) src (s.length + 1)
  | strcmp cs ct => Str m cs s ∧ Str m ct t
  | strncmp cs ct count => Str m cs s ∧ Str m ct t ∧ 0 ≤ count.toInt
  | strchr a _ => Str m a s
  | strstr cs ct => Str m cs s ∧ Str m ct t ∧ Apart cs (s.length + 1) ct (t.length + 1)

/-- **Just these bytes are stored** at a place. -/
structure Stored (m : Addr → Byte) (d : Cpu) (a : Addr) (bytes : List Byte) : Prop where
  mem : d.mem = write m a bytes
  stores : ∀ x ∈ d.stores, Within a bytes.length x

/-- Nothing is stored. -/
def Unchanged (m : Addr → Byte) (d : Cpu) : Prop := d.mem = m ∧ d.stores = []

/-- **The result of a comparison** of two strings, the characters as unsigned numbers. -/
def Compares (r : BitVec 32) (s t : List Byte) : Prop :=
  (r = 0 ↔ s = t) ∧ (r.toInt < 0 ↔ s < t) ∧ (0 < r.toInt ↔ t < s)

/-- **What the standard asks of the routine**: what is returned, and what is in the memory. -/
def Call.Meets (m : Addr → Byte) (s t : List Byte) (r : BitVec 32) (d : Cpu) : Call → Prop
  | strcpy dest _ => r = dest ∧ Stored m d dest (s ++ [0])
  | strncpy dest _ count =>
    r = dest ∧ Stored m d dest (s.take count.toNat ++ List.replicate (count.toNat - s.length) 0)
  | strcat dest _ => r = dest ∧ Stored m d (dest + BitVec.ofNat 32 t.length) (s ++ [0])
  | strncat dest _ count =>
    r = dest ∧ Stored m d (dest + BitVec.ofNat 32 t.length) (s.take count.toNat ++ [0])
  | strcmp _ _ => Compares r s t ∧ Unchanged m d
  | strncmp _ _ count => Compares r (s.take count.toNat) (t.take count.toNat) ∧ Unchanged m d
  | strchr a char => r = place a s (char.setWidth 8) ∧ Unchanged m d
  | strstr cs _ => Found cs s t r ∧ Unchanged m d

/-- Characters on the same side of 128. -/
def Alike : Option (Byte × Byte) → Prop
  | none => True
  | some (a, b) => a.msb = b.msb

/-- **When the standard is met**: `strncat` is not to append more characters than there are, and the
first characters that differ are both below 128 or both from 128 on. -/
def Call.Right (s t : List Byte) : Call → Prop
  | strncat _ _ count => count.toNat ≤ s.length
  | strcmp _ _ => Alike (firstDiff s t)
  | strncmp _ _ count => Alike (firstDiff (s.take count.toNat) (t.take count.toNat))
  | _ => True

/-! ### Copies -/

theorem toNat_lt_of_nonneg (h : 0 ≤ count.toInt) : count.toNat < 2 ^ 31 := by
  rw [BitVec.toInt_eq_toNat_cond] at h
  have hlt := count.isLt
  split_ifs at h <;> omega

theorem stored_of_wrote (h : Cpu.Wrote c d bytes) (hmem : c.mem = m) (hedi : c.edi = a)
    (hstores : c.stores = []) : Stored m d a bytes := by
  constructor
  · rw [h.mem, hmem, hedi]
  · intro x hx
    rcases h.stores x hx with hold | hin
    · rw [hstores] at hold
      exact absurd hold List.not_mem_nil
    · exact hedi ▸ hin

theorem strcpy_run (hs : Str c.mem src s) (hd : Apart dest (s.length + 1) src (s.length + 1))
    (hn : s.length < n) :
    ∃ d, strcpy n dest src c = some (dest, d) ∧ Stored c.mem d dest (s ++ [0]) := by
  obtain ⟨d, hrun, hwrote⟩ := @copyLoop_run (inputs c c.eax c.ecx src dest).cld s n hs hd rfl hn
  refine ⟨d, ?_, stored_of_wrote hwrote rfl rfl rfl⟩
  rw [strcpy, hrun]
  rfl

theorem strncpy_run (hs : Str c.mem src s) (hcount : 0 ≤ count.toInt)
    (hd : Apart dest count.toNat src (s.length + 1)) (hn : count.toNat < n) :
    ∃ d, strncpy n dest src count c = some (dest, d) ∧ Stored c.mem d dest
      (s.take count.toNat ++ List.replicate (count.toNat - s.length) 0) := by
  obtain ⟨d, hrun, hwrote⟩ := @strncpyLoop_run (inputs c c.eax count src dest).cld s n count.toNat
    hs hd rfl rfl (toNat_lt_of_nonneg hcount) hn
  refine ⟨d, ?_, stored_of_wrote hwrote rfl rfl rfl⟩
  rw [strncpy, hrun]
  rfl

/-- The string that something is appended to leaves room for the source. -/
theorem length_lt_of_apart {k : ℕ} (h : Apart dest (t.length + (k + 1)) src (s.length + 1)) :
    t.length + 1 < 2 ^ 32 :=
  Str.length_lt fun hx => h src (hx.mono (by omega)) (within_self _ _)

/-- What is behind the end of a string has nothing in common with the source either. -/
theorem Apart.behind {k : ℕ} (h : Apart dest (t.length + n) src k) :
    Apart (dest + BitVec.ofNat 32 t.length) n src k :=
  fun x hx => h x hx.of_add

theorem strcat_run (hs : Str c.mem src s) (ht : Str c.mem dest t)
    (hd : Apart dest (t.length + (s.length + 1)) src (s.length + 1)) (hn : s.length < n) :
    ∃ d, strcat n dest src c = some (dest, d) ∧
      Stored c.mem d (dest + BitVec.ofNat 32 t.length) (s ++ [0]) := by
  obtain ⟨hedi, hesi, hdf, hmem, hstores⟩ :=
    @toEnd_eq c dest src t ht (length_lt_of_apart hd)
  obtain ⟨d, hrun, hwrote⟩ := @copyLoop_run (toEnd dest src c) s n (by rw [hmem, hesi]; exact hs)
    (by rw [hedi, hesi]; exact Apart.behind hd) hdf hn
  refine ⟨d, ?_, stored_of_wrote hwrote hmem hedi hstores⟩
  rw [strcat, hrun]
  rfl

/-- `xorl %eax,%eax; stosb` -/
theorem wrote_snoc (h : Cpu.Wrote c d bytes) (hdf : d.df = false)
    (hedi : d.edi = c.edi + BitVec.ofNat 32 bytes.length) :
    Cpu.Wrote c d.xorlEax.stosb (bytes ++ [0]) := by
  rw [Cpu.stosb_of_cld (by exact hdf)]
  constructor
  · rw [write_append, ← hedi, ← h.mem]
    rfl
  · rintro x hx
    rcases List.mem_cons.mp hx with rfl | hx
    · refine Or.inr ⟨bytes.length, ?_, hedi⟩
      rw [List.length_append]
      exact Nat.lt_succ_self _
    · rw [List.length_append]
      exact (h.stores x hx).imp_right fun hin => hin.mono (Nat.le_succ _)

/-- The loop of `strncat` and the byte 0 after it store what they should, unless the count is larger
than the string. -/
theorem strncatLoop_stored (hmem : c.mem = m) (hstores : c.stores = []) (hdf : c.df = false)
    (hs : Str m c.esi s) (hd : Apart c.edi (min count.toNat s.length + 1) c.esi (s.length + 1))
    (hecx : c.ecx = count) (hcount : 0 ≤ count.toInt) (hn : count.toNat < n) :
    ∃ d, strncatLoop n c = some d ∧
      (Stored m d.xorlEax.stosb c.edi (s.take count.toNat ++ [0]) ↔ count.toNat ≤ s.length) := by
  obtain ⟨d, bytes, hloop, hwrote, hdf', hedi, hbytes⟩ :=
    @strncatLoop_run c s n count.toNat (hmem ▸ hs) (fun x hx => hd x (hx.mono (by omega))) hdf
      (congrArg BitVec.toNat hecx) (toNat_lt_of_nonneg hcount) hn
  have hwrote' := wrote_snoc hwrote hdf' hedi
  refine ⟨d, hloop, ?_⟩
  constructor
  · intro hstored
    by_contra hlt
    -- the byte 0 of the string has been stored, and this one comes behind it
    rw [if_neg hlt] at hbytes
    have hlast : d.edi ∈ d.xorlEax.stosb.stores := List.mem_cons_self
    have hroom : s.length + 1 < 2 ^ 32 := Str.length_lt (hd _ (within_self _ _))
    have hin := hstored.stores _ hlast
    have hback : d.edi - c.edi = BitVec.ofNat 32 (s.length + 1) := by
      rw [hedi, hbytes, List.length_append, List.length_singleton]
      ring
    rw [List.take_of_length_le (Nat.le_of_not_le hlt), List.length_append, List.length_singleton,
      within_iff hroom.le, hback, BitVec.toNat_ofNat, Nat.mod_eq_of_lt hroom] at hin
    exact lt_irrefl _ hin
  · intro hle
    rw [if_pos hle] at hbytes
    exact hbytes ▸ stored_of_wrote hwrote' hmem rfl hstores

/-- **`strncat`** -/
theorem strncat_run (hs : Str c.mem src s) (ht : Str c.mem dest t) (hcount : 0 ≤ count.toInt)
    (hd : Apart dest (t.length + (min count.toNat s.length + 1)) src (s.length + 1))
    (hn : count.toNat < n) :
    ∃ d, strncat n dest src count c = some (dest, d) ∧
      (Stored c.mem d (dest + BitVec.ofNat 32 t.length) (s.take count.toNat ++ [0]) ↔
        count.toNat ≤ s.length) := by
  obtain ⟨hedi, hesi, hdf, hmem, hstores⟩ :=
    @toEnd_eq c dest src t ht (length_lt_of_apart hd)
  have hbehind := Apart.behind hd
  rw [← hesi] at hs hbehind
  rw [← hedi] at hbehind ⊢
  obtain ⟨d, hloop, hstored⟩ := @strncatLoop_stored c.mem { toEnd dest src c with ecx := count }
    s n count hmem hstores hdf hs hbehind rfl hcount hn
  refine ⟨d.xorlEax.stosb, ?_, hstored⟩
  rw [strncat, hloop]
  rfl

/-! ### Comparisons -/

/-- Numbers with the same sign are ordered as unsigned ones, others the other way round. -/
theorem slt_eq_ult_iff (a b : Byte) : b.slt a = b.ult a ↔ a.msb = b.msb := by
  rw [BitVec.slt_eq_ult]
  cases a.msb <;> cases b.msb <;> cases b.ult a <;> decide

/-- **Where the first characters differ**, the result is right if they are alike. -/
theorem compares_of_ne {a b : Byte} (hne : a ≠ b) (hst : s ≠ t) (hlt : s < t ↔ a < b)
    (hgt : t < s ↔ b < a) : Compares (verdict (some (a, b))) s t ↔ Alike (some (a, b)) := by
  have hult : b.ult a = true ↔ b < a := BitVec.ult_iff_lt
  rw [Alike, ← slt_eq_ult_iff, verdict, Compares, hlt, hgt, ← hult]
  have hrev : a < b ↔ ¬b.ult a = true := by
    have hnat : a.toNat ≠ b.toNat := mt BitVec.eq_of_toNat_eq hne
    rw [hult, BitVec.lt_def, BitVec.lt_def]
    omega
  rw [hrev]
  rcases b.slt a with _ | _
  · have hminus : (-1 : BitVec 32).toInt = -1 := by decide
    rw [if_neg Bool.false_ne_true, hminus]
    cases b.ult a <;> simp [hst]
  · have hone : (1 : BitVec 32).toInt = 1 := by decide
    rw [if_pos rfl, hone]
    cases b.ult a <;> simp [hst]

theorem zero_lt_of_ne {a : Byte} (h : a ≠ 0) : 0 < a ∧ ¬a < 0 := by
  have hnat : a.toNat ≠ 0 := fun hzero => h (BitVec.eq_of_toNat_eq hzero)
  rw [BitVec.lt_def, BitVec.lt_def]
  exact ⟨Nat.pos_of_ne_zero hnat, Nat.not_lt_zero _⟩

/-- **The result of a comparison** is right if the first characters that differ are alike. -/
theorem compares_iff (hs : ∀ a ∈ s, a ≠ 0) (ht : ∀ b ∈ t, b ≠ 0) :
    Compares (verdict (firstDiff s t)) s t ↔ Alike (firstDiff s t) := by
  induction s generalizing t with
  | nil =>
    cases t with
    | nil => simp [firstDiff, verdict, Compares, Alike]
    | cons b t =>
      have hb := ht b List.mem_cons_self
      refine compares_of_ne hb.symm (List.cons_ne_nil _ _).symm ?_ ?_
      · exact iff_of_true (List.nil_lt_cons _ _) (zero_lt_of_ne hb).1
      · exact iff_of_false (List.not_lt_nil _) (zero_lt_of_ne hb).2
  | cons a s ih =>
    cases t with
    | nil =>
      have ha := hs a List.mem_cons_self
      refine compares_of_ne ha (List.cons_ne_nil _ _) ?_ ?_
      · exact iff_of_false (List.not_lt_nil _) (zero_lt_of_ne ha).2
      · exact iff_of_true (List.nil_lt_cons _ _) (zero_lt_of_ne ha).1
    | cons b t =>
      by_cases hab : a = b
      · subst hab
        have hrest := ih (fun x hx => hs x (List.mem_cons_of_mem _ hx))
          (fun x hx => ht x (List.mem_cons_of_mem _ hx))
        rw [firstDiff, if_pos rfl, ← hrest, Compares, Compares]
        simp
      · rw [firstDiff, if_neg hab]
        refine compares_of_ne hab (fun h => hab (List.cons.inj h).1) ?_ ?_
        · rw [List.cons_lt_cons_iff]
          exact or_iff_left fun h => hab h.1
        · rw [List.cons_lt_cons_iff]
          exact or_iff_left fun h => hab h.1.symm

/-- A comparison or a search stores nothing. -/
theorem Decided.unchanged {v : BitVec 32} (h : Decided c d v) (hmem : c.mem = m)
    (hstores : c.stores = []) : Unchanged m d :=
  ⟨h.mem.trans hmem, h.stores.trans hstores⟩

theorem strcmp_run (hs : Str c.mem cs s) (ht : Str c.mem ct t) (hn : s.length < n) :
    ∃ d, strcmp n cs ct c = some (verdict (firstDiff s t), d) ∧ Unchanged c.mem d := by
  obtain ⟨d, hrun, hdecided⟩ := @strcmpLoop_run (inputs c c.eax c.ecx ct cs).cld s t n hs ht rfl hn
  refine ⟨d, ?_, hdecided.unchanged rfl rfl⟩
  rw [strcmp, hrun, ← hdecided.eax]
  rfl

theorem strncmp_run (hs : Str c.mem cs s) (ht : Str c.mem ct t) (hcount : 0 ≤ count.toInt)
    (hn : count.toNat < n) :
    ∃ d, strncmp n cs ct count c =
        some (verdict (firstDiff (s.take count.toNat) (t.take count.toNat)), d) ∧
      Unchanged c.mem d := by
  obtain ⟨d, hrun, hdecided⟩ := @strncmpLoop_run (inputs c c.eax count ct cs).cld s t n count.toNat
    hs ht rfl rfl (toNat_lt_of_nonneg hcount) hn
  refine ⟨d, ?_, hdecided.unchanged rfl rfl⟩
  rw [strncmp, hrun, ← hdecided.eax]
  rfl

/-! ### Searches -/

theorem ah_setAh (c : Cpu) (b : Byte) : (c.setAh b).ah = b := by
  rw [Cpu.ah, Cpu.setAh, BitVec.extractLsb'_append_eq_of_le (by decide)]
  ext i hi
  rw [BitVec.getElem_extractLsb', BitVec.getLsbD_append]
  simp [hi]

theorem strchr_run (hs : Str c.mem a s) (hn : s.length < n) :
    ∃ d, strchr n a char c = some (place a s (char.setWidth 8), d) ∧ Unchanged c.mem d := by
  obtain ⟨d, hrun, hdecided⟩ := @strchrLoop_run
    ((inputs c char c.ecx a c.edi).cld.setAh (inputs c char c.ecx a c.edi).cld.al) s
    (char.setWidth 8) n hs (ah_setAh _ _) rfl hn
  refine ⟨d, ?_, hdecided.unchanged rfl rfl⟩
  rw [strchr, hrun]
  exact congrArg (fun v => some (v, d)) hdecided.eax

/-- What is left in `%ecx` by the search for the end of a string. -/
theorem length_of_count (h : t.length + 1 < 2 ^ 32) :
    (~~~(0xffffffff - BitVec.ofNat 32 (t.length + 1)) - 1 : BitVec 32).toNat = t.length := by
  rw [BitVec.toNat_sub, BitVec.toNat_not, BitVec.toNat_sub, BitVec.toNat_ofNat, Nat.mod_eq_of_lt h]
  simp only [BitVec.reduceToNat]
  omega

/-- `notl %ecx; decl %ecx; movl %ecx,%edx` -/
def measured (c : Cpu) : Cpu :=
  { { c with ecx := ~~~c.ecx }.declEcx with edx := { c with ecx := ~~~c.ecx }.declEcx.ecx }

/-- The length of what is searched for has been found. -/
theorem strstrLoop_measured (hs : Str c.mem c.esi s) (ht : Str c.mem ct t) (hdf : c.df = false)
    (hroom : t.length + 1 < 2 ^ 32) (hecx : c.ecx = 0xffffffff - BitVec.ofNat 32 (t.length + 1))
    (hn : s.length < n) :
    ∃ d r, strstrLoop ct n (measured c) = some d ∧ Found c.esi s t r ∧ Decided c d r := by
  have hlen : (measured c).edx.toNat = t.length := by
    change (~~~c.ecx - 1).toNat = _
    rw [hecx]
    exact length_of_count hroom
  have hzf : t = [] → (measured c).zf = true := by
    rintro rfl
    change decide (~~~c.ecx = 1) = true
    rw [hecx]
    rfl
  obtain ⟨d, r, hrun, hfound, hdecided⟩ :=
    @strstrLoop_run (measured c) s t n ct hs ht hdf hlen hzf hn
  exact ⟨d, r, hrun, hfound, hdecided.trans rfl rfl⟩

theorem strstr_run (hs : Str c.mem cs s) (ht : Str c.mem ct t)
    (hd : Apart cs (s.length + 1) ct (t.length + 1)) (hn : s.length < n) :
    ∃ d r, strstr n cs ct c = some (r, d) ∧ Found cs s t r ∧ Unchanged c.mem d := by
  have hroom : t.length + 1 < 2 ^ 32 := Str.length_lt fun hx => hd cs (within_self _ _) hx
  have hend := @repne_scasb_str { (inputs c 0 0xffffffff cs c.edi).cld with edi := ct } t ht rfl rfl
    (show t.length < 2 ^ 32 - 1 by omega)
  generalize hc :
    ({ (inputs c 0 0xffffffff cs c.edi).cld with edi := ct } : Cpu).repne Cpu.scasb = e at hend
  have hesi : e.esi = cs := by rw [hend]; rfl
  have hmem : e.mem = c.mem := by rw [hend]; rfl
  have hstores : e.stores = [] := by rw [hend]; rfl
  obtain ⟨d, r, hrun, hfound, hdecided⟩ := @strstrLoop_measured e ct s t n
    (by rw [hmem, hesi]; exact hs) (by rw [hmem]; exact ht) (by rw [hend]; rfl) hroom
    (by rw [hend]; rfl) hn
  refine ⟨d, r, ?_, hesi ▸ hfound, hdecided.unchanged hmem hstores⟩
  rw [strstr, hc]
  change (strstrLoop ct n (measured e)).bind (fun c => some (c.eax, c)) = _
  rw [hrun, Option.bind_some, hdecided.eax]

/-! ### All of them -/

/-- **A call of a string routine meets the standard** exactly if `strncat` is not to append more
characters than there are, and `strcmp` and `strncmp` come to characters on the same side of 128. -/
theorem standard_iff (call : Call) (h : call.Proper c.mem s t) :
    ∃ k, ∀ n, k < n → ∃ r d, call.run n c = some (r, d) ∧
      (call.Meets c.mem s t r d ↔ call.Right s t) := by
  cases call with
  | strcpy dest src =>
    refine ⟨s.length, fun n hn => ?_⟩
    obtain ⟨d, hrun, hstored⟩ := strcpy_run h.1 h.2 hn
    exact ⟨dest, d, hrun, iff_of_true ⟨rfl, hstored⟩ trivial⟩
  | strncpy dest src count =>
    refine ⟨count.toNat, fun n hn => ?_⟩
    obtain ⟨d, hrun, hstored⟩ := strncpy_run h.1 h.2.1 h.2.2 hn
    exact ⟨dest, d, hrun, iff_of_true ⟨rfl, hstored⟩ trivial⟩
  | strcat dest src =>
    refine ⟨s.length, fun n hn => ?_⟩
    obtain ⟨d, hrun, hstored⟩ := strcat_run h.1 h.2.1 h.2.2 hn
    exact ⟨dest, d, hrun, iff_of_true ⟨rfl, hstored⟩ trivial⟩
  | strncat dest src count =>
    refine ⟨count.toNat, fun n hn => ?_⟩
    obtain ⟨d, hrun, hstored⟩ := strncat_run h.1 h.2.1 h.2.2.1 h.2.2.2 hn
    exact ⟨dest, d, hrun, (and_iff_right rfl).trans hstored⟩
  | strcmp cs ct =>
    refine ⟨s.length, fun n hn => ?_⟩
    obtain ⟨d, hrun, hsame⟩ := strcmp_run h.1 h.2 hn
    exact ⟨_, d, hrun, (and_iff_left hsame).trans (compares_iff h.1.ne_zero h.2.ne_zero)⟩
  | strncmp cs ct count =>
    refine ⟨count.toNat, fun n hn => ?_⟩
    obtain ⟨d, hrun, hsame⟩ := strncmp_run h.1 h.2.1 h.2.2 hn
    refine ⟨_, d, hrun, (and_iff_left hsame).trans (compares_iff ?_ ?_)⟩
    · exact fun a ha => h.1.ne_zero a (List.mem_of_mem_take ha)
    · exact fun b hb => h.2.1.ne_zero b (List.mem_of_mem_take hb)
  | strchr a char =>
    refine ⟨s.length, fun n hn => ?_⟩
    obtain ⟨d, hrun, hsame⟩ := strchr_run h hn
    exact ⟨_, d, hrun, iff_of_true ⟨rfl, hsame⟩ trivial⟩
  | strstr cs ct =>
    refine ⟨s.length, fun n hn => ?_⟩
    obtain ⟨d, r, hrun, hfound, hsame⟩ := strstr_run h.1 h.2.1 h.2.2 hn
    exact ⟨r, d, hrun, iff_of_true ⟨hfound, hsame⟩ trivial⟩

/-- Three strings of one character. -/
def letters : Cpu where
  eax := 0
  ecx := 0
  edx := 0
  esi := 0
  edi := 0
  df := false
  zf := false
  sf := false
  less := false
  mem a := if a = 0x1000 then 97 else if a = 0x2000 then 98 else if a = 0x3000 then 200 else 0
  stores := []

theorem str_letters : Str letters.mem 0x1000 [97] ∧ Str letters.mem 0x2000 [98] ∧
    Str letters.mem 0x3000 [200] := by
  refine ⟨⟨rfl, ?_, rfl⟩, ⟨rfl, ?_, rfl⟩, rfl, ?_, rfl⟩ <;> decide

theorem apart_letters : Apart 0x1000 3 0x2000 2 := by
  intro x hx hx'
  rw [within_iff (by omega), BitVec.toNat_sub] at hx hx'
  simp only [BitVec.reduceToNat] at hx hx'
  omega

/-- Two characters are put behind one, and there is one. -/
theorem standard_iff_strncat : ∃ k, ∀ n, k < n → ∃ r d,
    (Call.strncat 0x1000 0x2000 2).run n letters = some (r, d) ∧
      ((Call.strncat 0x1000 0x2000 2).Meets letters.mem [98] [97] r d ↔
        (Call.strncat 0x1000 0x2000 2).Right [98] [97]) :=
  standard_iff _ ⟨str_letters.2.1, str_letters.1, by decide, apart_letters⟩

/-- **Two calls that do not meet the standard**: `strncat` stores a second byte 0, and a character
from 128 on is less than another one. -/
theorem not_standard :
    ((Call.strncat 0x1000 0x2000 2).Proper letters.mem [98] [97] ∧ ∃ r d,
      (Call.strncat 0x1000 0x2000 2).run 3 letters = some (r, d) ∧
        ¬(Call.strncat 0x1000 0x2000 2).Meets letters.mem [98] [97] r d) ∧
    (Call.strcmp 0x3000 0x1000).Proper letters.mem [200] [97] ∧ ∃ r d,
      (Call.strcmp 0x3000 0x1000).run 2 letters = some (r, d) ∧
        ¬(Call.strcmp 0x3000 0x1000).Meets letters.mem [200] [97] r d := by
  obtain ⟨ha, hb, hc⟩ := str_letters
  constructor
  · refine ⟨⟨hb, ha, by decide, apart_letters⟩, ?_⟩
    obtain ⟨d, hrun, hstored⟩ := strncat_run hb ha (show 0 ≤ (2 : BitVec 32).toInt by decide)
      apart_letters (show (2 : BitVec 32).toNat < 3 by decide)
    refine ⟨0x1000, d, hrun, ?_⟩
    rintro ⟨-, hmeets⟩
    exact absurd (hstored.mp hmeets) (by decide)
  · refine ⟨⟨hc, ha⟩, ?_⟩
    obtain ⟨d, hrun, -⟩ := strcmp_run hc ha (show 1 < 2 by decide)
    refine ⟨_, d, hrun, ?_⟩
    rintro ⟨⟨-, -, hpos⟩, -⟩
    exact absurd (hpos.mpr (by decide)) (by decide)

end Linux011.Strings

import Linux011.Mm.Verify
import Linux011.Mm.KernelTables

/-!
# `verify_area`, in the arithmetic of the machine

The loop of `verify_area` counts an `int` down and an `unsigned long` up. The `int` is the
size of the buffer plus the offset of its first byte in the page, and that sum may be one
too many for an `int`: then it is negative, and the loop does not go round at all. This is
the only way in which a page of the buffer can be missed
(`Linux011.Mm.verifyArea32_covers_iff`). The address may run beyond the data segment,
through the slots of the tasks after it and past the end of the address space into the
kernel's tables; what it passes over it leaves no worse than it found it.

Within the address space, and for a sum that fits, this is the loop of
`Linux011.Mm.verifyArea` (`Linux011.Mm.verifyArea32_eq`).
-/

namespace Linux011.Mm

/-- The loop of `verify_area`. -/
def verifyFrom (cur : ℕ) (size : ℤ) (start : ℕ) : M Unit :=
  if 0 < size then do
    writeVerify cur start
    verifyFrom cur (size - 4096) ((start + 4096) % 2 ^ 32)
  else pure ()
termination_by size.toNat
decreasing_by omega

/-- `verify_area(addr, size)`: the sum is that of an `unsigned long`, stored to an `int`. -/
def verifyArea32 (cur addr : ℕ) (size : ℤ) : M Unit := do
  let m ← get
  verifyFrom cur (Int.bmod (size + (addr % 4096 : ℕ)) (2 ^ 32))
    ((addr / 4096 * 4096 + (m.task cur).dataBase) % 2 ^ 32)

/-- The entry is not one that a store of the user would fault on, although it is there. -/
def Unprotected (w : Word) : Prop := present w = true → writable w = true

/-- **No page that the buffer overlaps inside the data segment is present and
write-protected.** -/
def Covered (m : Mem) (t : Task) (addr size : ℕ) : Prop :=
  ∀ a, addr ≤ a → a < addr + size → a < t.dataLimit → Unprotected (entryAt m (t.dataBase + a))

variable {A : Arena} {own : Finset ℕ} {m m' : Mem} {s : Sys}
  {T f j k n cur address addr start size : ℕ}

/-! ### The loop, where nothing overflows -/

theorem verifyFrom_pos {size : ℤ} (h : 0 < size) : verifyFrom cur size start = (do
    writeVerify cur start
    verifyFrom cur (size - 4096) ((start + 4096) % 2 ^ 32)) := by
  rw [verifyFrom, if_pos h]

theorem verifyFrom_neg {size : ℤ} (h : size ≤ 0) : verifyFrom cur size start = pure () := by
  rw [verifyFrom, if_neg (by omega)]

/-- As many rounds as there are pages, while the address does not run over. -/
theorem verifyFrom_eq {i : ℕ} (h : start + 4096 * (i + n) ≤ 2 ^ 32) {size : ℤ}
    (hn : 4096 * (n : ℤ) < size + 4096) (hn' : size ≤ 4096 * n) :
    verifyFrom cur size (start + 4096 * i) =
      forFrom i n fun i => writeVerify cur (start + 4096 * i) := by
  induction n generalizing i size with
  | zero =>
    rw [verifyFrom_neg (by omega)]
    rfl
  | succ n ih =>
    rw [verifyFrom_pos (by omega), forFrom]
    refine congrArg _ (funext fun _ => ?_)
    rcases Nat.eq_zero_or_pos n with rfl | hpos
    · rw [verifyFrom_neg (by omega)]
      rfl
    · have hmod : (start + 4096 * i + 4096) % 2 ^ 32 = start + 4096 * (i + 1) := by omega
      rw [hmod]
      exact ih (by omega) (by omega) (by omega)

/-- The sum fits an `int`. -/
theorem bmod_of_fits (h : addr % 4096 + size < 2 ^ 31) :
    Int.bmod ((size : ℤ) + (addr % 4096 : ℕ)) (2 ^ 32) = size + (addr % 4096 : ℕ) := by
  obtain ⟨x, hx⟩ : ∃ x : ℤ, (size : ℤ) + (addr % 4096 : ℕ) = x := ⟨_, rfl⟩
  rw [hx]
  exact Int.bmod_eq_of_le (by omega) (by omega)

/-- The sum is one too many for an `int`. -/
theorem bmod_of_overflows (h : 2 ^ 31 ≤ addr % 4096 + size) (hs : size < 2 ^ 31) :
    Int.bmod ((size : ℤ) + (addr % 4096 : ℕ)) (2 ^ 32) < 0 := by
  obtain ⟨x, hx⟩ : ∃ x : ℤ, (size : ℤ) + (addr % 4096 : ℕ) - 2 ^ 32 = x := ⟨_, rfl⟩
  have hsum : (size : ℤ) + (addr % 4096 : ℕ) = x + 2 ^ 32 := by omega
  have hb : Int.bmod x (2 ^ 32) = x := Int.bmod_eq_of_le (by omega) (by omega)
  have hcast : x + (2 : ℤ) ^ 32 = x + ((2 ^ 32 : ℕ) : ℤ) := by omega
  rw [hsum, hcast, Int.add_bmod_right, hb]
  omega

/-- **The two readings of `verify_area` agree** where the buffer ends before the address
space does. -/
theorem verifyArea32_eq (hsum : addr % 4096 + size < 2 ^ 31)
    (hend : addr + size + (m.task cur).dataBase + 4096 ≤ 2 ^ 32) :
    verifyArea32 cur addr size m = verifyArea cur addr size m := by
  have hb : Int.bmod ((size : ℤ) + (addr % 4096 : ℕ)) (2 ^ 32) = size + (addr % 4096 : ℕ) :=
    bmod_of_fits hsum
  have hmod : (addr / 4096 * 4096 + (m.task cur).dataBase) % 2 ^ 32 =
      addr / 4096 * 4096 + (m.task cur).dataBase + 4096 * 0 := by omega
  have hget : ∀ f : Mem → M Unit, (get >>= f : M Unit) m = f m m := fun _ => rfl
  obtain ⟨n, hn⟩ : ∃ n, (size + addr % 4096 + 4095) / 4096 = n := ⟨_, rfl⟩
  rw [verifyArea32, verifyArea, hget, hget, hb, hmod, hn, verifyFrom_eq (n := n)]
  all_goals omega

/-! ### One round -/

/-- What `verify_area` finds the machine in, and leaves it in. -/
structure Checking (A : Arena) (own : Finset ℕ) (cur : ℕ) (m : Mem) : Prop where
  ok : MemOk A own m
  resides : Resides cur m
  tables : KernelTables m

/-- **A write fault protects no entry of a task's table**: it stores to the table through
which it came, and to a page that was free. -/
theorem words_unWpPage (h : MemOk A own m) (hr : Resides cur m) :
    wp (unWpPage cur T j) (fun _ m' => ∀ k T', m.userDir k = some T' → ∀ i,
        Unprotected (m.word T' i) → Unprotected (m'.word T' i)) (fun e _ => e = .exited) m := by
  -- a store to the table that makes the entry writable
  have store : ∀ (m₁ : Mem) (w : Word) (T' i : ℕ), writable w = true →
      Unprotected (m₁.word T' i) → Unprotected ((m₁.setWord T j w).word T' i) := by
    intro m₁ w T' i hw hu
    rw [Mem.word_setWord]
    split
    · next hTT =>
      rw [Function.update_apply]
      split
      · exact fun _ => hw
      · exact hTT ▸ hu
    · exact hu
  rw [unWpPage, wp_bind, wp_get, wp_ite]
  refine ⟨fun _ k T' _ i hu => store _ _ _ _ (by simp) hu, fun _ => ?_⟩
  rw [wp_bind]
  refine wp_mono (wp_getFreePage h) (fun r m₁ hm₁ => ?_) fun _ _ he => he.elim
  cases r with
  | none =>
    obtain ⟨rfl, hfull⟩ := hm₁
    exact wp_mono (wp_oom_full h hr hfull) (fun _ _ he => he) fun _ _ he => he.1
  | some g =>
    obtain ⟨hg, h0, rfl⟩ := hm₁
    obtain ⟨-, hndg, -⟩ := h.maps.of_count_zero hg h0
    have htable : ∀ k T' i, m.userDir k = some T' → Unprotected (m.word T' i) →
        Unprotected ((m.takePage g).word T' i) := by
      intro k T' i hd hu
      rwa [Mem.takePage, Mem.word_setFrame, if_neg fun (he : T' = g) => hndg k (he ▸ hd),
        Mem.setMap_word]
    -- the entry is stored, then the page copied, from whatever the counters are
    have finish : ∀ (oldPage : ℕ) (m₁ : Mem), m₁.word = (m.takePage g).word → wp (do
        modify fun m => m.setWord T j (pageEntry g)
        modify fun m => m.setFrame g (m.word oldPage)) (fun _ m' =>
          ∀ k T', m.userDir k = some T' → ∀ i, Unprotected (m.word T' i) →
            Unprotected (m'.word T' i)) (fun e _ => e = Halt.exited) m₁ := by
      intro oldPage m₁ hw
      rw [wp_bind, wp_modify, wp_modify]
      intro k T' hd i hu
      rw [Mem.word_setFrame, if_neg fun (he : T' = g) => hndg k (he ▸ hd)]
      refine store _ _ _ _ (by simp) ?_
      rw [hw]
      exact htable k T' i hd hu
    rw [wp_bind, wp_ite]
    exact ⟨fun _ => finish _ _ rfl, fun _ => finish _ _ rfl⟩

/-- **One round** of the loop: the entry is no longer protected, and no entry has become so. -/
theorem wp_writeVerify_checking (h : Checking A own cur m) : wp (writeVerify cur address)
    (fun _ m' => Checking A own cur m' ∧ m'.task = m.task ∧
      (∀ k j, Unprotected (m.userEntry k j) → Unprotected (m'.userEntry k j)) ∧
      (dirIndex address ∈ userDirs → Unprotected (entryAt m' address)))
    (fun e _ => e = .exited) m := by
  by_cases ha : dirIndex address ∈ userDirs
  swap
  · have hlt : dirIndex address < 16 := by
      by_contra hge
      refine ha (mem_userDirs.mpr ⟨by omega, ?_⟩)
      rw [dirIndex]
      omega
    exact wp_of_ok (h.tables.writeVerify_kernel hlt)
      ⟨h, rfl, fun _ _ hu => hu, fun hu => absurd hu ha⟩
  have hj := tableIndex_lt address
  rw [writeVerify, wp_bind, wp_get, wp_ite]
  refine ⟨fun hp => ?_, fun hp => ⟨h, rfl, fun _ _ hu => hu, fun _ => ?_⟩⟩
  swap
  · rw [entryAt, Mem.userEntry_of_none ((Mem.userDir_eq_none ha).mpr (by simpa using hp))]
    exact fun h => by simp at h
  obtain ⟨T, hT⟩ : ∃ T, frameOf (m.word 0 (dirIndex address)) = T := ⟨_, rfl⟩
  have hd : m.userDir (dirIndex address) = some T := Mem.userDir_eq_some.mpr ⟨ha, hp, hT⟩
  have hent : entryAt m address = m.word T (tableIndex address) := Mem.userEntry_of_dir hd hj
  rw [hT, ← hent, wp_ite]
  refine ⟨fun hw => ?_, fun hw => ⟨h, rfl, fun _ _ hu => hu, fun _ => ?_⟩⟩
  · have hge := h.ok.table_le hd
    refine wp_mono (wp_and (wp_unWpPage h.ok h.resides hd hj (named_of_present hw.1))
      (wp_and (words_unWpPage h.ok h.resides)
        (kernel_unWpPage cur _ hge m h.tables))) ?_ fun e _ he => he.2.1
    rintro - m' ⟨hpriv, hwords, htables⟩
    refine ⟨⟨hpriv.eff.ok, h.resides.of_dirs (congrFun hpriv.eff.task cur) fun _ _ _ => ?_,
      htables⟩, hpriv.eff.task, fun k j hu => ?_, fun _ _ => hpriv.writable⟩
    · rw [hpriv.dirs]
    · rw [Mem.userEntry] at hu ⊢
      rw [hpriv.dirs]
      cases hdk : m.userDir k with
      | none => exact fun h => by simp at h
      | some T' =>
        rw [hdk] at hu
        by_cases hj' : j < 1024
        · simp only [if_pos hj'] at hu ⊢
          exact hwords k T' hdk j hu
        · simp only [if_neg hj']
          exact fun h => by simp at h
  · exact fun hp' => by_contra fun hw' => hw ⟨hp', hw'⟩

/-! ### The whole loop -/

theorem dirIndex_mod (a : ℕ) : dirIndex (a % 2 ^ 32) = dirIndex a := by
  rw [dirIndex, dirIndex]
  omega

theorem tableIndex_mod (a : ℕ) : tableIndex (a % 2 ^ 32) = tableIndex a := by
  rw [tableIndex, tableIndex]
  omega

theorem entryAt_mod (a : ℕ) : entryAt m (a % 2 ^ 32) = entryAt m a := by
  rw [entryAt, dirIndex_mod, tableIndex_mod, entryAt]

/-- **The loop**: every entry it has come by is not protected any more, and no entry has
become so. The induction is on the rounds that are left; a page that was dealt with in the
first of them stays so in the others. -/
theorem wp_verifyFrom (h : Checking A own cur m) (size : ℤ) (hlt : start < 2 ^ 32) :
    wp (verifyFrom cur size start) (fun _ m' => Checking A own cur m' ∧ m'.task = m.task ∧
        (∀ k j, Unprotected (m.userEntry k j) → Unprotected (m'.userEntry k j)) ∧
        ∀ i : ℕ, 4096 * (i : ℤ) < size → dirIndex (start + 4096 * i) ∈ userDirs →
          Unprotected (entryAt m' (start + 4096 * i)))
      (fun e _ => e = .exited) m := by
  obtain ⟨n, hn⟩ : ∃ n : ℕ, size ≤ 4096 * n := ⟨size.toNat, by omega⟩
  induction n generalizing m size start with
  | zero =>
    rw [verifyFrom_neg (by omega)]
    exact ⟨h, rfl, fun _ _ hu => hu, fun i hi => by omega⟩
  | succ n ih =>
    rcases lt_or_ge 0 size with hpos | hneg
    swap
    · rw [verifyFrom_neg hneg]
      exact ⟨h, rfl, fun _ _ hu => hu, fun i hi => by omega⟩
    rw [verifyFrom_pos hpos, wp_bind]
    refine wp_post (wp_writeVerify_checking h) ?_
    rintro - m₁ ⟨h₁, htask, hkeep, hfirst⟩
    refine wp_post (ih h₁ (size - 4096) (Nat.mod_lt _ (by omega)) (by omega)) ?_
    rintro - m' ⟨h', htask', hkeep', hrest⟩
    refine ⟨h', htask'.trans htask, fun k j hu => hkeep' k j (hkeep k j hu), fun i hi hdir => ?_⟩
    cases i with
    | zero => exact hkeep' _ _ (hfirst hdir)
    | succ i =>
      have hmod : (start + 4096 * (i + 1)) % 2 ^ 32 =
          ((start + 4096) % 2 ^ 32 + 4096 * i) % 2 ^ 32 := by omega
      rw [← dirIndex_mod, hmod, dirIndex_mod] at hdir
      rw [← entryAt_mod, hmod, entryAt_mod]
      exact hrest i (by omega) hdir

/-! ### `verify_area` -/

/-- The entry of an address is that of its page. -/
theorem entryAt_page {a b : ℕ} (h : a / 4096 = b / 4096) : entryAt m a = entryAt m b := by
  have hd : dirIndex a = dirIndex b := by
    rw [dirIndex, dirIndex]
    omega
  have ht : tableIndex a = tableIndex b := by
    rw [tableIndex, tableIndex]
    omega
  rw [entryAt, entryAt, hd, ht]

/-- **A sum that fits**: the pages of the buffer are those the loop comes by. -/
theorem wp_verifyArea32_fits (h : Checking A own cur m) (hsum : addr % 4096 + size < 2 ^ 31) :
    wp (verifyArea32 cur addr size) (fun _ m' => Covered m' (m'.task cur) addr size)
      (fun e _ => e = .exited) m := by
  rw [verifyArea32, wp_bind, wp_get, bmod_of_fits hsum]
  refine wp_post (wp_verifyFrom h _ (Nat.mod_lt _ (by omega))) ?_
  rintro - m' ⟨h', htask, -, hpages⟩
  intro a hle hlt hlim
  obtain ⟨i, hi⟩ : ∃ i, a / 4096 - addr / 4096 = i := ⟨_, rfl⟩
  have hslot := h'.resides.slot
  have hbase : (m.task cur).dataBase = cur * 0x4000000 := by rw [← htask, hslot.data]
  have hmine : Mine cur ((m'.task cur).dataBase + a) m' := by
    rw [Mine, hslot.data]
    omega
  -- the address of the page, as the loop counts it
  have hpage : ((m'.task cur).dataBase + a) / 4096 =
      (addr / 4096 * 4096 + (m.task cur).dataBase + 4096 * i) / 4096 := by
    rw [htask, hbase]
    omega
  have hmod : ((addr / 4096 * 4096 + (m.task cur).dataBase) % 2 ^ 32 + 4096 * i) % 2 ^ 32 =
      (addr / 4096 * 4096 + (m.task cur).dataBase + 4096 * i) % 2 ^ 32 := by omega
  have hdir : dirIndex ((m'.task cur).dataBase + a) =
      dirIndex (addr / 4096 * 4096 + (m.task cur).dataBase + 4096 * i) := by
    rw [dirIndex, dirIndex]
    omega
  have hin := h'.resides.mem_userDirs hmine
  rw [hdir, ← dirIndex_mod, ← hmod, dirIndex_mod] at hin
  have hun := hpages i (by omega) hin
  rwa [← entryAt_mod, hmod, entryAt_mod, ← entryAt_page hpage] at hun

/-- **A sum that does not fit**: nothing is looked at. -/
theorem verifyArea32_overflows (hsum : 2 ^ 31 ≤ addr % 4096 + size) (hsize : size < 2 ^ 31) :
    verifyArea32 cur addr size m = .ok () m := by
  have hneg := bmod_of_overflows hsum hsize
  have hget : ∀ f : Mem → M Unit, (get >>= f : M Unit) m = f m m := fun _ => rfl
  rw [verifyArea32, hget, verifyFrom_neg hneg.le]
  rfl

/-- **`verify_area` covers the buffer** exactly when its size and the offset of its first byte fit
an `int`, or there was nothing to do. -/
theorem verifyArea32_covers_iff (h : Reachable (Boot A) Step s) (hone : 1 ≤ cur)
    (hr : Running cur s) (hsize : size < 2 ^ 31) :
    (∀ m', verifyArea32 cur addr size s.mem = .ok () m' → Covered m' (m'.task cur) addr size) ↔
      addr % 4096 + size < 2 ^ 31 ∨ Covered s.mem (s.mem.task cur) addr size := by
  have hi := Inv.reachable h
  have hcheck : Checking A s.held cur s.mem :=
    ⟨hi.ok, hi.resides hone hr, kernelTables_reachable h⟩
  by_cases hsum : addr % 4096 + size < 2 ^ 31
  · constructor
    · exact fun _ => Or.inl hsum
    · intro _ m' hm
      have hwp := wp_verifyArea32_fits hcheck hsum
      rw [wp_iff_of_ok hm] at hwp
      exact hwp
  · have hrun : verifyArea32 cur addr size s.mem = .ok () s.mem :=
      verifyArea32_overflows (not_lt.mp hsum) hsize
    rw [hrun]
    constructor
    · exact fun hall => Or.inr (hall s.mem rfl)
    · rintro (hfit | hcov) m' hm
      · exact absurd hfit hsum
      · obtain ⟨-, rfl⟩ := EStateM.Result.ok.inj hm
        exact hcov

/-- After the first fork, the first byte of task 1 lies in a page that is protected. -/
theorem FirstFork.protected {p : ℕ} (h : FirstFork s p) :
    ¬Unprotected (entryAt s.mem ((s.mem.task 1).dataBase + 1)) := by
  have hi := Inv.reachable h.reach
  have hbase : (s.mem.task 1).dataBase = 0x4000000 := (hi.resides le_rfl h.running).slot.data
  have hent : entryAt s.mem ((s.mem.task 1).dataBase + 1) = s.mem.userEntry 16 0 := by
    rw [hbase]
    rfl
  intro hun
  rw [hent] at hun
  have hpage := h.page
  have hw := hun (named_eq_some.mp hpage).1
  have := (hi.ok.maps.rw_only hpage hw).1
  omega

/-- Of one byte of task 1, after the first fork. -/
theorem verifyArea32_first : ∃ s, Reachable (Boot arena16) Step s ∧
    ((∀ m', verifyArea32 1 1 (1 : ℕ) s.mem = .ok () m' → Covered m' (m'.task 1) 1 1) ↔
      1 % 4096 + 1 < 2 ^ 31 ∨ Covered s.mem (s.mem.task 1) 1 1) := by
  obtain ⟨s, p, hs⟩ := first_fork
  exact ⟨s, hs.reach, verifyArea32_covers_iff hs.reach le_rfl hs.running (by omega)⟩

/-- **The largest size there is** is passed over where it begins within a page. -/
theorem not_verifyArea32_covers : ∃ s m', Reachable (Boot arena16) Step s ∧ Running 1 s ∧
    verifyArea32 1 1 (0x7FFFFFFF : ℕ) s.mem = .ok () m' ∧
    ¬Covered m' (m'.task 1) 1 0x7FFFFFFF := by
  obtain ⟨s, p, hs⟩ := first_fork
  refine ⟨s, s.mem, hs.reach, hs.running, verifyArea32_overflows (by omega) (by omega), ?_⟩
  intro hcov
  refine hs.protected (hcov 1 le_rfl (by omega) ?_)
  rw [hs.limit]
  omega

end Linux011.Mm

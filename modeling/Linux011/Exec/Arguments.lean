import Linux011.Exec.Tables
import Linux011.Fs.Confined
import Mathlib.Data.List.GetD

/-!
# The arguments of a program

What `do_execve` is called with is an array of arguments and one of the environment
(`Linux011.Exec.ListAt`); what a program finds on its stack is their number, and the
addresses of two tables of pointers to copies of them (`Linux011.Exec.Passed`). For a script
the arguments are those of its interpreter (`Linux011.Exec.argList`).

At the end `do_execve` clears the rest of the page in which the data end, at
`a_text + a_data`. The sizes are bounded, but only as a sum modulo 2³², so that a header can
make this a page of the stack, and the arguments are lost
(`Linux011.Exec.not_arguments_passed`). That is all that can happen to them
(`Linux011.Exec.arguments_passed`).
-/

namespace Linux011.Exec

variable {w w' : World} {a n p argv envp filename lo hi sp : ℕ} {bs s name : List UInt8}
  {ss l args envs : List (List UInt8)} {ex : Header} {id : Fs.Id}

/-! ### What is called for -/

/-- **An argument list**: a null pointer, or an array of pointers to its strings that a null
pointer ends. -/
def ListAt (w : World) (argv : ℕ) (ss : List (List UInt8)) : Prop :=
  argv = 0 ∧ ss = [] ∨ argv ≠ 0 ∧ (Source.user argv).Gives w ss ∧
    (∀ i < ss.length, wordAt w.content (argv + 4 * i) ≠ 0) ∧
    wordAt w.content (argv + 4 * ss.length) = 0

/-- The first block of the file that a path leads to, if it may be executed. -/
def examined (w : World) (path : Fs.Path) : Option (ℕ → UInt8) :=
  match Fs.namei w.files.disk w.files.task path with
  | .ok (some id) =>
    match examine w id with
    | .inl _ => none
    | .inr b => some b
  | _ => none

/-- **The arguments a program is called with**: for a script, the name of the interpreter, its
argument, if there is one, and the name of the script come before those from the second on. -/
def argList (w : World) (name : List UInt8) (args : List (List UInt8)) :
    Option (List (List UInt8)) :=
  match examined w (toPath name) with
  | none => none
  | some b =>
    if isScript b then
      match parseScript b with
      | none => none
      | some (_, iName, iArg) => some (iName :: (iArg.toList ++ name :: args.tail))
    else some args

/-- **The header of the program**: for a script, that of the interpreter. -/
def program (w : World) (name : List UInt8) : Option Header :=
  match examined w (toPath name) with
  | none => none
  | some b =>
    if isScript b then
      match parseScript b with
      | none => none
      | some (interp, _, _) => (examined w (toPath interp)).map readHeader
    else some (readHeader b)

/-! ### What is there in the end -/

/-- A table of pointers to the strings, with its end. -/
def ListIn (w : World) (a : ℕ) (ss : List (List UInt8)) : Prop :=
  (∀ i (h : i < ss.length), HoldsString w.memory (wordAt w.content (a + 4 * i)) ss[i]) ∧
    wordAt w.content (a + 4 * ss.length) = 0

/-- **The arguments are passed**: the words at the stack pointer are `argc`, `argv` and `envp`,
and these are tables of pointers to the strings. -/
def Passed (w : World) (sp : ℕ) (args envs : List (List UInt8)) : Prop :=
  wordAt w.content sp = args.length ∧ ∃ argv envp, wordAt w.content (sp + 4) = argv ∧
    wordAt w.content (sp + 8) = envp ∧ ListIn w argv args ∧ ListIn w envp envs

/-- Where the strings begin. -/
def stringsAt (args envs : List (List UInt8)) : ℕ := userTop - (block (args ++ envs)).length

/-- Where the tables begin, and the stack pointer is. -/
def stackAt (args envs : List (List UInt8)) : ℕ :=
  tablesAt (stringsAt args envs) args.length envs.length

/-- **The arguments are in place**: the tables at the stack pointer, the strings above. -/
def InPlace (w : World) (args envs : List (List UInt8)) : Prop :=
  Holds w.memory (stackAt args envs) (table (tables (stringsAt args envs) args envs)) ∧
    Holds w.memory (stringsAt args envs) (block (args ++ envs))

/-- Clearing from `lo` to `hi` would meet zeros only. -/
def SparesAt (lo hi a : ℕ) (bs : List UInt8) : Prop :=
  ∀ k (h : k < bs.length), lo ≤ a + k → a + k < hi → bs[k] = 0

/-- **The header spares the arguments**: from the end of the data to the end of the page there
is no byte of the tables or strings but zeros. -/
def Header.Spares (ex : Header) (args envs : List (List UInt8)) : Prop :=
  SparesAt ex.end (pageEnd ex.end) (stackAt args envs)
      (table (tables (stringsAt args envs) args envs)) ∧
    SparesAt ex.end (pageEnd ex.end) (stringsAt args envs) (block (args ++ envs))

/-! ### What is in place is passed -/

theorem wordAt_memory {v : ℕ} (h : Holds w.memory a (wordBytes v)) (hv : v < 2 ^ 32) :
    wordAt w.content a = v := wordAt_of_holds hv h

theorem listIn_of_holds (h0 : ∀ s ∈ ss, (0 : UInt8) ∉ s)
    (ht : Holds w.memory a (table (pointers p ss ++ [0]))) (hb : Holds w.memory p (block ss))
    (hlt : p + (block ss).length < 2 ^ 32) : ListIn w a ss := by
  refine ⟨fun i hi => ?_, ?_⟩
  · have hp : i < (pointers p ss).length := length_pointers.symm ▸ hi
    have hword := holds_table ht (i := i) (by rw [List.length_append]; omega)
    rw [List.getElem_append_left hp] at hword
    rw [wordAt_memory hword ((pointers_lt (List.getElem_mem hp)).trans hlt)]
    exact holdsString_pointers h0 hb hi hp
  · have hword := holds_table ht (i := ss.length) (by simp)
    rw [List.getElem_append_right length_pointers.le] at hword
    simp only [length_pointers, Nat.sub_self, List.getElem_singleton] at hword
    exact wordAt_memory hword (by decide)

/-- **Arguments that are in place are passed.** -/
theorem InPlace.passed (h : InPlace w args envs) (h0 : ∀ s ∈ args ++ envs, (0 : UInt8) ∉ s)
    (hfit : (block (args ++ envs)).length ≤ top) : Passed w (stackAt args envs) args envs := by
  obtain ⟨ht, hb⟩ := h
  have hlen := length_le_block (args ++ envs)
  have hp : stringsAt args envs + (block (args ++ envs)).length = userTop := by
    unfold stringsAt userTop
    unfold top maxArgPages pageSize at hfit
    omega
  unfold stackAt at ht ⊢
  generalize stringsAt args envs = p at *
  obtain ⟨sp, hsp⟩ : ∃ sp, tablesAt p args.length envs.length = sp := ⟨_, rfl⟩
  have hle : sp ≤ p := by
    rw [← hsp, tablesAt]
    omega
  have hsplit : table (tables p args envs) = wordBytes args.length ++ (wordBytes (sp + 12) ++
      (wordBytes (sp + 12 + 4 * (args.length + 1)) ++ (table (pointers p args ++ [0]) ++
        table (pointers (p + (block args).length) envs ++ [0])))) := by
    simp [tables, hsp]
  rw [hsp, hsplit, holds_append, holds_append, holds_append, holds_append] at ht
  rw [block_append, holds_append] at hb
  rw [block_append, List.length_append] at hp hfit hlen
  rw [List.length_append] at hlen
  simp only [length_wordBytes, length_table, List.length_append, length_pointers,
    List.length_singleton, Nat.add_assoc, Nat.reduceAdd] at ht
  obtain ⟨hargc, hargv, henvp, hargs, henvs⟩ := ht
  have htop : userTop = 67108860 ∧ top = 131068 := ⟨rfl, rfl⟩
  have hargs0 : ∀ s ∈ args, (0 : UInt8) ∉ s := fun s hs => h0 s (List.mem_append_left _ hs)
  have henvs0 : ∀ s ∈ envs, (0 : UInt8) ∉ s := fun s hs => h0 s (List.mem_append_right _ hs)
  rw [hsp]
  exact ⟨wordAt_memory hargc (by omega), _, _, wordAt_memory hargv (by omega),
    wordAt_memory henvp (by omega), listIn_of_holds hargs0 hargs hb.1 (by omega),
    listIn_of_holds henvs0 henvs hb.2 (by omega)⟩

/-! ### Strings without zeros -/

theorem mem_basename {acc : List UInt8} {c : UInt8} (h : c ∈ Fs.basename acc s) :
    c ∈ acc ∨ c ∈ s := by
  induction s generalizing acc with
  | nil => exact Or.inl h
  | cons b s ih =>
    rw [Fs.basename] at h
    split at h
    · rcases ih h with h | h
      · cases h
      · exact Or.inr (List.mem_cons_of_mem b h)
    · rcases ih h with h | h
      · rcases List.mem_append.mp h with h | h
        · exact Or.inl h
        · exact Or.inr (List.mem_singleton.mp h ▸ List.mem_cons_self)
      · exact Or.inr (List.mem_cons_of_mem b h)

/-- The first line of a script is cut out of a string. -/
theorem parseScript_zero {b : ℕ → UInt8} {interp iName : List UInt8} {iArg : Option (List UInt8)}
    (h : parseScript b = some (interp, iName, iArg)) :
    (0 : UInt8) ∉ iName ∧ ∀ s ∈ iArg, (0 : UInt8) ∉ s := by
  unfold parseScript at h
  dsimp only at h
  split at h
  · cases h
  split at h
  · cases h
  have h0 : (0 : UInt8) ∉ scriptBuf b := fun h0 => by
    unfold scriptBuf at h0
    simpa using List.mem_takeWhile_imp h0
  obtain ⟨cp, hcp⟩ : ∃ cp, ((scriptBuf b).takeWhile (· ≠ 10)).dropWhile blank = cp := ⟨_, rfl⟩
  have hcp0 : (0 : UInt8) ∉ cp := fun h => by
    rw [← hcp] at h
    exact h0 ((List.takeWhile_prefix _).subset ((List.dropWhile_suffix _).subset h))
  rw [hcp] at h
  obtain ⟨rfl, rfl, rfl⟩ := Option.some.inj h
  refine ⟨fun hm => ?_, fun s hs hm => ?_⟩
  · rcases mem_basename hm with hm | hm
    · cases hm
    · exact hcp0 ((List.takeWhile_prefix _).subset hm)
  · split at hs
    · cases hs
    · next rest heq =>
      obtain rfl := Option.mem_some.mp hs
      refine hcp0 ((List.dropWhile_suffix _).subset (heq ▸ List.mem_cons_of_mem _ hm))

/-- The arguments of an interpreter. -/
theorem script_zero {b : ℕ → UInt8} {interp iName : List UInt8} {iArg : Option (List UInt8)}
    (hp : parseScript b = some (interp, iName, iArg)) (hn : (0 : UInt8) ∉ name)
    (ha : ∀ s ∈ args, (0 : UInt8) ∉ s) (he : ∀ s ∈ envs, (0 : UInt8) ∉ s) :
    ∀ s ∈ iName :: (iArg.toList ++ name :: args.tail) ++ envs, (0 : UInt8) ∉ s := by
  intro s hs
  obtain ⟨hi0, ha0⟩ := parseScript_zero hp
  simp only [List.cons_append, List.append_assoc, List.mem_cons, List.mem_append,
    Option.mem_toList] at hs
  rcases hs with rfl | hs | rfl | hs | hs
  · exact hi0
  · exact ha0 s hs
  · exact hn
  · exact ha s (List.mem_of_mem_tail hs)
  · exact he s hs

/-- A string of the kernel. -/
theorem gives_kernel (h0 : (0 : UInt8) ∉ s) : (Source.kernel s).Gives w [s] := by
  intro i hi
  obtain rfl : i = 0 := Nat.lt_one_iff.mp hi
  refine ⟨h0, fun k hk => ?_⟩
  change some (s.getD (1 + k - 1) 0) = some (s ++ [0])[k]
  rw [Nat.add_sub_cancel_left]
  by_cases hlt : k < s.length
  · rw [List.getD_eq_getElem _ _ hlt, List.getElem_append_left hlt]
  · rw [List.getD_eq_default _ _ (not_lt.mp hlt), List.getElem_append_right (not_lt.mp hlt),
      List.getElem_singleton]

/-- The name of the file. -/
theorem gives_name (h : HoldsString w.memory filename name) :
    (Source.name filename).Gives w [name] := by
  intro i hi
  obtain rfl : i = 0 := Nat.lt_one_iff.mp hi
  exact h

/-- The strings from the second on. -/
theorem Source.Gives.tail (h : (Source.user argv).Gives w ss) :
    (Source.user (argv + 4)).Gives w ss.tail := by
  intro i hi
  rw [List.length_tail] at hi
  have := h (i + 1) (by omega)
  rw [List.getElem_tail]
  change HoldsString w.memory (wordAt w.content (argv + 4 * (i + 1))) _ at this
  change HoldsString w.memory (wordAt w.content (argv + 4 + 4 * i)) _
  rwa [show argv + 4 + 4 * i = argv + 4 * (i + 1) by ring]

/-! ### What is read of the call -/

theorem ListAt.gives (h : ListAt w argv ss) : (Source.user argv).Gives w ss := by
  rcases h with ⟨-, rfl⟩ | ⟨-, h, -⟩
  · exact fun i hi => absurd hi (Nat.not_lt_zero i)
  · exact h

theorem ListAt.zero (h : ListAt w argv ss) : ∀ s ∈ ss, (0 : UInt8) ∉ s := by
  intro s hs
  obtain ⟨i, hi, rfl⟩ := List.getElem_of_mem hs
  exact (h.gives i hi).1

theorem Unseen.listAt (hu : Unseen w w') (h : ListAt w argv ss) : ListAt w' argv ss := by
  refine h.imp_right fun ⟨hne, hg, hw, h0⟩ => ⟨hne, hu.gives hg, ?_, ?_⟩
  · rw [hu.content]
    exact hw
  · rw [hu.content]
    exact h0

theorem wp_countFrom {m : ℕ} (h : ∀ i < m, wordAt w.content (a + 4 * i) ≠ 0)
    (h0 : wordAt w.content (a + 4 * m) = 0) :
    wp (countFrom n a) (fun r w' => r = m ∧ Touched w w') NoOverrun w := by
  induction n generalizing w a m with
  | zero => exact Halt.noConfusion
  | succ n ih =>
    rw [countFrom, wp_bind]
    refine wp_post wp_getFsLong ?_
    rintro v w' ⟨rfl, ht⟩
    cases m with
    | zero => exact wp_ite.mpr ⟨fun _ => ⟨rfl, ht⟩, fun hne => absurd h0 hne⟩
    | succ m =>
      refine wp_ite.mpr ⟨fun heq => absurd heq (h 0 (Nat.succ_pos m)), fun _ => ?_⟩
      rw [wp_bind]
      refine wp_post (ih (m := m) (fun i hi => ?_) ?_) ?_
      · rw [ht.content, show a + 4 + 4 * i = a + 4 * (i + 1) by ring]
        exact h (i + 1) (Nat.succ_lt_succ hi)
      · rw [ht.content, show a + 4 + 4 * m = a + 4 * (m + 1) by ring]
        exact h0
      · rintro r w'' ⟨rfl, ht'⟩
        exact ⟨rfl, ht.trans ht'⟩

/-- **`count`** -/
theorem wp_count (h : ListAt w argv ss) :
    wp (count argv) (fun r w' => r = ss.length ∧ Touched w w') NoOverrun w := by
  unfold count
  rcases h with ⟨rfl, rfl⟩ | ⟨hne, -, hw, h0⟩
  · exact wp_ite.mpr ⟨fun _ => ⟨rfl, .refl w⟩, fun hne => absurd rfl hne⟩
  · refine wp_ite.mpr ⟨fun h => absurd h hne, fun _ => ?_⟩
    rw [wp_bind, wp_get]
    exact wp_countFrom hw h0

theorem wp_readString (h : HoldsString w.memory a s) :
    wp (readString n a) (fun r w' => r = s ∧ Touched w w') NoOverrun w := by
  induction n generalizing w a s with
  | zero => exact Halt.noConfusion
  | succ n ih =>
    obtain ⟨h0, h⟩ := h
    rw [readString, wp_bind]
    refine wp_post wp_getFsByte ?_
    rintro b w' ⟨rfl, ht⟩
    cases s with
    | nil =>
      have hb := Option.some.inj (holds_cons.mp h).1
      exact wp_ite.mpr ⟨fun _ => ⟨rfl, ht⟩, fun hne => absurd hb hne⟩
    | cons b s =>
      obtain ⟨hb, hs⟩ := holds_cons.mp h
      obtain ⟨hb0, hs0⟩ := not_or.mp (List.mem_cons.not.mp h0)
      obtain rfl := Option.some.inj hb
      refine wp_ite.mpr ⟨fun heq => absurd heq.symm hb0, fun _ => ?_⟩
      rw [wp_bind]
      refine wp_post (ih ⟨hs0, ht.memory ▸ hs⟩) ?_
      rintro r w'' ⟨rfl, ht'⟩
      exact ⟨rfl, ht.trans ht'⟩

theorem lookup_apply {α : Type} (g : Fs.Disk → Fs.Task → Fs.Look α) (files : Fs.World) :
    Fs.lookup g files =
      match g files.disk files.task with
      | .ok r => .ok r files
      | .error e => .error e files := by
  change (match g files.disk files.task with
    | .ok r => pure r
    | .error e => throw e : Fs.M α) files = _
  cases g files.disk files.task <;> rfl

/-- **`namei`** changes nothing. -/
theorem wp_namei {path : Fs.Path} : wp (namei path) (fun r w' => w' = w ∧
    Fs.namei w.files.disk w.files.task path = .ok r) NoOverrun w := by
  unfold namei onFiles wp
  dsimp only
  rw [lookup_apply]
  cases Fs.namei w.files.disk w.files.task path with
  | ok r => exact ⟨rfl, rfl⟩
  | error e => exact Halt.noConfusion

/-! ### The program is started -/

/-- Closing descriptors does not touch memory. -/
theorem wp_closeOnExec : wp closeOnExec (fun _ w' => w'.page = w.page ∧ w'.grant = w.grant)
    NoOverrun w := by
  unfold closeOnExec
  rw [wp_bind, wp_get]
  refine wp_forFrom (fun _ (w' : World) => w'.page = w.page ∧ w'.grant = w.grant) ⟨rfl, rfl⟩ ?_
  intro i w₁ _ _ h
  refine wp_ite.mpr ⟨fun _ => ?_, fun _ => h⟩
  rw [wp_bind]
  unfold wp onFiles
  cases Fs.sysClose i w₁.files with
  | ok r files => exact h
  | error e files => exact Halt.noConfusion

/-- What a memory holds that has been cleared in part. -/
theorem holds_memory_iff (hc : ∀ x b, flat w.user x = some b →
      flat w'.user x = cleared (flat w.user) lo hi x) (h : Holds (flat w.user) a bs) :
    Holds w'.memory a bs ↔ SparesAt lo hi a bs := by
  rw [SparesAt, ← h.cleared_iff]
  have key : ∀ k (hk : k < bs.length), w'.memory (a + k) = cleared (flat w.user) lo hi (a + k) := by
    intro k hk
    have hb := hc (a + k) _ (h k hk)
    obtain ⟨b, hb'⟩ : ∃ b, cleared (flat w.user) lo hi (a + k) = some b := by
      unfold cleared
      split
      · exact ⟨_, rfl⟩
      · exact ⟨_, h k hk⟩
    rw [hb'] at hb ⊢
    exact congrArg some (content_of_flat hb)
  exact forall_congr' fun k => forall_congr' fun hk => by rw [key k hk]

/-- **The program finds its arguments in place**, if its header spares them. -/
theorem wp_startProgram (hg : ∀ k, w.grant k = true) (ht : Tail w (block (args ++ envs)))
    (hfit : (block (args ++ envs)).length ≤ top) (h0 : ∀ s ∈ args ++ envs, (0 : UInt8) ∉ s) :
    wp (startProgram id ex (top - (block (args ++ envs)).length) args.length envs.length)
      (fun r w' => r = .inr (ex.entry, stackAt args envs) ∧
        (InPlace w' args envs ↔ ex.Spares args envs)) NoOverrun w := by
  have hp : top - (block (args ++ envs)).length + 0x4000000 - maxArgPages * pageSize =
      stringsAt args envs := by
    unfold stringsAt userTop
    unfold top maxArgPages pageSize at *
    omega
  have hroom : 4 * (args.length + envs.length) + 23 ≤ stringsAt args envs := by
    have hlen := length_le_block (args ++ envs)
    rw [List.length_append] at hlen
    unfold stringsAt userTop
    unfold top maxArgPages pageSize at hfit
    omega
  unfold startProgram
  rw [wp_bind, wp_get]
  dsimp only
  rw [wp_bind, wp_modify, wp_bind]
  refine wp_post wp_closeOnExec fun _ w₁ ⟨hpage₁, hgrant₁⟩ => ?_
  have ht₁ : Tail w₁ (block (args ++ envs)) := by
    unfold Tail
    rw [hpage₁]
    exact ht
  have hg₁ : ∀ k, w₁.grant k = true := by
    rw [hgrant₁]
    exact hg
  unfold freePageTables
  rw [wp_bind, wp_modify, wp_bind, wp_get, wp_bind, wp_modify, wp_bind, wp_modify, wp_bind,
    wp_modify, wp_bind]
  refine wp_post (wp_changeLdt (by exact hg₁) (by exact ht₁) hfit) ?_
  rintro limit w₂ ⟨rfl, hstr⟩
  rw [hp, wp_bind]
  refine wp_post (wp_createTables h0 hstr hroom) ?_
  rintro sp w₃ ⟨rfl, htab, hblock⟩
  rw [wp_bind, wp_modify, wp_bind]
  have hn : pageEnd ex.end ≤ ex.end + pageSize := by
    unfold pageEnd pageSize
    omega
  refine wp_post (wp_clearTail hn) fun _ w₄ hc => ?_
  rw [wp_pure]
  exact ⟨rfl, and_congr (holds_memory_iff hc htab) (holds_memory_iff hc hblock)⟩

/-- What a program is started with. -/
def StartedWith (ex : Header) (args envs : List (List UInt8)) (r : ℤ ⊕ ℕ × ℕ) (w' : World) : Prop :=
  ∀ eip sp, r = .inr (eip, sp) → eip = ex.entry ∧ sp = stackAt args envs ∧
    (InPlace w' args envs ↔ ex.Spares args envs)

theorem wp_execError {e : ℤ} : wp (execError e) (StartedWith ex args envs) NoOverrun w := by
  unfold execError
  rw [wp_bind, wp_modify, wp_pure]
  exact fun eip sp h => by cases h

/-- A program, with the strings that are copied before it is started. -/
theorem wp_runProgram {b : ℕ → UInt8} {copy : M ℕ} (hg : ∀ k, w.grant k = true)
    (hcopy : wp copy (fun p w' => Unseen w w' ∧ Stacked p w' (block (args ++ envs))) NoOverrun w)
    (hfit : (block (args ++ envs)).length ≤ top) (h0 : ∀ s ∈ args ++ envs, (0 : UInt8) ∉ s) :
    wp (runProgram id b copy args.length envs.length) (StartedWith (readHeader b) args envs)
      NoOverrun w := by
  unfold runProgram
  rw [wp_bind, wp_get]
  refine wp_ite.mpr ⟨fun _ => wp_execError, fun _ => ?_⟩
  rw [wp_bind]
  refine wp_post hcopy ?_
  rintro p w₁ ⟨hu, hst⟩
  refine wp_ite.mpr ⟨fun _ => wp_execError, fun hne => ?_⟩
  obtain ⟨rfl, ht⟩ := hst.resolve_left hne
  refine wp_post (wp_startProgram (hu.grant ▸ hg) ht hfit h0) ?_
  rintro r w₂ ⟨rfl, hplace⟩ eip sp heq
  obtain ⟨rfl, rfl⟩ := Prod.mk.inj (Sum.inr.inj heq)
  exact ⟨rfl, rfl, hplace⟩

theorem Unseen.examined (h : Unseen w w') (path : Fs.Path) :
    examined w' path = examined w path := by
  unfold Exec.examined examine firstBlock
  rw [h.files, h.bootBlock]

/-- A file that `namei` has found. -/
theorem examined_of_namei {path : Fs.Path} {b : ℕ → UInt8}
    (hn : Fs.namei w.files.disk w.files.task path = .ok (some id)) (he : examine w id = .inr b) :
    examined w path = some b := by
  unfold examined
  rw [hn]
  dsimp only
  rw [he]

/-- What the interpreter of a script is started with. -/
def ScriptStarted (w : World) (b : ℕ → UInt8) (name : List UInt8) (args envs : List (List UInt8))
    (r : ℤ ⊕ ℕ × ℕ) (w' : World) : Prop :=
  ∀ eip sp, r = .inr (eip, sp) → ∃ interp iName iArg b',
    parseScript b = some (interp, iName, iArg) ∧ examined w (toPath interp) = some b' ∧
    StartedWith (readHeader b') (iName :: (iArg.toList ++ name :: args.tail)) envs r w'

/-- **A script** is run by its interpreter, with the arguments that go before its own. -/
theorem wp_runScript {b : ℕ → UInt8} (hg : ∀ k, w.grant k = true)
    (hname : HoldsString w.memory filename name) (hargs : ListAt w argv args)
    (henvs : ListAt w envp envs) (hne : args ≠ [])
    (hfit : ∀ interp iName iArg, parseScript b = some (interp, iName, iArg) →
      (block (iName :: (iArg.toList ++ name :: args.tail) ++ envs)).length ≤ top) :
    wp (runScript b filename argv envp args.length envs.length) (ScriptStarted w b name args envs)
      NoOverrun w := by
  have herr : ∀ {e : ℤ} {w' : World},
      wp (execError e) (ScriptStarted w b name args envs) NoOverrun w' := by
    intro e w'
    unfold execError
    rw [wp_bind, wp_modify, wp_pure]
    exact fun eip sp h => by cases h
  unfold runScript
  generalize hline : parseScript b = line
  cases line with
  | none => exact herr
  | some line =>
    obtain ⟨interp, iName, iArg⟩ := line
    have hparse : parseScript b = some (interp, iName, iArg) := hline
    dsimp only
    have hfit := hfit interp iName iArg hparse
    obtain ⟨hi0, ha0⟩ := parseScript_zero hparse
    have hlen : (block (iName :: (iArg.toList ++ name :: args.tail) ++ envs)).length =
        iName.length + 1 + (block iArg.toList).length + (name.length + 1) +
          (block args.tail).length + (block envs).length := by
      simp
      ring
    have hroom := hlen ▸ hfit
    -- the environment, and the arguments from the second on
    rw [wp_bind]
    refine wp_post (wp_copyStrings henvs.gives stacked_top (by simp; omega)) ?_
    rintro p₁ w₁ ⟨hu₁, hst₁⟩
    rw [List.append_nil] at hst₁
    have htail := (hu₁.listAt hargs).gives.tail
    have hcount : args.length - 1 = args.tail.length := List.length_tail.symm
    rw [wp_bind, hcount]
    refine wp_post (wp_copyStrings htail hst₁ (by rw [List.length_append]; omega)) ?_
    rintro p₂ w₂ ⟨hu₂, hst₂⟩
    -- the name of the script
    have hu₁₂ := hu₁.trans hu₂
    rw [wp_bind]
    refine wp_post (wp_copyStrings (gives_name (hu₁₂.memory ▸ hname)) hst₂ ?_) ?_
    · simp
      omega
    rintro p₃ w₃ ⟨hu₃, hst₃⟩
    have hu₁₃ := hu₁₂.trans hu₃
    -- the argument of the interpreter, if there is one
    rw [wp_bind]
    have harg : wp (copyArg iArg p₃) (fun p w' => Unseen w₃ w' ∧ Stacked p w' (block iArg.toList ++
        (block [name] ++ (block args.tail ++ block envs)))) NoOverrun w₃ := by
      cases iArg with
      | none => exact ⟨.refl w₃, hst₃⟩
      | some s => exact wp_copyStrings (gives_kernel (ha0 s rfl)) hst₃ (by simp at hroom ⊢; omega)
    refine wp_post harg ?_
    rintro p₄ w₄ ⟨hu₄, hst₄⟩
    -- the name of the interpreter
    rw [wp_bind]
    refine wp_post (wp_copyStrings (gives_kernel hi0) hst₄ (by simp at hroom ⊢; omega)) ?_
    rintro p₅ w₅ ⟨hu₅, hst₅⟩
    have hu := (hu₁₃.trans hu₄).trans hu₅
    have hblock : block [iName] ++ (block iArg.toList ++ (block [name] ++
        (block args.tail ++ block envs))) =
          block (iName :: (iArg.toList ++ name :: args.tail) ++ envs) := by
      simp
    rw [hblock] at hst₅
    refine wp_ite.mpr ⟨fun _ => herr, fun _ => ?_⟩
    rw [wp_bind]
    refine wp_post wp_namei ?_
    rintro r w₆ ⟨rfl, hn⟩
    cases r with
    | none => exact herr
    | some id =>
      dsimp only
      rw [wp_bind, wp_get]
      cases he : examine w₆ id with
      | inl e => exact herr
      | inr b' =>
        have hcount : args.length + iArg.toList.length + 1 =
            (iName :: (iArg.toList ++ name :: args.tail)).length := by
          have := List.length_pos_of_ne_nil hne
          simp
          omega
        have hzero := script_zero hparse hname.1 hargs.zero henvs.zero
        dsimp only
        rw [hcount]
        refine wp_post (wp_runProgram (hu.grant ▸ hg) ⟨.refl w₆, hst₅⟩ hfit hzero) ?_
        intro r w₇ hr eip sp heq
        exact ⟨interp, iName, iArg, b', hparse,
          (hu.examined _).symm.trans (examined_of_namei hn he), hr⟩

/-! ### `do_execve` -/

/-- **A call of `do_execve`** as a program makes it, with strings that fit, and pages enough. -/
structure Called (w : World) (filename argv envp : ℕ) (name : List UInt8)
    (args envs : List (List UInt8)) : Prop where
  nameAt : HoldsString w.memory filename name
  argsAt : ListAt w argv args
  envsAt : ListAt w envp envs
  nonempty : args ≠ []
  fits : ∀ l, argList w name args = some l → (block (l ++ envs)).length ≤ top
  pages : ∀ k, w.grant k = true

theorem isScript_argList {b : ℕ → UInt8} {interp iName : List UInt8} {iArg : Option (List UInt8)}
    (args : List (List UInt8)) (he : examined w (toPath name) = some b) (hs : isScript b = true)
    (hp : parseScript b = some (interp, iName, iArg)) :
    argList w name args = some (iName :: (iArg.toList ++ name :: args.tail)) ∧
      program w name = (examined w (toPath interp)).map readHeader := by
  unfold argList program
  rw [he]
  dsimp only
  rw [if_pos hs, if_pos hs, hp]
  exact ⟨rfl, rfl⟩

theorem not_isScript_argList {b : ℕ → UInt8} (args : List (List UInt8))
    (he : examined w (toPath name) = some b)
    (hs : ¬isScript b = true) :
    argList w name args = some args ∧ program w name = some (readHeader b) := by
  unfold argList program
  rw [he]
  dsimp only
  rw [if_neg hs, if_neg hs]
  exact ⟨rfl, rfl⟩

/-- What `do_execve` comes to, if it returns to a new program. -/
theorem wp_doExecve (h : Called w filename argv envp name args envs) {cs : ℕ} :
    wp (doExecve cs filename argv envp) (fun r w' => ∀ eip sp, r = .inr (eip, sp) →
      ∃ l ex, argList w name args = some l ∧ program w name = some ex ∧
        (∀ s ∈ l ++ envs, (0 : UInt8) ∉ s) ∧ StartedWith ex l envs r w') NoOverrun w := by
  unfold doExecve
  refine wp_ite.mpr ⟨fun _ => Halt.noConfusion, fun _ => ?_⟩
  rw [wp_bind, wp_modify, wp_bind, wp_get, wp_bind]
  obtain ⟨w₀, hw₀⟩ : ∃ w₀, { w with page := fun _ => none } = w₀ := ⟨_, rfl⟩
  have hu₀ : Unseen w w₀ := by
    rw [← hw₀]
    exact ⟨rfl, rfl, rfl, rfl⟩
  rw [hw₀]
  refine wp_post (wp_readString (hu₀.memory ▸ h.nameAt)) ?_
  rintro path w₁ ⟨hpath, ht₁⟩
  rw [hpath]
  have hu₁ := hu₀.trans ht₁.unseen.1
  rw [wp_bind]
  refine wp_post wp_namei ?_
  rintro r w₂ ⟨rfl, hn⟩
  cases r with
  | none => exact fun eip sp heq => by cases heq
  | some id =>
    dsimp only
    rw [wp_bind]
    refine wp_post (wp_count (hu₁.listAt h.argsAt)) ?_
    rintro argc w₃ ⟨rfl, ht₃⟩
    have hu₃ := hu₁.trans ht₃.unseen.1
    rw [wp_bind]
    refine wp_post (wp_count (hu₃.listAt h.envsAt)) ?_
    rintro envc w₄ ⟨rfl, ht₄⟩
    have hu₄ := hu₃.trans ht₄.unseen.1
    have hg : ∀ k, w₄.grant k = true := hu₄.grant ▸ h.pages
    rw [wp_bind, wp_get]
    have hexam : examine w₄ id = examine w₂ id := by
      unfold examine firstBlock
      rw [ht₄.unseen.1.files, ht₄.unseen.1.bootBlock, ht₃.unseen.1.files, ht₃.unseen.1.bootBlock]
    rw [hexam]
    cases he : examine w₂ id with
    | inl e =>
      unfold execError
      dsimp only
      rw [wp_bind, wp_modify, wp_pure]
      exact fun eip sp heq => by cases heq
    | inr b =>
      have hb : examined w (toPath name) = some b :=
        (hu₁.examined _).symm.trans (examined_of_namei hn he)
      refine wp_ite.mpr ⟨fun hs => ?_, fun hs => ?_⟩
      · have hname₄ : HoldsString w₄.memory filename name := hu₄.memory ▸ h.nameAt
        have ha := hu₄.listAt h.argsAt
        have he := hu₄.listAt h.envsAt
        have hfits : ∀ interp iName iArg, parseScript b = some (interp, iName, iArg) →
            (block (iName :: (iArg.toList ++ name :: args.tail) ++ envs)).length ≤ top := by
          intro interp iName iArg hp
          exact h.fits _ (isScript_argList args hb hs hp).1
        have hscript := wp_runScript (b := b) hg hname₄ ha he h.nonempty hfits
        refine wp_post hscript fun r w' hr eip sp heq => ?_
        obtain ⟨interp, iName, iArg, b', hp, hb', hst⟩ := hr eip sp heq
        obtain ⟨hl, hprog⟩ := isScript_argList args hb hs hp
        rw [← hu₄.examined, hb'] at hprog
        exact ⟨_, _, hl, hprog, script_zero hp h.nameAt.1 h.argsAt.zero h.envsAt.zero, hst⟩
      · obtain ⟨hl, hprog⟩ := not_isScript_argList args hb hs
        have hfit := h.fits _ hl
        have hzero : ∀ s ∈ args ++ envs, (0 : UInt8) ∉ s := fun s hs =>
          (List.mem_append.mp hs).elim (h.argsAt.zero s) (h.envsAt.zero s)
        refine wp_post (wp_runProgram hg ?_ hfit hzero) fun r w' hr eip sp heq =>
          ⟨args, _, hl, hprog, hzero, hr⟩
        rw [wp_bind]
        rw [block_append] at hfit ⊢
        rw [List.length_append] at hfit
        refine wp_post (wp_copyStrings (hu₄.listAt h.envsAt).gives stacked_top
          (by rw [List.append_nil]; omega)) ?_
        rintro p₁ w₅ ⟨hu₅, hst₅⟩
        rw [List.append_nil] at hst₅
        refine wp_post (wp_copyStrings ((hu₄.trans hu₅).listAt h.argsAt).gives hst₅
          (by rw [List.length_append]; omega)) fun p w' hp => ⟨hu₅.trans hp.1, hp.2⟩

/-- **Arguments are passed** by `do_execve`, when it returns to the new program, if the header
of that spares them; and just then they are in place. -/
theorem arguments_passed (h : Called w filename argv envp name args envs) {cs : ℕ} :
    wp (doExecve cs filename argv envp) (fun r w' => ∀ eip sp, r = .inr (eip, sp) →
      ∃ l ex, argList w name args = some l ∧ program w name = some ex ∧ eip = ex.entry ∧
        (ex.Spares l envs → Passed w' sp l envs) ∧
        (InPlace w' l envs ↔ ex.Spares l envs)) NoOverrun w := by
  refine wp_post (wp_doExecve h) fun r w' hr eip sp heq => ?_
  obtain ⟨l, ex, hl, hprog, h0, hst⟩ := hr eip sp heq
  obtain ⟨heip, hsp, hplace⟩ := hst eip sp heq
  refine ⟨l, ex, hl, hprog, heip, fun hs => ?_, hplace⟩
  rw [hsp]
  exact (hplace.mpr hs).passed h0 (h.fits l hl)

/-- **A header spares the arguments** if its data end below the tables. -/
theorem Header.spares_of_le (h : pageEnd ex.end ≤ stackAt args envs) : ex.Spares args envs := by
  have hle : stackAt args envs ≤ stringsAt args envs := by
    unfold stackAt tablesAt
    omega
  exact ⟨fun k _ _ hhi => absurd hhi (by omega), fun k _ _ hhi => absurd hhi (by omega)⟩

/-! ### A header that does not spare them -/

/-- The program `p` in the root directory, with its header, and a task that has its name, and
`a` as an argument, in its memory. -/
def oneArgument (header : List ℕ) : World where
  files :=
    { disk :=
        { inode := fun id =>
            if id = ⟨1, 1⟩ then Fs.directory [(1, [46]), (1, Fs.dotdot), (2, [112])] false
            else
              { Fs.directory [] false with
                mode := 0x81ED#16
                size := 0x2000
                data := fun x => (table header).getD x 0 }
          super := fun i => if i = 0 then ⟨1, some ⟨1, 1⟩⟩ else ⟨0, none⟩ }
      task := ⟨1, 1, ⟨1, 1⟩, ⟨1, 1⟩⟩
      umask := 0#32
      filp := fun _ => none
      closeOnExec := 0#32
      file := fun _ => ⟨0#16, 0#32, 0, ⟨0, 0⟩, 0⟩
      granted := fun _ _ => false }
  bootBlock _ _ := 0
  codeLimit := 0x100000
  dataLimit := 0x100000
  pageTable _ := true
  user n :=
    if n = 0 then some fun x => (table [0, 112, 16, 0, 97]).getD x 0 else none
  executable := none
  endCode := 0
  endData := 0
  brk := 0
  startStack := 0
  saHandler _ := 0
  usedMath := false
  page _ := none
  grant _ := true
  asked := 0

/-- The memory it begins with. -/
theorem called_oneArgument {header : List ℕ}
    (h : argList (oneArgument header) [112] [[97]] = some [[97]]) :
    Called (oneArgument header) 4 8 0 [112] [[97]] [] := by
  have hmem : (oneArgument header).memory = (oneArgument []).memory := rfl
  have hcon : (oneArgument header).content = (oneArgument []).content := rfl
  have hname : HoldsString (oneArgument []).memory 4 [112] := by
    unfold HoldsString Holds
    decide +kernel
  have harg : HoldsString (oneArgument []).memory 16 [97] := by
    unfold HoldsString Holds
    decide +kernel
  have hptr : wordAt (oneArgument []).content 8 = 16 := by decide +kernel
  have hend : wordAt (oneArgument []).content 12 = 0 := by decide +kernel
  refine ⟨hmem ▸ hname, Or.inr ⟨by decide, fun i hi => ?_, fun i hi => ?_, hcon ▸ hend⟩,
    Or.inl ⟨rfl, rfl⟩, by decide, fun l hl => ?_, fun _ => rfl⟩
  · obtain rfl : i = 0 := Nat.lt_one_iff.mp hi
    change HoldsString (oneArgument header).memory (wordAt (oneArgument header).content 8) [97]
    rw [hcon, hptr, hmem]
    exact harg
  · obtain rfl : i = 0 := Nat.lt_one_iff.mp hi
    rw [hcon, Nat.mul_zero, hptr]
    decide
  · rw [h] at hl
    obtain rfl := Option.some.inj hl
    decide

/-- A header as it should be. -/
def plainHeader : List ℕ := [0o413, 0x1000, 0, 0, 0, 0x100, 0, 0]

/-- A header with sizes that come to little when they are added up. -/
def wrappedHeader : List ℕ :=
  [0o413, 0x3FFFFFA, 0, 2 ^ 32 - 0x3FFFFFA, 2 ^ 32 - 0x3FFFFFA, 0x100, 0, 0]

/-- What comes of the call. -/
@[irreducible] def executed (header : List ℕ) : EStateM.Result Halt World (ℤ ⊕ ℕ × ℕ) :=
  doExecve 0xF 4 8 0 (oneArgument header)

/-- It returns to the program, and `p` can be seen there. -/
def returnsWith (r : EStateM.Result Halt World (ℤ ⊕ ℕ × ℕ)) (p : ℕ → ℕ → World → Bool) : Bool :=
  match r with
  | .ok (.inr (eip, sp)) w => p eip sp w
  | _ => false

theorem returns_of_returnsWith {r : EStateM.Result Halt World (ℤ ⊕ ℕ × ℕ)}
    {p : ℕ → ℕ → World → Bool} (h : returnsWith r p = true) :
    ∃ eip sp w, r = .ok (.inr (eip, sp)) w ∧ p eip sp w = true := by
  unfold returnsWith at h
  split at h
  · exact ⟨_, _, _, rfl, h⟩
  · cases h

/-- A program with a plain header gets its argument. -/
theorem arguments_passed_oneArgument : ∃ sp w',
    doExecve 0xF 4 8 0 (oneArgument plainHeader) = .ok (.inr (0x100, sp)) w' ∧
      Passed w' sp [[97]] [] := by
  have hl : argList (oneArgument plainHeader) [112] [[97]] = some [[97]] := by decide +kernel
  have hp : (program (oneArgument plainHeader) [112]).map Header.end = some 0x1000 := by
    decide +kernel
  have hrun : returnsWith (executed plainHeader) (fun eip _ _ => eip == 0x100) = true := by
    decide +kernel
  obtain ⟨eip, sp, w', hr, heip⟩ := returns_of_returnsWith hrun
  obtain rfl := eq_of_beq heip
  rw [executed] at hr
  obtain ⟨l, ex, hl', hp', -, hpass, -⟩ :=
    wp_ok (arguments_passed (called_oneArgument hl)) hr _ _ rfl
  obtain rfl := Option.some.inj (hl.symm.trans hl')
  rw [hp'] at hp
  have hend : ex.end = 0x1000 := Option.some.inj hp
  refine ⟨sp, w', hr, hpass (Header.spares_of_le ?_)⟩
  rw [hend]
  decide +kernel

/-- **The argument of the other is lost.** -/
theorem not_arguments_passed :
    ¬∀ w filename argv envp name args envs, Called w filename argv envp name args envs →
      wp (doExecve 0xF filename argv envp) (fun r w' => ∀ eip sp, r = .inr (eip, sp) →
        ∃ l, argList w name args = some l ∧ Passed w' sp l envs) (fun _ _ => True) w := by
  intro h
  have hl : argList (oneArgument wrappedHeader) [112] [[97]] = some [[97]] := by decide +kernel
  have hrun : returnsWith (executed wrappedHeader) (fun _ sp w' =>
      w'.content (wordAt w'.content (wordAt w'.content (sp + 4))) == 0) = true := by decide +kernel
  obtain ⟨eip, sp, w', hr, hzero⟩ := returns_of_returnsWith hrun
  rw [executed] at hr
  have hcalled := called_oneArgument hl
  -- the world is not to be computed with from here on
  generalize oneArgument wrappedHeader = w at hl hr hcalled
  obtain ⟨l, hl', -, argv, envp, rfl, -, hlist, -⟩ :=
    wp_ok (h w 4 8 0 _ _ _ hcalled) hr _ _ rfl
  obtain rfl := Option.some.inj (hl.symm.trans hl')
  have hstr := Option.some.inj ((hlist.1 0 (by decide)).2 0 (by decide))
  rw [Nat.mul_zero, Nat.add_zero, Nat.add_zero, eq_of_beq hzero] at hstr
  cases hstr

end Linux011.Exec

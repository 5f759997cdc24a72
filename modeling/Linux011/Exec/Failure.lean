import Linux011.Exec.Counts

/-!
# A failed `execve`

Whatever `do_execve` takes before the point of no return it gives back on its way out, whether
through `exec_error1` or `exec_error2`: the references and the buffers
(`Linux011.Exec.Counts.Kept`), and the argument pages. What stays are the pages of the caller that
had to be brought in to read its path, its lists and its strings
(`Linux011.Exec.Counts.failed_execve`).
-/

namespace Linux011.Exec.Counts

variable {s s' s'' : Kernel} {α β : Type} {m : K α} {id : Fs.Id} {b : Buffer} {n f i : ℕ}
  {g : ℕ → Option ℕ} {P : Prop}

/-! ### References to pages -/

/-- How many of the first `n` entries are references to a page. -/
def uses (g : ℕ → Option ℕ) (n f : ℕ) : ℕ := (List.range n).countP fun i => g i = some f

/-- The pages of the caller's data segment. -/
def Task.pages (t : Task) : ℕ := (t.dataLimit + (pageSize - 1)) / pageSize

/-- **The references to a page** in the page tables and the page directory of the caller, and in
the array of `do_execve`. -/
def Kernel.refs (s : Kernel) (f : ℕ) : ℕ :=
  uses s.user s.task.pages f + uses s.tables (s.task.pages / 1024 + 1) f +
    uses s.page maxArgPages f

/-- One entry counts for the page it refers to. -/
theorem uses_set (hi : i < n) (hg : g i = none) (x : ℕ) :
    uses (Function.update g i (some x)) n f = uses g n f + if x = f then 1 else 0 := by
  induction n with
  | zero => exact absurd hi (Nat.not_lt_zero i)
  | succ n ih =>
    rw [uses, uses, List.range_succ, List.countP_append, List.countP_append, List.countP_singleton,
      List.countP_singleton]
    rcases Nat.lt_succ_iff_lt_or_eq.mp hi with hlt | rfl
    · have hother : Function.update g i (some x) n = g n := Function.update_of_ne (by omega) ..
      have := ih hlt
      rw [uses, uses] at this
      rw [this, hother]
      omega
    · have hbelow : (List.range i).countP (fun j => Function.update g i (some x) j = some f) =
          (List.range i).countP fun j => g j = some f := by
        refine List.countP_congr fun j hj => ?_
        have := List.mem_range.mp hj
        rw [Function.update_of_ne (by omega)]
      rw [hbelow, Function.update_self, hg]
      simp

/-- An entry that is taken away. -/
theorem uses_clear {x : ℕ} (hi : i < n) (hg : g i = some x) :
    uses g n f = uses (Function.update g i none) n f + if x = f then 1 else 0 := by
  have hset := uses_set (f := f) (g := Function.update g i none) hi (Function.update_self ..) x
  rwa [Function.update_idem, ← hg, Function.update_eq_self] at hset

/-! ### What is kept -/

/-- **The pages that are new** have an address that has been read, and so have the pages of new
page tables. -/
def Fresh (l : List ℕ) (s s' : Kernel) : Prop :=
  (∀ n, s'.user n ≠ s.user n → s.user n = none ∧ ∃ a ∈ l, a / pageSize = n) ∧
    ∀ j, s'.tables j ≠ s.tables j → s.tables j = none ∧
      ∃ a ∈ l, s.user (a / pageSize) = none ∧ a / pageSize / 1024 = j

/-- **What a part of `do_execve` leaves as it was.** New entries of the page tables are counted in
`mem_map`, and if `P` does not hold there are no new argument pages. -/
structure Kept (P : Prop) (s s' : Kernel) : Prop where
  task : s'.task = s.task
  iCount : s'.iCount = s.iCount
  bCount : s'.bCount = s.bCount
  page : P ∨ s'.page = s.page
  ledger : ∀ f, s'.memMap f + s.refs f = s.memMap f + s'.refs f
  fresh : ∃ l, s'.reads = l ++ s.reads ∧ Fresh l s s'

theorem Kept.refl (s : Kernel) : Kept P s s :=
  ⟨rfl, rfl, rfl, Or.inr rfl, fun _ => rfl, [], rfl, fun _ h => absurd rfl h,
    fun _ h => absurd rfl h⟩

/-- An entry that there is stays. -/
theorem Fresh.none_of {l : List ℕ} (h : Fresh l s s') (hn : s'.user n = none) :
    s.user n = none := by
  by_cases hne : s'.user n = s.user n
  · rw [← hne, hn]
  · exact (h.1 n hne).1

theorem Kept.trans (h : Kept P s s') (h' : Kept P s' s'') : Kept P s s'' := by
  obtain ⟨l, hreads, hfresh⟩ := h.fresh
  obtain ⟨l', hreads', hfresh'⟩ := h'.fresh
  refine ⟨h'.task.trans h.task, h'.iCount.trans h.iCount, h'.bCount.trans h.bCount, ?_, fun f => ?_,
    l' ++ l, by rw [hreads', hreads, List.append_assoc], fun n hn => ?_, fun j hj => ?_⟩
  · rcases h.page with hP | hpage
    · exact Or.inl hP
    · exact h'.page.imp_right fun hpage' => hpage'.trans hpage
  · have := h.ledger f
    have := h'.ledger f
    omega
  · by_cases hne : s'.user n = s.user n
    · obtain ⟨hnone, a, ha, hpage⟩ := hfresh'.1 n (by rwa [hne])
      exact ⟨hne ▸ hnone, a, List.mem_append_left _ ha, hpage⟩
    · obtain ⟨hnone, a, ha, hpage⟩ := hfresh.1 n hne
      exact ⟨hnone, a, List.mem_append_right _ ha, hpage⟩
  · by_cases hne : s'.tables j = s.tables j
    · obtain ⟨hnone, a, ha, hmiss, htable⟩ := hfresh'.2 j (by rwa [hne])
      exact ⟨hne ▸ hnone, a, List.mem_append_left _ ha, hfresh.none_of hmiss, htable⟩
    · obtain ⟨hnone, a, ha, hmiss, htable⟩ := hfresh.2 j hne
      exact ⟨hnone, a, List.mem_append_right _ ha, hmiss, htable⟩

theorem Kept.mono (h : Kept P s s') : Kept True s s' := { h with page := Or.inl trivial }

/-- What is held in both states does not matter. -/
theorem Kept.hold (h : Kept P s s') (id : Fs.Id) : Kept P (s.hold id) (s'.hold id) := by
  obtain ⟨ht, hi, hb, hpg, hl, hf⟩ := h
  refine ⟨ht, ?_, hb, hpg, hl, hf⟩
  rw [Kernel.hold, Kernel.hold, hi]

theorem Kept.grab (h : Kept P s s') (b : Buffer) : Kept P (s.grab b) (s'.grab b) := by
  obtain ⟨ht, hi, hb, hpg, hl, hf⟩ := h
  refine ⟨ht, hi, ?_, hpg, hl, hf⟩
  rw [Kernel.grab, Kernel.grab, hb]

/-- Whatever ends the call otherwise. -/
def Ends (_ : Halt) (_ : Kernel) : Prop := True

/-- **A piece of code keeps what there is.** -/
def Keeps (P : Prop) (m : K α) : Prop := ∀ s, wp m (fun _ s' => Kept P s s') Ends s

namespace Keeps

theorem pure (a : α) : Keeps P (pure a : K α) := fun s => Kept.refl s

theorem throw (e : Halt) : Keeps P (throw e : K α) := fun _ => trivial

theorem bind {f : α → K β} (hm : Keeps P m) (hf : ∀ a, Keeps P (f a)) : Keeps P (m >>= f) := by
  intro s
  rw [wp_bind]
  exact wp_post (hm s) fun a s' h => wp_post (hf a s') fun _ _ h' => h.trans h'

theorem read {f : Kernel → K α} (hf : ∀ s, Keeps P (f s)) : Keeps P (get >>= f) := by
  intro s
  rw [wp_bind]
  exact hf s s

theorem ite {c : Prop} [Decidable c] {m m' : K α} (h : Keeps P m) (h' : Keeps P m') :
    Keeps P (if c then m else m') := by
  split
  · exact h
  · exact h'

theorem post (h : Keeps P m) (hk : Kept P s s') :
    wp m (fun _ s'' => Kept P s s'') Ends s' :=
  wp_post (h s') fun _ _ h' => hk.trans h'

end Keeps

/-! ### Inodes and buffers -/

/-- **What is held is put back.** -/
theorem wp_iput (h : Kept P (s.hold id) s') : wp (iput id) (fun _ s'' => Kept P s s'') Ends s' := by
  obtain ⟨ht, hi, hb, hpg, hl, hf⟩ := h
  have hcount : s'.iCount id = s.iCount id + 1 := by
    rw [hi]
    exact Function.update_self ..
  rw [iput, wp_bind, wp_get, if_neg (by omega)]
  refine ⟨ht, ?_, hb, hpg, hl, hf⟩
  dsimp only
  rw [hcount, hi, Kernel.hold, Nat.add_sub_cancel, Function.update_idem, Function.update_eq_self]

/-- **What is grabbed is released.** -/
theorem wp_brelse (h : Kept P (s.grab b) s') :
    wp (brelse b) (fun _ s'' => Kept P s s'') Ends s' := by
  obtain ⟨ht, hi, hb, hpg, hl, hf⟩ := h
  have hcount : s'.bCount b = s.bCount b + 1 := by
    rw [hb]
    exact Function.update_self ..
  rw [brelse, wp_bind, wp_get, if_neg (by omega)]
  refine ⟨ht, hi, ?_, hpg, hl, hf⟩
  dsimp only
  rw [hcount, hb, Kernel.grab, Nat.add_sub_cancel, Function.update_idem, Function.update_eq_self]

theorem wp_igetFrom (k : ℕ) (id : Fs.Id) :
    wp (igetFrom k id) (fun r s' => Kept P (s.hold r) s') Ends s := by
  induction k generalizing id s with
  | zero => trivial
  | succ k ih =>
    rw [igetFrom, wp_bind, wp_modify, wp_bind, wp_get]
    split
    · split
      · exact Kept.refl _
      · rw [wp_bind]
        refine wp_post (wp_iput (Kept.refl (P := P) _)) fun _ s' h => ?_
        exact wp_post (ih _) fun r s'' h' => (h.hold r).trans h'
    · exact Kept.refl _

theorem wp_iget (id : Fs.Id) : wp (iget id) (fun r s' => Kept P (s.hold r) s') Ends s := by
  rw [iget]
  split
  · trivial
  · exact wp_igetFrom 9 id

/-- **`bread`** grabs the buffer if the block can be read. -/
theorem wp_bread (id : Fs.Id) (k : ℕ) : wp (bread id k) (fun r s' =>
    match r with
    | true => Kept P (s.grab (.file id k)) s'
    | false => Kept P s s') Ends s := by
  rw [bread, wp_bind, wp_modify, wp_bind, wp_get]
  split
  · exact Kept.refl _
  · rw [wp_bind]
    exact wp_brelse (Kept.refl _)

/-! ### Pages -/

/-- A page is counted once more. -/
def Kernel.take (s : Kernel) (f : ℕ) : Kernel :=
  { s with memMap := Function.update s.memMap f (s.memMap f + 1) }

theorem take_memMap (s : Kernel) (f i : ℕ) :
    (s.take f).memMap i = s.memMap i + if f = i then 1 else 0 := by
  rw [Kernel.take]
  dsimp only
  by_cases h : i = f
  · rw [h, Function.update_self, if_pos rfl]
  · rw [Function.update_of_ne h, if_neg fun heq => h heq.symm, Nat.add_zero]

/-- **`get_free_page`** counts a page that was free. -/
theorem wp_getFreePage : wp getFreePage (fun r s' =>
    match r with
    | none => s' = s
    | some f => s' = s.take f) Ends s := by
  rw [getFreePage, wp_bind, wp_get]
  cases hs : Mm.scasb s.memMap Mm.pagingPages with
  | none => rfl
  | some f =>
    have hfree := (Mm.scasb_eq_some hs).2
    rw [wp_bind, wp_set, wp_pure]
    dsimp only
    rw [Kernel.take, hfree]

/-- **What a page fault does** for page `n`: it and its page table may be new. -/
structure Fed (n : ℕ) (s s' : Kernel) : Prop where
  task : s'.task = s.task
  iCount : s'.iCount = s.iCount
  bCount : s'.bCount = s.bCount
  page : s'.page = s.page
  reads : s'.reads = s.reads
  user : ∀ m, s'.user m ≠ s.user m → m = n
  tables : ∀ j, s'.tables j ≠ s.tables j → s.tables j = none ∧ j = n / 1024
  ledger : ∀ f, s'.memMap f + s.refs f = s.memMap f + s'.refs f

theorem Fed.trans (h : Fed n s s') (h' : Fed n s' s'') : Fed n s s'' := by
  refine ⟨h'.task.trans h.task, h'.iCount.trans h.iCount, h'.bCount.trans h.bCount,
    h'.page.trans h.page, h'.reads.trans h.reads, fun m hm => ?_, fun j hj => ?_, fun f => ?_⟩
  · by_cases hne : s'.user m = s.user m
    · exact h'.user m (by rwa [hne])
    · exact h.user m hne
  · by_cases hne : s'.tables j = s.tables j
    · exact hne ▸ h'.tables j (by rwa [hne])
    · exact h.tables j hne
  · have := h.ledger f
    have := h'.ledger f
    omega

/-- **A page table** is there, or a new page is one. -/
theorem wp_makeTable (hn : n < s.task.pages) :
    wp (makeTable n) (fun r s' => r = true → Fed n s s' ∧ s'.user = s.user) Ends s := by
  rw [makeTable, wp_bind, wp_get]
  split
  · exact fun _ => ⟨⟨rfl, rfl, rfl, rfl, rfl, fun _ h => absurd rfl h, fun _ h => absurd rfl h,
      fun _ => rfl⟩, rfl⟩
  · next htable =>
    rw [Option.not_isSome_iff_eq_none] at htable
    rw [wp_bind]
    refine wp_post wp_getFreePage fun r s' hr => ?_
    cases r with
    | none => exact fun h => absurd h Bool.false_ne_true
    | some f =>
      obtain rfl : s' = s.take f := hr
      rw [wp_bind, wp_modify]
      refine fun _ => ⟨⟨rfl, rfl, rfl, rfl, rfl, fun _ h => absurd rfl h, fun j hj => ?_,
        fun i => ?_⟩, rfl⟩
      · have hj' : j = n / 1024 := by
          by_contra hne
          exact hj (Function.update_of_ne hne ..)
        exact ⟨hj' ▸ htable, hj'⟩
      · have hlt : n / 1024 < s.task.pages / 1024 + 1 := by omega
        have huses := uses_set (f := i) hlt htable f
        have hmem := take_memMap s f i
        rw [Kernel.refs, Kernel.refs]
        change (s.take f).memMap i + _ = _ + (uses s.user s.task.pages i + uses (Function.update
          s.tables (n / 1024) (some f)) (s.task.pages / 1024 + 1) i + uses s.page maxArgPages i)
        omega

/-- **A page is mapped** that was not there. -/
theorem fed_map (hn : n < s.task.pages) (hnone : s.user n = none) (f : ℕ) :
    Fed n s { s.take f with user := Function.update s.user n (some f) } := by
  refine ⟨rfl, rfl, rfl, rfl, rfl, fun m hm => ?_, fun _ h => absurd rfl h, fun i => ?_⟩
  · by_contra hne
    exact hm (Function.update_of_ne hne ..)
  · have huses := uses_set (f := i) hn hnone f
    have hmem := take_memMap s f i
    rw [Kernel.refs, Kernel.refs]
    change (s.take f).memMap i + _ = _ + (uses (Function.update s.user n (some f)) s.task.pages i +
      uses s.tables (s.task.pages / 1024 + 1) i + uses s.page maxArgPages i)
    omega

/-- **`put_page`** of a page in hand. -/
theorem wp_putPage (hn : n < s.task.pages) (hnone : s.user n = none) :
    wp (putPage f n) (fun _ s' => Fed n s s') Ends (s.take f) := by
  rw [putPage, wp_bind]
  refine wp_post (wp_makeTable (s := s.take f) hn) fun r s' hr => ?_
  cases r with
  | false => trivial
  | true =>
    rw [if_pos rfl, wp_modify]
    obtain ⟨⟨ht, hi, hb, hpg, hre, -, htab, hl⟩, huser⟩ := hr rfl
    refine ⟨ht, hi, hb, hpg, hre, fun m hm => ?_, htab, fun i => ?_⟩
    · by_contra hne
      refine hm ((Function.update_of_ne hne ..).trans ?_)
      rw [huser]
      rfl
    · have huses := uses_set (f := i) hn hnone f
      have hmem := take_memMap s f i
      have hledger := hl i
      have htask : s'.task = s.task := ht
      have huser' : s'.user = s.user := huser
      rw [Kernel.refs, Kernel.refs, htask, huser'] at hledger
      rw [Kernel.refs, Kernel.refs]
      change s'.memMap i + _ = _ + (uses (Function.update s'.user n (some f)) s'.task.pages i +
        uses s'.tables (s'.task.pages / 1024 + 1) i + uses s'.page maxArgPages i)
      change _ + (uses s.user s.task.pages i + uses s.tables (s.task.pages / 1024 + 1) i +
        uses s.page maxArgPages i) = _ at hledger
      rw [htask, huser']
      omega

/-- Buffers that are grabbed, one more or less. -/
theorem foldl_grab (bs : List Buffer) (b : Buffer) (s : Kernel) :
    bs.foldl Kernel.grab (s.grab b) = (bs.foldl Kernel.grab s).grab b := by
  induction bs generalizing s with
  | nil => rfl
  | cons c bs ih =>
    have hcomm : (s.grab b).grab c = (s.grab c).grab b := by
      rw [Kernel.grab, Kernel.grab, Kernel.grab, Kernel.grab]
      dsimp only
      congr 1
      ext x
      by_cases hc : x = c
      · by_cases hb : x = b
        · subst hc hb
          rfl
        · simp [hc ▸ hb, hc]
      · by_cases hb : x = b
        · simp [hb ▸ hc, hb]
        · simp [hb, hc]
    rw [List.foldl_cons, List.foldl_cons, hcomm, ih]

/-- **All buffers are released again.** -/
theorem release_foldl_grab (bs : List Buffer) (s : Kernel) :
    release bs (bs.foldl Kernel.grab s) = .ok ⟨⟩ s := by
  induction bs generalizing s with
  | nil => rfl
  | cons b bs ih =>
    have hb : brelse b ((bs.foldl Kernel.grab s).grab b) = .ok ⟨⟩ (bs.foldl Kernel.grab s) := by
      have hcount : ((bs.foldl Kernel.grab s).grab b).bCount b =
          (bs.foldl Kernel.grab s).bCount b + 1 := Function.update_self ..
      change (if ((bs.foldl Kernel.grab s).grab b).bCount b = 0 then _ else _ : K PUnit) _ = _
      rw [if_neg (by omega)]
      change EStateM.Result.ok _ _ = _
      rw [hcount, Nat.add_sub_cancel, Kernel.grab]
      dsimp only
      rw [Function.update_idem, Function.update_eq_self]
    rw [List.foldl_cons, foldl_grab]
    change EStateM.bind (brelse b) (fun _ => release bs) _ = _
    rw [EStateM.bind, hb]
    exact ih s

/-- **`do_no_page`** -/
theorem wp_doNoPage (hn : n < s.task.pages) (hnone : s.user n = none) :
    wp (doNoPage n) (fun _ s' => Fed n s s') Ends s := by
  have hempty : wp (getEmptyPage n) (fun _ s' => Fed n s s') Ends s := by
    rw [getEmptyPage, wp_bind]
    refine wp_post wp_getFreePage fun r s' hr => ?_
    cases r with
    | none => trivial
    | some f =>
      obtain rfl : s' = s.take f := hr
      exact wp_putPage hn hnone
  rw [doNoPage, wp_bind, wp_get]
  cases s.task.executable with
  | none => exact hempty
  | some id =>
    dsimp only
    split
    · exact hempty
    · cases s.shared n with
      | some f =>
        dsimp only
        rw [wp_bind]
        refine wp_post (wp_makeTable hn) fun r s' hr => ?_
        cases r with
        | false => trivial
        | true =>
          obtain ⟨hfed, huser⟩ := hr rfl
          have htask := hfed.task
          exact hfed.trans (fed_map (htask ▸ hn) (huser ▸ hnone) f)
      | none =>
        dsimp only
        rw [wp_bind]
        refine wp_post wp_getFreePage fun r s' hr => ?_
        cases r with
        | none => trivial
        | some f =>
          obtain rfl : s' = s.take f := hr
          rw [wp_bind]
          exact wp_of_ok (release_foldl_grab _ _) (wp_putPage hn hnone)

/-- **An address of the caller is touched.** -/
theorem keeps_touch (a : ℕ) : Keeps P (touch a) := by
  intro s
  rw [touch, wp_bind, wp_modify, wp_bind, wp_get]
  split
  · trivial
  · next hlimit =>
    split
    · next hnone =>
      rw [Option.isNone_iff_eq_none] at hnone
      have hn : a / pageSize < s.task.pages := by
        rw [not_le] at hlimit
        change a < s.task.dataLimit at hlimit
        rw [Task.pages, pageSize]
        omega
      refine wp_post (wp_doNoPage hn hnone) fun _ s' hfed => ?_
      obtain ⟨ht, hi, hb, hpg, hre, hu, htab, hl⟩ := hfed
      refine ⟨ht, hi, hb, Or.inr hpg, hl, [a], hre, fun n hne => ?_, fun j hne => ?_⟩
      · obtain rfl := hu n hne
        exact ⟨hnone, a, List.mem_singleton_self a, rfl⟩
      · obtain ⟨htable, hj⟩ := htab j hne
        exact ⟨htable, a, List.mem_singleton_self a, hnone, hj.symm⟩
    · exact ⟨rfl, rfl, rfl, Or.inr rfl, fun _ => rfl, [a], rfl, fun _ h => absurd rfl h,
        fun _ h => absurd rfl h⟩

theorem keeps_getFsByte (a : ℕ) : Keeps P (getFsByte a) :=
  (keeps_touch a).bind fun _ => .read fun _ => .pure _

theorem keeps_getFsLong (a : ℕ) : Keeps P (getFsLong a) :=
  (keeps_getFsByte a).bind fun _ => (keeps_getFsByte _).bind fun _ => (keeps_getFsByte _).bind
    fun _ => (keeps_getFsByte _).bind fun _ => .pure _

/-! ### Lookups -/

/-- What is held at the end of a lookup that began in `s`. -/
def Holds (P : Prop) (s : Kernel) : Option Fs.Id → Kernel → Prop
  | none => Kept P s
  | some id => Kept P (s.hold id)

/-- The buffer with the entry that has been found. -/
def Grabs (P : Prop) (s : Kernel) (dir : Fs.Id) : Option ℕ → Kernel → Prop
  | none => Kept P s
  | some i => Kept P (s.grab (.file dir (i / 64)))

theorem Kept.grabs {dir : Fs.Id} {r : Option ℕ} (h : Kept P s s') (h' : Grabs P s' dir r s'') :
    Grabs P s dir r s'' := by
  cases r with
  | none => exact h.trans h'
  | some i => exact (h.grab _).trans h'

theorem wp_findFrom (dir : Fs.Id) (len : ℕ) (name : List UInt8) (entries k : ℕ) :
    wp (findFrom dir len name entries n k) (Grabs P s dir) Ends s := by
  induction n generalizing s k with
  | zero => exact Kept.refl s
  | succ n ih =>
    rw [findFrom, wp_bind, wp_get]
    split
    · exact ih (k + 1)
    rw [wp_bind]
    refine wp_post (wp_bread (P := P) dir k) fun r s' hr => ?_
    cases r with
    | false =>
      rw [if_neg Bool.false_ne_true]
      exact wp_post (ih (k + 1)) fun r s'' h => hr.grabs h
    | true =>
      rw [if_pos rfl]
      cases hfind : (List.range' (64 * k) (min 64 (entries - 64 * k))).find? fun i =>
          Fs.isMatch len name (s.disk.inode dir) i with
      | none =>
        dsimp only
        rw [wp_bind]
        refine wp_post (wp_brelse hr) fun _ s'' h => ?_
        exact wp_post (ih (k + 1)) fun r s₃ h' => h.grabs h'
      | some i =>
        -- the entry is in the block that is in the buffer
        have hmem := List.mem_range'.mp (List.mem_of_find?_eq_some hfind)
        obtain ⟨j, hj, rfl⟩ := hmem
        have hblock : (64 * k + 1 * j) / 64 = k := by omega
        change Kept P (s.grab (.file dir ((64 * k + 1 * j) / 64))) s'
        rw [hblock]
        exact hr

theorem wp_scan (dir : Fs.Id) (len : ℕ) (name : List UInt8) (entries : ℕ) :
    wp (scan dir len name entries) (Grabs P s dir) Ends s := by
  rw [scan, wp_bind, wp_get]
  split
  · exact wp_findFrom dir len name entries 0
  · exact Kept.refl s

/-- **`find_entry`** holds the directory it ends in, and the buffer of the entry. -/
theorem wp_findEntry {dir : Fs.Id} {name : List UInt8} (h : Kept P (s.hold dir) s') :
    wp (findEntry dir name) (fun r s'' => Grabs P (s.hold r.1) r.1 r.2 s'') Ends s' := by
  -- the directory, if need be another one, is searched
  have hscan : ∀ {dir : Fs.Id} {s' : Kernel} (len entries : ℕ), Kept P (s.hold dir) s' →
      wp (scan dir len name entries >>= fun r => pure (dir, r))
        (fun r s'' => Grabs P (s.hold r.1) r.1 r.2 s'') Ends s' := by
    intro dir s' len entries h
    rw [wp_bind]
    exact wp_post (wp_scan dir len name entries) fun r s'' hr => h.grabs hr
  rw [findEntry, wp_bind, wp_get]
  dsimp only
  split
  · exact h
  · split
    · split
      · exact hscan _ _ h
      · split
        · split
          · trivial
          · split
            · exact hscan _ _ h
            · rw [wp_bind]
              refine wp_post (wp_iput h) fun _ s'' h' => ?_
              rw [wp_bind, wp_modify]
              exact hscan _ _ (h'.hold _)
        · exact hscan _ _ h
    · exact hscan _ _ h

/-- **The entry is followed**: all that was held is given back but for the new inode. -/
theorem wp_follow {dir : Fs.Id} (h : Kept P ((s.hold dir).grab (.file dir (i / 64))) s') :
    wp (follow dir i) (fun id s'' => Kept P (s.hold id) s'') Ends s' := by
  rw [follow, wp_bind]
  refine wp_post (wp_brelse h) fun _ s'' h' => ?_
  rw [wp_bind]
  refine wp_post (wp_iput h') fun _ s₃ h'' => ?_
  rw [wp_bind, wp_get]
  exact wp_post (wp_iget _) fun id s₄ h₄ => (h''.hold id).trans h₄

section

variable {byte : ℕ → K UInt8} (hbyte : ∀ a, Keeps P (byte a))

include hbyte

theorem keeps_readName (n a : ℕ) : Keeps P (readName byte n a) := by
  induction n generalizing a with
  | zero => exact .throw _
  | succ n ih =>
    exact (hbyte a).bind fun c => .ite (.pure _) ((ih (a + 1)).bind fun _ => .pure _)

theorem keeps_readBase (n a : ℕ) (name : List UInt8) : Keeps P (readBase byte n a name) := by
  induction n generalizing a name with
  | zero => exact .throw _
  | succ n ih => exact (hbyte a).bind fun c => .ite (.pure _) (ih _ _)

/-- **The loop of `get_dir`** holds one directory after the other. -/
theorem wp_walk {a : ℕ} (h : Kept P (s.hold id) s') :
    wp (walk byte n id a) (Holds P s) Ends s' := by
  induction n generalizing s' id a with
  | zero => trivial
  | succ n ih =>
    rw [walk, wp_bind, wp_get]
    split
    · rw [wp_bind]
      exact wp_post (wp_iput h) fun _ _ h' => h'
    · rw [wp_bind]
      refine wp_post ((keeps_readName hbyte _ a).post h) fun r s'' h' => ?_
      obtain ⟨name, c⟩ := r
      dsimp only
      split
      · exact h'
      · rw [wp_bind]
        refine wp_post (wp_findEntry h') fun r s₃ hr => ?_
        obtain ⟨dir, r⟩ := r
        cases r with
        | none =>
          dsimp only
          rw [wp_bind]
          exact wp_post (wp_iput hr) fun _ _ h' => h'
        | some i =>
          dsimp only
          rw [wp_bind]
          exact wp_post (wp_follow hr) fun id s₄ h₄ => ih h₄

/-- **`get_dir`** -/
theorem wp_getDir {pathname : ℕ} : wp (getDir byte pathname) (Holds P s) Ends s := by
  rw [getDir, wp_bind, wp_get]
  dsimp only
  split
  · trivial
  · split
    · trivial
    · rw [wp_bind]
      refine wp_post (hbyte pathname s) fun c s' h => ?_
      split
      · rw [wp_bind, wp_modify]
        exact wp_walk hbyte (h.hold _)
      · split
        · rw [wp_bind, wp_modify]
          exact wp_walk hbyte (h.hold _)
        · exact h

/-- **`namei`** holds what it returns. -/
theorem wp_namei {pathname : ℕ} : wp (namei byte pathname) (Holds P s) Ends s := by
  rw [namei, dirNamei, wp_bind, wp_bind]
  refine wp_post (wp_getDir hbyte) fun r s' hr => ?_
  cases r with
  | none => exact hr
  | some dir =>
    dsimp only
    rw [wp_bind, wp_get, wp_bind]
    refine wp_post ((keeps_readBase hbyte _ pathname []).post hr) fun name s'' h => ?_
    rw [wp_pure]
    dsimp only
    split
    · exact h
    · rw [wp_bind]
      refine wp_post (wp_findEntry h) fun r s₃ hr => ?_
      obtain ⟨dir, r⟩ := r
      cases r with
      | none =>
        dsimp only
        rw [wp_bind]
        exact wp_post (wp_iput hr) fun _ _ h' => h'
      | some i =>
        dsimp only
        rw [map_eq_pure_bind, wp_bind]
        exact wp_post (wp_follow hr) fun id s₄ h₄ => h₄

end

/-! ### Strings -/

theorem keeps_pointer (src : Source) (k : ℕ) : Keeps P (pointer src k) := by
  cases src with
  | user argv => exact keeps_getFsLong _
  | name filename => exact .pure _
  | kernel l => exact .pure _

theorem keeps_byte (src : Source) (a : ℕ) : Keeps P (byte src a) := by
  cases src with
  | user argv => exact keeps_getFsByte a
  | name filename => exact keeps_getFsByte a
  | kernel l => exact .pure _

theorem keeps_strLen (src : Source) (n a : ℕ) : Keeps P (strLen src n a) := by
  induction n generalizing a with
  | zero => exact .throw _
  | succ n ih =>
    exact (keeps_byte src a).bind fun _ => .ite (.pure _) ((ih (a + 1)).bind fun _ => .pure _)

/-- **An argument page** that is new is counted, and in the array. -/
theorem keeps_turn (c : Cursor) : Keeps True (turn c) := by
  intro s
  rw [turn]
  split
  · exact Kept.refl s
  · split
    · trivial
    · next hpage =>
      rw [wp_bind, wp_get]
      split
      · exact Kept.refl s
      · next hnone =>
        rw [Option.not_isSome_iff_eq_none] at hnone
        rw [wp_bind]
        refine wp_post wp_getFreePage fun r s' hr => ?_
        cases r with
        | none =>
          obtain rfl : s' = s := hr
          exact Kept.refl s'
        | some f =>
          obtain rfl : s' = s.take f := hr
          refine ⟨rfl, rfl, rfl, Or.inl trivial, fun i => ?_, [], rfl, fun _ h => absurd rfl h,
            fun _ h => absurd rfl h⟩
          have huses := uses_set (f := i) (not_le.mp hpage) hnone f
          have hmem := take_memMap s f i
          rw [Kernel.refs, Kernel.refs]
          change (s.take f).memMap i + _ = _ + (uses s.user s.task.pages i +
            uses s.tables (s.task.pages / 1024 + 1) i + uses (Function.update s.page _ (some f))
              maxArgPages i)
          omega

theorem keeps_copyBytes (src : Source) (n a : ℕ) (c : Cursor) :
    Keeps True (copyBytes src n a c) := by
  induction n generalizing a c with
  | zero => exact .pure _
  | succ n ih =>
    refine (keeps_turn c).bind fun r => ?_
    cases r with
    | none => exact .pure _
    | some c => exact (keeps_byte src _).bind fun _ => ih _ c

theorem keeps_copyLoop (src : Source) (n : ℕ) (c : Cursor) : Keeps True (copyLoop src n c) := by
  induction n generalizing c with
  | zero => exact .pure _
  | succ n ih =>
    refine (keeps_pointer src n).bind fun tmp => .ite (.throw _) (.read fun s => ?_)
    refine (keeps_strLen src _ tmp).bind fun len => (keeps_copyBytes src len _ c).bind fun r => ?_
    cases r with
    | none => exact .pure _
    | some c => exact ih c

/-- **`copy_strings`** -/
theorem keeps_copyStrings (argc : ℕ) (src : Source) (p : ℕ) : Keeps True (copyStrings argc src p) :=
  .ite (.pure _) (keeps_copyLoop src argc _)

theorem keeps_copyArg (iArg : Option (List UInt8)) (p : ℕ) : Keeps True (copyArg iArg p) := by
  cases iArg with
  | none => exact .pure _
  | some l => exact keeps_copyStrings 1 _ p

theorem keeps_count (argv : ℕ) : Keeps True (count argv) := by
  have hfrom : ∀ n a, Keeps True (countFrom n a) := by
    intro n
    induction n with
    | zero => exact fun _ => .throw _
    | succ n ih =>
      exact fun a => (keeps_getFsLong a).bind fun _ => .ite (.pure _) ((ih _).bind fun _ => .pure _)
  exact .ite (.pure _) (.read fun s => hfrom _ _)

/-! ### `do_execve` -/

/-- **The way out**: the argument pages are free again. -/
theorem wp_execError1 {e : ℤ} (h : Kept True s s') : wp (execError1 e) (fun _ s'' =>
    Kept True s s'' ∧ ∀ i < maxArgPages, s''.page i = none) Ends s' := by
  rw [execError1, wp_bind]
  refine wp_post (wp_forFrom (fun i s'' => Kept True s s'' ∧ ∀ j < i, s''.page j = none)
    ⟨h, fun j hj => absurd hj (Nat.not_lt_zero j)⟩ ?_) fun _ s'' h => ?_
  · rintro i s₁ - hi ⟨hk, hnone⟩
    have hclear : ∀ j < i + 1, Function.update s₁.page i none j = none := by
      intro j hj
      rcases Nat.lt_succ_iff_lt_or_eq.mp hj with hlt | rfl
      · rw [Function.update_of_ne (by omega)]
        exact hnone j hlt
      · exact Function.update_self ..
    rw [wp_bind, wp_get, wp_bind]
    cases hp : s₁.page i with
    | none =>
      refine ⟨hk.trans ?_, hclear⟩
      have hsame : { s₁ with page := Function.update s₁.page i none } = s₁ := by
        rw [← hp, Function.update_eq_self]
      change Kept True s₁ { s₁ with page := Function.update s₁.page i none }
      rw [hsame]
      exact Kept.refl s₁
    | some f =>
      rw [freePage, wp_bind, wp_get]
      split
      · trivial
      · next hcount =>
        refine ⟨hk.trans ⟨rfl, rfl, rfl, Or.inl trivial, fun x => ?_, [], rfl,
          fun _ h => absurd rfl h, fun _ h => absurd rfl h⟩, hclear⟩
        have huses := uses_clear (f := x) (by omega : i < maxArgPages) hp
        rw [Kernel.refs, Kernel.refs]
        change Function.update s₁.memMap f (s₁.memMap f - 1) x + _ = _ +
          (uses s₁.user s₁.task.pages x + uses s₁.tables (s₁.task.pages / 1024 + 1) x +
            uses (Function.update s₁.page i none) maxArgPages x)
        by_cases hx : x = f
        · subst hx
          rw [Function.update_self]
          rw [if_pos rfl] at huses
          omega
        · rw [Function.update_of_ne hx]
          rw [if_neg fun heq => hx heq.symm] at huses
          omega
  · rw [Nat.zero_add] at h
    exact h

/-- **What a failing return leaves.** -/
def Failed (s : Kernel) (r : ℤ ⊕ ℕ × ℕ) (s' : Kernel) : Prop :=
  ∀ e, r = .inl e → Kept True s s' ∧ ∀ i < maxArgPages, s'.page i = none

theorem wp_fail1 {e : ℤ} (h : Kept True s s') : wp (execError1 e) (Failed s) Ends s' :=
  wp_post (wp_execError1 h) fun _ _ h _ _ => h

/-- `exec_error2` puts the inode back first. -/
theorem wp_fail2 {e : ℤ} (h : Kept True (s.hold id) s') :
    wp (execError2 id e) (Failed s) Ends s' := by
  rw [execError2, wp_bind]
  exact wp_post (wp_iput h) fun _ _ h' => wp_fail1 h'

/-- **The first block** is in a buffer, or nothing has been taken. -/
theorem wp_openFile : wp (openFile id) (fun r s' =>
    match r with
    | .inl _ => Kept True s s'
    | .inr _ => Kept True (s.grab (firstBuffer s' id)) s') Ends s := by
  rw [openFile, wp_bind, wp_get]
  dsimp only
  split
  · exact Kept.refl s
  · split
    · exact Kept.refl s
    · split
      · next hhole =>
        rw [wp_bind, wp_modify, wp_pure]
        have hbuf : firstBuffer (s.grab (.boot id.dev)) id = .boot id.dev := if_pos hhole
        dsimp only
        rw [hbuf]
        exact Kept.refl _
      · next hhole =>
        have hbread : wp (bread id 0) (fun r s' =>
            match r with
            | true => s' = s.grab (.file id 0)
            | false => Kept True s s') Ends s := by
          rw [bread, wp_bind, wp_modify, wp_bind, wp_get]
          split
          · rfl
          · rw [wp_bind]
            exact wp_brelse (Kept.refl _)
        rw [wp_bind]
        refine wp_post hbread fun r s' hr => ?_
        cases r with
        | false => exact hr
        | true =>
          obtain rfl : s' = s.grab (.file id 0) := hr
          have hbuf : firstBuffer (s.grab (.file id 0)) id = .file id 0 := if_neg hhole
          rw [if_pos rfl, wp_pure]
          dsimp only
          rw [hbuf]
          exact Kept.refl _

variable {start : Fs.Id → Header → ℕ → ℕ → ℕ → K (ℕ × ℕ)} {block : ℕ → UInt8} {copy : K ℕ}
  {argc envc filename argv envp cs : ℕ}

/-- **A file that is taken for a program.** -/
theorem wp_runProgram (hcopy : Keeps True copy)
    (h : Kept True ((s.hold id).grab (firstBuffer s' id)) s') :
    wp (runProgram start id block copy argc envc) (Failed s) Ends s' := by
  rw [runProgram, wp_bind, wp_get, wp_bind]
  refine wp_post (wp_brelse h) fun _ s'' h' => ?_
  dsimp only
  split
  · exact wp_fail2 h'
  · rw [wp_bind]
    refine wp_post (hcopy.post h') fun p s₃ h₃ => ?_
    split
    · exact wp_fail2 h₃
    · rw [wp_bind]
      -- from here on nothing fails
      have hstart : wp (start id (readHeader block) p argc envc) (fun _ _ => True) Ends s₃ := by
        rw [wp]
        split <;> trivial
      exact wp_post hstart (by rintro r s₄ _ e ⟨⟩)

/-- **A script**: its inode and its buffer are given back before the interpreter is looked up. -/
theorem wp_runScript (h : Kept True ((s.hold id).grab (firstBuffer s' id)) s') :
    wp (runScript start id block filename argv envp argc envc) (Failed s) Ends s' := by
  rw [runScript, wp_bind, wp_get, wp_bind]
  refine wp_post (wp_brelse h) fun _ s₁ h₁ => ?_
  rw [wp_bind]
  refine wp_post (wp_iput h₁) fun _ s₂ h₂ => ?_
  cases parseScript block with
  | none => exact wp_fail1 h₂
  | some r =>
    obtain ⟨interp, iName, iArg⟩ := r
    dsimp only
    rw [wp_bind]
    refine wp_post ((keeps_copyStrings _ _ _).post h₂) fun p s₃ h₃ => ?_
    rw [wp_bind]
    refine wp_post ((keeps_copyStrings _ _ _).post h₃) fun p s₄ h₄ => ?_
    rw [wp_bind]
    refine wp_post ((keeps_copyStrings _ _ _).post h₄) fun p s₅ h₅ => ?_
    rw [wp_bind]
    refine wp_post ((keeps_copyArg _ _).post h₅) fun p s₆ h₆ => ?_
    rw [wp_bind]
    refine wp_post ((keeps_copyStrings _ _ _).post h₆) fun p s₇ h₇ => ?_
    split
    · exact wp_fail1 h₇
    · rw [wp_bind]
      refine wp_post (wp_namei (P := True) fun _ => .pure _) fun r s₈ hr => ?_
      cases r with
      | none => exact wp_fail1 (h₇.trans hr)
      | some id =>
        have h₈ : Kept True (s.hold id) s₈ := (h₇.hold id).trans hr
        dsimp only
        rw [wp_bind]
        refine wp_post wp_openFile fun r s₉ hr => ?_
        cases r with
        | inl e => exact wp_fail2 (h₈.trans hr)
        | inr b => exact wp_runProgram (.pure _) ((h₈.grab _).trans hr)

/-- **`do_execve`**, from a state with no argument pages. -/
theorem wp_doExecve : wp (doExecve start cs filename argv envp) (fun r s' =>
    ∀ e, r = .inl e → Kept True { s with page := fun _ => none, reads := [] } s' ∧
      ∀ i < maxArgPages, s'.page i = none) Ends s := by
  rw [doExecve]
  split
  · trivial
  rw [wp_bind, wp_modify, wp_bind]
  refine wp_post (wp_namei (P := False) keeps_getFsByte) fun r s₁ hr => ?_
  cases r with
  | none =>
    -- no page has been asked for
    have hpage := (Kept.page hr).resolve_left id
    exact fun _ _ => ⟨Kept.mono hr, fun i _ => congrFun hpage i⟩
  | some id =>
    dsimp only
    rw [wp_bind]
    refine wp_post ((keeps_count argv).post (Kept.mono hr)) fun argc s₂ h₂ => ?_
    rw [wp_bind]
    refine wp_post ((keeps_count envp).post h₂) fun envc s₃ h₃ => ?_
    rw [wp_bind]
    refine wp_post wp_openFile fun r s₄ hr => ?_
    cases r with
    | inl e => exact wp_fail2 (h₃.trans hr)
    | inr b =>
      have h₄ := (h₃.grab _).trans hr
      dsimp only
      split
      · exact wp_runScript h₄
      · refine wp_runProgram ?_ h₄
        exact (keeps_copyStrings _ _ _).bind fun _ => keeps_copyStrings _ _ _

/-- **The references of the caller's page tables to a page.** -/
def Kernel.mapped (s : Kernel) (f : ℕ) : ℕ :=
  uses s.user s.task.pages f + uses s.tables (s.task.pages / 1024 + 1) f

theorem uses_eq_zero (h : ∀ i < n, g i = none) : uses g n f = 0 := by
  refine List.countP_eq_zero.mpr fun i hi hf => ?_
  rw [h i (List.mem_range.mp hi)] at hf
  exact absurd hf (by simp)

/-- **A failed `execve` changes nothing** but for the pages of the caller that it has to read and
that are not there: they are brought in, and with them their page tables if these are missing.
`mem_map` counts the new entries and is otherwise as before. -/
theorem failed_execve {e : ℤ}
    (h : doExecve start cs filename argv envp s = .ok (.inl e) s') :
    s'.iCount = s.iCount ∧ s'.bCount = s.bCount ∧ s'.task = s.task ∧
      (∀ n, s'.user n ≠ s.user n → s.user n = none ∧ ∃ a ∈ s'.reads, a / pageSize = n) ∧
      (∀ j, s'.tables j ≠ s.tables j → s.tables j = none ∧
        ∃ a ∈ s'.reads, s.user (a / pageSize) = none ∧ a / pageSize / 1024 = j) ∧
      (∀ f, s'.memMap f + s.mapped f = s.memMap f + s'.mapped f) ∧
      ((∀ a ∈ s'.reads, s.user (a / pageSize) ≠ none) →
        s'.memMap = s.memMap ∧ s'.user = s.user ∧ s'.tables = s.tables) := by
  obtain ⟨⟨htask, hi, hb, -, hledger, l, hreads, hfresh⟩, hpage⟩ := wp_ok wp_doExecve h e rfl
  rw [List.append_nil] at hreads
  subst hreads
  have hcount : ∀ f, s'.memMap f + s.mapped f = s.memMap f + s'.mapped f := by
    intro f
    have := hledger f
    rw [Kernel.refs, Kernel.refs, uses_eq_zero (g := s'.page) hpage,
      uses_eq_zero (fun _ _ => rfl)] at this
    exact this
  refine ⟨hi, hb, htask, hfresh.1, hfresh.2, hcount, fun hall => ?_⟩
  have huser : s'.user = s.user := by
    funext n
    by_contra hne
    obtain ⟨hnone, a, ha, rfl⟩ := hfresh.1 n hne
    exact hall a ha hnone
  have htables : s'.tables = s.tables := by
    funext j
    by_contra hne
    obtain ⟨-, a, ha, hmiss, -⟩ := hfresh.2 j hne
    exact hall a ha hmiss
  refine ⟨?_, huser, htables⟩
  funext f
  have := hcount f
  rw [Kernel.mapped, Kernel.mapped, huser, htables, show s'.task = s.task from htask] at this
  omega

/-! ### Two calls that fail -/

/-- The bytes of a list, and zeros. -/
def bytes (l : List UInt8) (a : ℕ) : UInt8 := l.getD a 0

/-- The file `s`, a script for the interpreter `i`. -/
def scriptFile : Fs.Inode where
  mode := 0x8049#16
  uid := 0
  gid := 0
  nlinks := 1
  size := 4
  zone := fun _ => .good
  data := bytes [35, 33, 105, 10]
  mount := false

/-- The root directory, with `s` in it. -/
def directory : Fs.Inode where
  mode := 0x41ED#16
  uid := 0
  gid := 0
  nlinks := 2
  size := 16
  zone := fun _ => .good
  data := bytes [2, 0, 115]
  mount := false

/-- A task with a file name at address 1, and with the pages that `user` says. -/
def caller (name : List UInt8) (user : ℕ → Option ℕ) : Kernel where
  disk := ⟨fun id => if id.num = 2 then scriptFile else directory, fun _ => ⟨0, none⟩⟩
  bootBlock := fun _ _ => 0
  content := bytes (0 :: name)
  shared := fun _ => none
  task := {
    lookup := ⟨0, 0, ⟨1, 1⟩, ⟨1, 1⟩⟩
    saHandler := fun _ => 0
    filp := fun _ => none
    closeOnExec := 0#32
    executable := none
    endCode := 0
    endData := 0
    brk := 0
    startStack := 0
    codeLimit := 4096
    dataLimit := 4096
    usedMath := false }
  iCount := fun _ => 1
  bCount := fun _ => 0
  memMap := fun _ => 0
  user := user
  tables := user
  page := fun _ => none
  reads := []

/-- A failing return with this error, and what holds after it. -/
def failsWith (r : EStateM.Result Halt Kernel (ℤ ⊕ ℕ × ℕ)) (e : ℤ) (p : Kernel → Bool) : Bool :=
  match r with
  | .ok (.inl e') s => decide (e' = e) && p s
  | _ => false

theorem fails_of_failsWith {r : EStateM.Result Halt Kernel (ℤ ⊕ ℕ × ℕ)} {e : ℤ} {p : Kernel → Bool}
    (h : failsWith r e p = true) : ∃ s', r = .ok (.inl e) s' ∧ p s' = true := by
  match r, h with
  | .ok (.inl e') s', h =>
    rw [failsWith, Bool.and_eq_true, decide_eq_true_iff] at h
    exact ⟨s', by rw [h.1], h.2⟩

/-- **A script without its interpreter**: the argument pages are free again. -/
theorem failed_execve_script : ∃ s',
    doExecve (fun _ _ _ _ _ => pure (0, 0)) 0xF 1 0 0 (caller [115] fun _ => some 0) =
      .ok (.inl (-2)) s' ∧
    s'.memMap = (fun _ => 0) ∧ s'.iCount = (fun _ => 1) ∧ s'.bCount = fun _ => 0 := by
  obtain ⟨s', hrun, -⟩ := fails_of_failsWith (e := -2) (p := fun _ => true)
    (r := doExecve (fun _ _ _ _ _ => pure (0, 0)) 0xF 1 0 0 (caller [115] fun _ => some 0))
    (by decide +kernel)
  obtain ⟨hi, hb, -, -, -, -, hall⟩ := failed_execve hrun
  exact ⟨s', hrun, (hall (by rintro _ _ ⟨⟩)).1, hi, hb⟩

/-- **A page of the caller is brought in**, and stays: the name of a file that there is not is on
a page that is not there. -/
theorem not_failed_execve :
    ¬∀ start cs filename argv envp s e s',
      doExecve start cs filename argv envp s = .ok (.inl e) s' →
      s'.memMap = s.memMap ∧ s'.iCount = s.iCount ∧ s'.bCount = s.bCount ∧ s'.user = s.user ∧
        s'.tables = s.tables ∧ s'.task = s.task := by
  intro h
  obtain ⟨s', hrun, hmap⟩ := fails_of_failsWith (e := -2) (p := fun s => s.memMap 3839 == 1)
    (r := doExecve (fun _ _ _ _ _ => pure (0, 0)) 0xF 1 0 0 (caller [120] fun _ => none))
    (by decide +kernel)
  have hsame := congrFun (h _ _ _ _ _ _ _ _ hrun).1 3839
  rw [beq_iff_eq] at hmap
  rw [hmap] at hsame
  exact Nat.one_ne_zero hsame

end Linux011.Exec.Counts

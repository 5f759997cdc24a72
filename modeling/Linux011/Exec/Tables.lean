import Linux011.Exec.Copy

/-!
# What `change_ldt` and `create_tables` do

The pages with the strings become the top of the new memory
(`Linux011.Exec.wp_changeLdt`). `create_tables` then reads the strings, from `p` on, and
builds below them, without a gap: the three words that the program finds on its stack, the
table of its arguments and that of its environment (`Linux011.Exec.wp_createTables`).
-/

namespace Linux011.Exec

variable {w w' w'' : World} {a n i p t lo hi : ℕ} {bs cs s : List UInt8}
  {ss args envs : List (List UInt8)}

/-! ### The pages with the strings -/

/-- The pages are put where they belong. -/
theorem wp_putPages (hg : ∀ k, w.grant k = true) {E : Halt → World → Prop} :
    wp (putPages n) (fun _ w' =>
      (∀ j, (∀ i < n, j ≠ argPage + i) → w'.user j = w.user j) ∧
      ∀ i < n, ∀ pg, w.page i = some pg → w'.user (argPage + i) = some pg) E w := by
  induction n generalizing w with
  | zero => exact ⟨fun _ _ => rfl, fun i hi => absurd hi (Nat.not_lt_zero i)⟩
  | succ n ih =>
    rw [putPages, wp_bind, wp_get]
    cases hpage : w.page n with
    | none =>
      refine wp_post (ih hg) fun _ w' ⟨hout, hin⟩ => ⟨fun j hj => ?_, fun i hi pg hpg => ?_⟩
      · exact hout j fun i hi => hj i (by omega)
      · have hne : i ≠ n := by
          rintro rfl
          rw [hpage] at hpg
          cases hpg
        exact hin i (by omega) pg hpg
    | some pg =>
      dsimp only
      rw [wp_bind]
      refine wp_post wp_putPage ?_
      rintro r w₁ (⟨-, k, rfl⟩ | ⟨-, ⟨k, hk⟩, -⟩)
      · refine wp_post (ih hg) fun _ w' ⟨hout, hin⟩ => ⟨fun j hj => ?_, fun i hi pg' hpg => ?_⟩
        · rw [hout j fun i hi => hj i (by omega)]
          exact Function.update_of_ne (hj n (Nat.lt_succ_self n)) _ _
        · by_cases hin' : i = n
          · rw [hin', hpage] at hpg
            rw [hin', hout _ fun i hi => by omega]
            exact (Function.update_self _ _ _).trans hpg
          · exact hin i (by omega) pg' hpg
      · rw [hg] at hk
        cases hk

/-- Where the strings end in user memory. -/
def userTop : ℕ := 0x4000000 - 4

/-- **`change_ldt`**: what the pages hold is at the top of user memory. -/
theorem wp_changeLdt (hg : ∀ k, w.grant k = true) (ht : Tail w bs) (hfit : bs.length ≤ top)
    {textSize : ℕ} {E : Halt → World → Prop} :
    wp (changeLdt textSize) (fun limit w' => limit = 0x4000000 ∧
      Holds (flat w'.user) (userTop - bs.length) bs) E w := by
  unfold changeLdt
  rw [wp_bind, wp_modify, wp_bind]
  refine wp_post (wp_putPages (by exact hg)) fun _ w' hw' => ⟨rfl, fun k hk => ?_⟩
  have hb := ht k hk
  unfold flat at hb ⊢
  obtain ⟨pg, hpg, hpgb⟩ := Option.map_eq_some_iff.mp hb
  unfold top maxArgPages pageSize at *
  have hpage := hw'.2 ((4096 * 32 - 4 - bs.length + k) / 4096) (by omega) pg hpg
  unfold argPage userTop maxArgPages pageSize at *
  rw [show (0x4000000 - 4 - bs.length + k) / 4096 =
      0x4000000 / 4096 - 32 + (4096 * 32 - 4 - bs.length + k) / 4096 by omega, hpage,
    Option.map_some, ← hpgb]
  congr 2
  omega

/-! ### The tables -/

/-- What follows is stored next to what is there. -/
theorem Stored.append (h : Stored lo hi w w') (hb : Holds (flat w.user) a bs)
    (ha : a + bs.length = lo) (hc : Holds (flat w'.user) lo cs) :
    Holds (flat w'.user) a (bs ++ cs) :=
  holds_append.mpr ⟨h.holds hb (by omega), ha ▸ hc⟩

/-- What comes before is stored next to what is there. -/
theorem Stored.prepend (h : Stored lo hi w w') (hb : Holds (flat w.user) hi bs)
    (hc : Holds (flat w'.user) a cs) (ha : a + cs.length = hi) :
    Holds (flat w'.user) a (cs ++ bs) :=
  holds_append.mpr ⟨hc, ha ▸ h.holds hb (by omega)⟩

theorem Touched.holds (h : Touched w w') (hb : Holds (Exec.flat w.user) a bs) :
    Holds (Exec.flat w'.user) a bs := fun k hk => h.keeps (hb k hk)

/-- A string is read to its end. -/
theorem wp_skipString (h0 : (0 : UInt8) ∉ s) (h : Holds (flat w.user) p (s ++ [0])) :
    wp (skipString n p) (fun r w' => r = p + (s.length + 1) ∧ Touched w w') NoOverrun w := by
  induction n generalizing w p s with
  | zero => exact Halt.noConfusion
  | succ n ih =>
    rw [skipString, wp_bind]
    cases s with
    | nil =>
      have hb := content_of_flat (holds_cons.mp h).1
      refine wp_post wp_getFsByte ?_
      rintro b w' ⟨rfl, ht⟩
      exact wp_ite.mpr ⟨fun _ => ⟨rfl, ht⟩, fun hne => absurd hb hne⟩
    | cons b s =>
      obtain ⟨hb, hs⟩ := holds_cons.mp h
      obtain ⟨hb0, hs0⟩ := not_or.mp (List.mem_cons.not.mp h0)
      refine wp_post wp_getFsByte ?_
      rintro b' w' ⟨rfl, ht⟩
      refine wp_ite.mpr ⟨fun heq => absurd (heq ▸ content_of_flat hb) hb0, fun _ => ?_⟩
      refine wp_post (ih hs0 (ht.holds hs)) ?_
      rintro r w'' ⟨rfl, ht'⟩
      exact ⟨by rw [List.length_cons]; ring, ht.trans ht'⟩

/-- **The loops of `create_tables`**: the pointers of the strings are stored. -/
theorem wp_putPointers (h0 : ∀ s ∈ ss, (0 : UInt8) ∉ s) (h : Holds (flat w.user) p (block ss))
    (hle : t + 4 * ss.length ≤ p) :
    wp (putPointers t ss.length p) (fun r w' => r = p + (block ss).length ∧
      Stored t (t + 4 * ss.length) w w' ∧ Holds (flat w'.user) t (table (pointers p ss)))
      NoOverrun w := by
  induction ss generalizing w t p with
  | nil => exact ⟨rfl, (Touched.refl w).stored, holds_nil⟩
  | cons s ss ih =>
    obtain ⟨hs, hss⟩ := List.forall_mem_cons.mp h0
    rw [List.length_cons] at hle
    rw [List.length_cons, putPointers, wp_bind]
    refine wp_post wp_putFsLong fun _ w₁ ⟨hst₁, hw₁⟩ => ?_
    have h₁ := hst₁.holds h (by omega)
    rw [block_cons, ← List.singleton_append, ← List.append_assoc, holds_append] at h₁
    rw [wp_bind, wp_get, wp_bind]
    refine wp_post (wp_skipString hs h₁.1) ?_
    rintro r w₂ ⟨rfl, ht₂⟩
    have h₂ := ht₂.holds h₁.2
    rw [List.length_append, List.length_singleton] at h₂
    refine wp_post (ih hss h₂ (by omega)) ?_
    rintro r w₃ ⟨rfl, hst₃, hw₃⟩
    refine ⟨?_, ?_, ?_⟩
    · rw [block_cons, List.length_append, List.length_cons]
      ring
    · have hread : Stored t (t + 4) w₁ w₂ := ht₂.stored
      have := (hst₁.trans hread).trans hst₃
      rwa [min_self, max_self, min_eq_left (by omega), max_eq_right (by omega),
        show t + 4 + 4 * ss.length = t + 4 * (ss.length + 1) by ring] at this
    · rw [pointers, table_cons]
      exact hst₃.append (ht₂.holds hw₁) rfl hw₃

/-- What `create_tables` returns, for strings from `p` on. -/
def tablesAt (p argc envc : ℕ) : ℕ := p / 4 * 4 - 4 * (envc + 1) - 4 * (argc + 1) - 12

/-- **The tables**: the three words on the stack, and the pointers. -/
def tables (p : ℕ) (args envs : List (List UInt8)) : List ℕ :=
  let sp := tablesAt p args.length envs.length
  [args.length, sp + 12, sp + 12 + 4 * (args.length + 1)] ++ pointers p args ++ [0] ++
    pointers (p + (block args).length) envs ++ [0]

/-- **`create_tables`** -/
theorem wp_createTables (h0 : ∀ s ∈ args ++ envs, (0 : UInt8) ∉ s)
    (h : Holds (flat w.user) p (block (args ++ envs)))
    (hroom : 4 * (args.length + envs.length) + 23 ≤ p) :
    wp (createTables p args.length envs.length) (fun sp w' =>
      sp = tablesAt p args.length envs.length ∧
        Holds (flat w'.user) sp (table (tables p args envs)) ∧
          Holds (flat w'.user) p (block (args ++ envs))) NoOverrun w := by
  unfold createTables
  obtain ⟨sp, hsp⟩ : ∃ sp, tablesAt p args.length envs.length = sp := ⟨_, rfl⟩
  have hargv : p / 4 * 4 - 4 * (envs.length + 1) - 4 * (args.length + 1) = sp + 12 := by
    rw [← hsp, tablesAt]
    omega
  have henvp : p / 4 * 4 - 4 * (envs.length + 1) = sp + 12 + 4 * (args.length + 1) := by omega
  have hp : sp + 12 + 4 * (args.length + 1) + 4 * (envs.length + 1) ≤ p := by omega
  dsimp only
  rw [hargv, henvp, Nat.add_sub_cancel, show sp + 12 - 4 = sp + 8 by omega,
    show sp + 12 - 8 = sp + 4 by omega]
  have ha0 : ∀ s ∈ args, (0 : UInt8) ∉ s := fun s hs => h0 s (List.mem_append_left _ hs)
  have he0 : ∀ s ∈ envs, (0 : UInt8) ∉ s := fun s hs => h0 s (List.mem_append_right _ hs)
  rw [block_append]
  rw [block_append] at h
  -- the three words, the last first
  rw [wp_bind]
  refine wp_post wp_putFsLong fun _ w₁ ⟨hst₁, hw₁⟩ => ?_
  have hs₁ := hst₁.holds h (by omega)
  rw [wp_bind]
  refine wp_post wp_putFsLong fun _ w₂ ⟨hst₂, hw₂⟩ => ?_
  have hs₂ := hst₂.holds hs₁ (by omega)
  have ht₂ := hst₂.prepend hw₁ hw₂ rfl
  rw [wp_bind]
  refine wp_post wp_putFsLong fun _ w₃ ⟨hst₃, hw₃⟩ => ?_
  have hs₃ := hst₃.holds hs₂ (by omega)
  have ht₃ := hst₃.prepend ht₂ hw₃ rfl
  -- the table of the arguments
  rw [wp_bind]
  refine wp_post (wp_putPointers ha0 (holds_append.mp hs₃).1 (by omega)) ?_
  rintro r w₄ ⟨rfl, hst₄, hw₄⟩
  have hs₄ := hst₄.holds hs₃ (by omega)
  have ht₄ := hst₄.append ht₃ rfl hw₄
  rw [wp_bind]
  refine wp_post wp_putFsLong fun _ w₅ ⟨hst₅, hw₅⟩ => ?_
  have hs₅ := hst₅.holds hs₄ (by omega)
  have ht₅ := hst₅.append ht₄ (by simp; omega) hw₅
  -- the table of the environment
  rw [wp_bind]
  refine wp_post (wp_putPointers he0 (holds_append.mp hs₅).2 (by omega)) ?_
  rintro r w₆ ⟨rfl, hst₆, hw₆⟩
  have hs₆ := hst₆.holds hs₅ (by omega)
  have ht₆ := hst₆.append ht₅ (by simp; omega) hw₆
  rw [wp_bind]
  refine wp_post wp_putFsLong fun _ w₇ ⟨hst₇, hw₇⟩ => ?_
  have hs₇ := hst₇.holds hs₆ (by omega)
  have ht₇ := hst₇.append ht₆ (by simp; omega) hw₇
  refine ⟨hsp.symm, ?_, hs₇⟩
  unfold tables
  rw [hsp]
  simpa [List.append_assoc] using ht₇

/-! ### The end of the last page -/

/-- Where the page of an address ends; an address at which one begins is the end of the last. -/
def pageEnd (i : ℕ) : ℕ := (i + (pageSize - 1)) / pageSize * pageSize

/-- **The last loop of `do_execve`** clears memory up to the end of the page. -/
theorem wp_clearTail (hn : pageEnd i ≤ i + n) :
    wp (clearTail n i) (fun _ w' => ∀ x b, flat w.user x = some b →
      flat w'.user x = cleared (flat w.user) i (pageEnd i) x) NoOverrun w := by
  induction n generalizing w i with
  | zero =>
    intro x b hb
    unfold cleared
    rw [if_neg (by omega)]
  | succ n ih =>
    rw [clearTail]
    refine wp_ite.mpr ⟨fun h0 => ?_, fun hne => ?_⟩
    · intro x b hb
      unfold cleared
      rw [if_neg]
      unfold pageEnd pageSize at *
      omega
    · have hend : pageEnd (i + 1) = pageEnd i := by
        unfold pageEnd pageSize at *
        omega
      have hlt : i < pageEnd i := by
        unfold pageEnd pageSize at *
        omega
      rw [wp_bind]
      refine wp_post wp_putFsByte fun _ w₁ ⟨hst, hb₁⟩ => ?_
      refine wp_post (ih (by rw [hend]; omega)) fun _ w' hw' x b hb => ?_
      rw [hend] at hw'
      by_cases hx : x = i
      · rw [hw' x 0 (hx ▸ hb₁), cleared, if_neg (by omega), hx, hb₁, cleared,
          if_pos ⟨le_rfl, hlt⟩]
      · have hxb := hst.keeps x b (by omega) hb
        rw [hw' x b hxb]
        unfold cleared
        by_cases hin : i + 1 ≤ x ∧ x < pageEnd i
        · rw [if_pos hin, if_pos ⟨by omega, hin.2⟩]
        · rw [if_neg hin, if_neg (by omega), hxb, hb]

end Linux011.Exec

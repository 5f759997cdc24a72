import Linux011.Exec.Access
import Linux011.Exec.Execve

/-!
# What `copy_strings` does

The pages hold the strings that have been copied so far up to `Linux011.Exec.top`, and
`p` is where they begin (`Linux011.Exec.Stacked`). A byte that is copied comes in front of
the others; so do the strings of a call, in their order, though they are copied the last
one first and each from its end (`Linux011.Exec.wp_copyStrings`). Nothing of this is seen
in user memory.
-/

namespace Linux011.Exec

variable {w w' w'' : World} {a n x len p : ℕ} {b : UInt8} {bs l s : List UInt8}
  {ss : List (List UInt8)} {src : Source} {c : Cursor}

/-! ### What is read -/

/-- **User memory is as it was**; the pages of the kernel may not be. -/
structure Unseen (w w' : World) : Prop where
  content : w'.content = w.content
  files : w'.files = w.files
  bootBlock : w'.bootBlock = w.bootBlock
  grant : w'.grant = w.grant

namespace Unseen

theorem refl (w : World) : Unseen w w := ⟨rfl, rfl, rfl, rfl⟩

theorem trans (h : Unseen w w') (h' : Unseen w' w'') : Unseen w w'' :=
  ⟨h'.content.trans h.content, h'.files.trans h.files, h'.bootBlock.trans h.bootBlock,
    h'.grant.trans h.grant⟩

theorem memory (h : Unseen w w') : w'.memory = w.memory := by
  unfold World.memory
  rw [h.content]

end Unseen

theorem Touched.unseen (h : Touched w w') : Unseen w w' ∧ w'.page = w.page := by
  refine ⟨⟨h.content, ?_, ?_, ?_⟩, ?_⟩ <;> rw [h.same]

/-- The bytes a source is read from. -/
def Source.bytes (w : World) : Source → ℕ → Option UInt8
  | .user _, a => w.memory a
  | .name _, a => w.memory a
  | .kernel s, a => some (s.getD (a - 1) 0)

/-- The pointers. -/
def Source.pointerAt (w : World) : Source → ℕ → ℕ
  | .user argv, i => wordAt w.content (argv + 4 * i)
  | .name filename, _ => filename
  | .kernel _, _ => 1

/-- **The source has the strings.** -/
def Source.Gives (src : Source) (w : World) (ss : List (List UInt8)) : Prop :=
  ∀ i (h : i < ss.length), HoldsString (src.bytes w) (src.pointerAt w i) ss[i]

theorem Unseen.bytes (h : Unseen w w') (src : Source) : src.bytes w' = src.bytes w := by
  cases src <;> unfold Source.bytes
  · rw [h.memory]
  · rw [h.memory]
  · rfl

theorem Unseen.pointerAt (h : Unseen w w') (src : Source) :
    src.pointerAt w' = src.pointerAt w := by
  cases src <;> unfold Source.pointerAt
  · rw [h.content]
  · rfl
  · rfl

theorem Unseen.gives (h : Unseen w w') (hs : src.Gives w ss) : src.Gives w' ss := by
  unfold Source.Gives
  rw [h.bytes, h.pointerAt]
  exact hs

theorem wp_byte (h : src.bytes w a = some b) :
    wp (src.byte a) (fun b' w' => b' = b ∧ Touched w w') NoOverrun w := by
  cases src with
  | user argv =>
    refine wp_post wp_getFsByte ?_
    rintro b' w' ⟨rfl, ht⟩
    exact ⟨Option.some.inj h, ht⟩
  | name filename =>
    refine wp_post wp_getFsByte ?_
    rintro b' w' ⟨rfl, ht⟩
    exact ⟨Option.some.inj h, ht⟩
  | kernel s => exact ⟨Option.some.inj h, .refl w⟩

theorem wp_pointer : wp (src.pointer n) (fun v w' => v = src.pointerAt w n ∧ Touched w w')
    NoOverrun w := by
  cases src with
  | user argv => exact wp_getFsLong
  | name filename => exact ⟨rfl, .refl w⟩
  | kernel s => exact ⟨rfl, .refl w⟩

/-- The length of a string, with its end. -/
theorem wp_strLen (h : HoldsString (src.bytes w) a s) :
    wp (strLen src n a) (fun len w' => len = s.length + 1 ∧ Touched w w') NoOverrun w := by
  induction n generalizing w a s with
  | zero => exact Halt.noConfusion
  | succ n ih =>
    rw [strLen, wp_bind]
    obtain ⟨h0, h⟩ := h
    cases s with
    | nil =>
      refine wp_post (wp_byte (holds_cons.mp h).1) ?_
      rintro b w' ⟨rfl, ht⟩
      exact wp_ite.mpr ⟨fun _ => ⟨rfl, ht⟩, fun hb => absurd rfl hb⟩
    | cons b s =>
      obtain ⟨hb, hs⟩ := holds_cons.mp h
      obtain ⟨hb0, hs0⟩ := not_or.mp (List.mem_cons.not.mp h0)
      refine wp_post (wp_byte hb) ?_
      rintro b' w' ⟨rfl, ht⟩
      refine wp_ite.mpr ⟨fun hb' => absurd hb'.symm hb0, fun _ => ?_⟩
      rw [wp_bind]
      refine wp_post (ih ⟨hs0, ht.unseen.1.bytes src ▸ hs⟩) ?_
      rintro len w'' ⟨rfl, ht'⟩
      exact ⟨rfl, ht.trans ht'⟩

/-! ### What is stored -/

/-- **The pages hold the bytes** up to the top. -/
def Tail (w : World) (bs : List UInt8) : Prop := Holds (flat w.page) (top - bs.length) bs

/-- Where the cursor is: in the page that `p` is in, or where it has to look for one. -/
def Cursor.Ok (w : World) (c : Cursor) : Prop :=
  c.offset = 0 ∨ c.offset = c.p % pageSize ∧ c.pag = c.p / pageSize ∧ (w.page c.pag).isSome

/-- The cursor is in its page. -/
structure Cursor.In (w : World) (c : Cursor) : Prop where
  offset : c.offset = c.p % pageSize
  pag : c.pag = c.p / pageSize
  page : (w.page c.pag).isSome

/-- **The cursor goes down one byte**, to the page below if need be. -/
theorem wp_turn (hc : c.Ok w) (hp : 0 < c.p) (ht : Tail w bs) :
    wp (turn c) (fun r w' => Unseen w w' ∧
      ∀ c' ∈ r, c'.p = c.p - 1 ∧ c'.In w' ∧ Tail w' bs) NoOverrun w := by
  unfold turn
  refine wp_ite.mpr ⟨fun h => absurd h (by omega), fun _ => wp_ite.mpr ⟨fun h => ?_, fun h => ?_⟩⟩
  · obtain ⟨ho, hpag, hpage⟩ := hc.resolve_left h
    refine ⟨.refl w, fun c' hc' => ?_⟩
    obtain rfl := (Option.mem_some.mp hc').symm
    refine ⟨rfl, ⟨?_, ?_, hpage⟩, ht⟩
    · change c.offset - 1 = (c.p - 1) % pageSize
      unfold pageSize at ho ⊢
      omega
    · change c.pag = (c.p - 1) / pageSize
      unfold pageSize at ho hpag ⊢
      omega
  · dsimp only
    rw [wp_bind, wp_get]
    refine wp_ite.mpr ⟨fun hpage => ?_, fun hpage => ?_⟩
    · refine ⟨.refl w, fun c' hc' => ?_⟩
      obtain rfl := (Option.mem_some.mp hc').symm
      exact ⟨rfl, ⟨rfl, rfl, hpage⟩, ht⟩
    · rw [wp_bind, wp_getFreePage]
      refine wp_ite.mpr ⟨fun _ => ?_, fun _ => ⟨⟨rfl, rfl, rfl, rfl⟩, fun c' hc' => by cases hc'⟩⟩
      rw [wp_bind, wp_modify, wp_pure]
      refine ⟨⟨rfl, rfl, rfl, rfl⟩, fun c' hc' => ?_⟩
      obtain rfl := (Option.mem_some.mp hc').symm
      refine ⟨rfl, ⟨rfl, rfl, ?_⟩, fun k hk => ?_⟩
      · change (Function.update w.page _ (some _) _).isSome = true
        rw [Function.update_self]
        rfl
      · -- what the pages hold is not in the page that has been missing
        have hb := ht k hk
        change flat (Function.update w.page _ (some _)) _ = _
        rw [flat_update, if_neg, hb]
        intro heq
        rw [flat, heq, Option.not_isSome_iff_eq_none.mp hpage] at hb
        cases hb

/-- A byte is stored in front of the others. -/
theorem Tail.cons (ht : Tail w bs) (hc : c.In w) (hp : c.p + 1 = top - bs.length) :
    Tail { w with page := setFlat w.page c.pag c.offset b } (b :: bs) := by
  have hlen : top - (b :: bs).length = c.p := by
    rw [List.length_cons]
    omega
  have hpage : (w.page (c.p / pageSize)).isSome := hc.pag ▸ hc.page
  unfold Tail
  rw [hlen, holds_cons, hc.pag, hc.offset]
  refine ⟨by rw [flat_setFlat hpage, if_pos rfl], ?_⟩
  rw [hp]
  refine Holds.congr ht fun x hx _ => ?_
  rw [flat_setFlat hpage, if_neg (by omega)]

theorem Cursor.In.ok_setFlat (hc : c.In w) :
    c.Ok { w with page := setFlat w.page c.pag c.offset b } :=
  Or.inr ⟨hc.offset, hc.pag, isSome_setFlat.trans hc.page⟩

/-- **The loop over the bytes**: the cursor is left in front of them. -/
theorem wp_copyBytes (hl : Holds (src.bytes w) a l) (hc : c.Ok w) (hp : c.p = top - bs.length)
    (hfit : (l ++ bs).length ≤ top) (ht : Tail w bs) :
    wp (copyBytes src l.length (a + l.length) c) (fun r w' => Unseen w w' ∧
      ∀ c' ∈ r, c'.Ok w' ∧ c'.p = top - (l ++ bs).length ∧ Tail w' (l ++ bs)) NoOverrun w := by
  induction l using List.reverseRecOn generalizing w c bs with
  | nil =>
    refine ⟨.refl w, fun c' hc' => ?_⟩
    obtain rfl := (Option.mem_some.mp hc').symm
    exact ⟨hc, hp, ht⟩
  | append_singleton l b ih =>
    rw [List.append_assoc, List.singleton_append] at hfit ⊢
    rw [List.length_append, List.length_singleton, ← Nat.add_assoc]
    rw [List.length_append, List.length_cons] at hfit
    obtain ⟨hrest, hb⟩ := holds_append.mp hl
    rw [copyBytes, wp_bind]
    refine wp_post (wp_turn hc (by omega) ht) ?_
    rintro r w₁ ⟨hu₁, hr⟩
    cases r with
    | none => exact ⟨hu₁, fun c' hc' => by cases hc'⟩
    | some c₁ =>
      obtain ⟨hp₁, hin, ht₁⟩ := hr c₁ rfl
      dsimp only
      rw [Nat.add_sub_cancel, wp_bind]
      have hb₁ : src.bytes w₁ (a + l.length) = some b := by
        rw [hu₁.bytes]
        exact (holds_cons.mp hb).1
      refine wp_post (wp_byte hb₁) ?_
      rintro b' w₂ ⟨rfl, htouch⟩
      obtain ⟨hu₂, hpage⟩ := htouch.unseen
      rw [wp_bind, wp_modify]
      have hin₂ : c₁.In w₂ := ⟨hin.offset, hin.pag, hpage ▸ hin.page⟩
      have ht₂ : Tail w₂ bs := by
        unfold Tail
        rw [hpage]
        exact ht₁
      have hu₃ : Unseen w { w₂ with page := setFlat w₂.page c₁.pag c₁.offset b' } :=
        (hu₁.trans hu₂).trans ⟨rfl, rfl, rfl, rfl⟩
      refine wp_post (ih (hu₃.bytes src ▸ hrest) hin₂.ok_setFlat ?_ ?_
        (ht₂.cons hin₂ (by omega))) fun r w' h => ⟨hu₃.trans h.1, h.2⟩
      · rw [List.length_cons]
        omega
      · rw [List.length_append, List.length_cons]
        omega

/-- **The strings that have been copied**, from `p` on; `p` is 0 if it has failed. -/
def Stacked (p : ℕ) (w : World) (bs : List UInt8) : Prop :=
  p = 0 ∨ p = top - bs.length ∧ Tail w bs

/-- Nothing has been copied. -/
theorem stacked_top : Stacked top w [] := Or.inr ⟨rfl, holds_nil⟩

/-- **The loop over the strings.** -/
theorem wp_copyLoop (hs : src.Gives w ss) (hc : c.Ok w) (hp : c.p = top - bs.length)
    (hfit : (block ss ++ bs).length ≤ top) (ht : Tail w bs) :
    wp (copyLoop src ss.length c) (fun p' w' => Unseen w w' ∧ Stacked p' w' (block ss ++ bs))
      NoOverrun w := by
  induction ss using List.reverseRecOn generalizing w c bs with
  | nil => exact ⟨.refl w, Or.inr ⟨hp, ht⟩⟩
  | append_singleton ss s ih =>
    rw [block_append, block_cons, block_nil, List.append_assoc] at hfit ⊢
    rw [List.length_append] at hfit
    rw [List.length_append, List.length_singleton, copyLoop, wp_bind]
    have hstr := hs ss.length (by rw [List.length_append]; exact Nat.lt_succ_self _)
    rw [List.getElem_append_right le_rfl] at hstr
    simp only [Nat.sub_self, List.getElem_singleton] at hstr
    refine wp_post wp_pointer ?_
    rintro v w₁ ⟨rfl, hr₁⟩
    refine wp_ite.mpr ⟨fun _ => Halt.noConfusion, fun _ => ?_⟩
    obtain ⟨hu₁, hpage₁⟩ := hr₁.unseen
    rw [wp_bind, wp_get, wp_bind]
    refine wp_post (wp_strLen (hu₁.bytes src ▸ hstr)) ?_
    rintro len w₂ ⟨rfl, hr₂⟩
    obtain ⟨hu₂, hpage₂⟩ := hr₂.unseen
    have hpage : w₂.page = w.page := hpage₂.trans hpage₁
    have hu : Unseen w w₂ := hu₁.trans hu₂
    rw [wp_bind]
    have hlen : s.length + 1 = (s ++ [0]).length := by rw [List.length_append]; rfl
    rw [hlen]
    have hc₂ : c.Ok w₂ := by
      unfold Cursor.Ok
      rw [hpage]
      exact hc
    have ht₂ : Tail w₂ bs := by
      unfold Tail
      rw [hpage]
      exact ht
    refine wp_post (wp_copyBytes (hu.bytes src ▸ hstr.2) hc₂ hp (by omega) ht₂) ?_
    rintro r w₃ ⟨hu₃, hr⟩
    cases r with
    | none => exact ⟨hu.trans hu₃, Or.inl rfl⟩
    | some c' =>
      obtain ⟨hc', hp', ht'⟩ := hr c' rfl
      have hgives : src.Gives w₃ ss := (hu.trans hu₃).gives fun i hi => by
        have := hs i (by rw [List.length_append]; omega)
        rwa [List.getElem_append_left hi] at this
      refine wp_post (ih hgives hc' hp' ?_ ht') fun p' w' h => ⟨(hu.trans hu₃).trans h.1, h.2⟩
      rw [List.length_append]
      exact hfit

/-- **`copy_strings`** puts the strings in front of the others. -/
theorem wp_copyStrings (hs : src.Gives w ss) (hp : Stacked p w bs)
    (hfit : (block ss ++ bs).length ≤ top) :
    wp (copyStrings ss.length src p) (fun p' w' => Unseen w w' ∧ Stacked p' w' (block ss ++ bs))
      NoOverrun w := by
  unfold copyStrings
  refine wp_ite.mpr ⟨fun _ => ⟨.refl w, Or.inl rfl⟩, fun h0 => ?_⟩
  obtain ⟨hp, ht⟩ := hp.resolve_left h0
  exact wp_copyLoop hs (Or.inl rfl) hp hfit ht

end Linux011.Exec

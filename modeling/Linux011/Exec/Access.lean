import Linux011.Exec.Space

/-!
# What an access to user memory does

An access may bring a page in (`Linux011.Exec.Touched`), which nobody sees: what is at an
address stays what it was. So `get_fs_byte` returns what is there, and `put_fs_byte` changes
one byte of the pages there are.
-/

namespace Linux011.Exec

variable {w w' w'' : World} {pages : ℕ → Option Page} {a n off x : ℕ} {b : UInt8} {pg : Page}
  {bs : List UInt8}

/-- Whatever ends the task here, no page beyond the array is taken. -/
abbrev NoOverrun : Halt → World → Prop := fun h _ => h ≠ .overrun

/-! ### Bytes of pages -/

theorem div_pageSize_eq {a x : ℕ} : x / pageSize = a / pageSize ∧ x % pageSize = a % pageSize ↔
    x = a := by
  refine ⟨fun h => ?_, fun h => h ▸ ⟨rfl, rfl⟩⟩
  rw [← Nat.div_add_mod x pageSize, ← Nat.div_add_mod a pageSize, h.1, h.2]

theorem flat_update : flat (Function.update pages n (some pg)) x =
    if x / pageSize = n then some (pg (x % pageSize)) else flat pages x := by
  unfold flat
  split
  · next h =>
    rw [h, Function.update_self]
    rfl
  · next h => rw [Function.update_of_ne h]

/-- One byte is stored. -/
theorem flat_setFlat (h : (pages (a / pageSize)).isSome) :
    flat (setFlat pages (a / pageSize) (a % pageSize) b) x =
      if x = a then some b else flat pages x := by
  obtain ⟨pg, hpg⟩ := Option.isSome_iff_exists.mp h
  unfold setFlat
  rw [hpg, Option.map_some, flat_update]
  by_cases hn : x / pageSize = a / pageSize
  · rw [if_pos hn]
    by_cases ho : x % pageSize = a % pageSize
    · rw [ho, Function.update_self, if_pos (div_pageSize_eq.mp ⟨hn, ho⟩)]
    · rw [Function.update_of_ne ho, if_neg fun h => ho (congrArg (· % pageSize) h), flat, hn, hpg]
      rfl
  · rw [if_neg hn, if_neg fun h => hn (congrArg (· / pageSize) h)]

theorem isSome_setFlat : (setFlat pages n off b a).isSome = (pages a).isSome := by
  unfold setFlat
  by_cases h : a = n
  · rw [h, Function.update_self, Option.isSome_map]
  · rw [Function.update_of_ne h]

/-- User memory, as a memory that holds all its bytes. -/
def World.memory (w : World) (a : ℕ) : Option UInt8 := some (w.content a)

theorem content_of_flat (h : flat w.user a = some b) : w.content a = b := by
  unfold World.content
  rw [h, Option.getD_some]

/-! ### Pages that are brought in -/

/-- **Pages have been brought in**, and nothing else has happened. -/
structure Touched (w w' : World) : Prop where
  same : w' = { w with user := w'.user, pageTable := w'.pageTable, asked := w'.asked }
  flat : ∀ x, flat w'.user x = flat w.user x ∨
    flat w.user x = none ∧ flat w'.user x = some (w.demand x)

namespace Touched

theorem refl (w : World) : Touched w w := ⟨rfl, fun _ => Or.inl rfl⟩

theorem demand (h : Touched w w') : w'.demand = w.demand := by
  funext x
  rw [h.same]
  rfl

theorem trans (h : Touched w w') (h' : Touched w' w'') : Touched w w'' := by
  refine ⟨?_, fun x => ?_⟩
  · rw [h'.same, h.same]
  · rcases h.flat x with hx | ⟨hx, hx'⟩ <;> rcases h'.flat x with hy | ⟨hy, hy'⟩
    · exact Or.inl (hy.trans hx)
    · exact Or.inr ⟨hx ▸ hy, h.demand ▸ hy'⟩
    · exact Or.inr ⟨hx, hy.trans hx'⟩
    · rw [hx'] at hy
      cases hy

/-- Nobody sees it. -/
theorem content (h : Touched w w') : w'.content = w.content := by
  funext x
  unfold World.content
  rw [h.demand]
  rcases h.flat x with hx | ⟨hx, hx'⟩
  · rw [hx]
  · rw [hx, hx', Option.getD_some, Option.getD_none]

theorem memory (h : Touched w w') : w'.memory = w.memory := by
  unfold World.memory
  rw [h.content]

/-- What there was of pages is still there. -/
theorem keeps (h : Touched w w') (hx : Exec.flat w.user x = some b) :
    Exec.flat w'.user x = some b := by
  rcases h.flat x with h' | ⟨h', -⟩
  · rw [h', hx]
  · rw [h'] at hx
    cases hx

end Touched

theorem wp_getFreePage {Q : Bool → World → Prop} {E : Halt → World → Prop} :
    wp getFreePage Q E w ↔ Q (w.grant w.asked) { w with asked := w.asked + 1 } := Iff.rfl

/-- **`put_page`** does it, if there are pages. -/
theorem wp_putPage {E : Halt → World → Prop} : wp (putPage pg n) (fun r w' =>
    (r = true ∧ ∃ k, w' = { w.mapPage pg n with asked := k }) ∨
      (r = false ∧ (∃ k, w.grant k = false) ∧ ∃ k, w' = { w with asked := k })) E w := by
  unfold putPage
  rw [wp_bind, wp_get]
  refine wp_ite.mpr ⟨fun _ => ?_, fun _ => ?_⟩
  · rw [wp_bind, wp_modify, wp_pure]
    exact Or.inl ⟨rfl, _, rfl⟩
  · rw [wp_bind, wp_getFreePage]
    refine wp_ite.mpr ⟨fun _ => ?_, fun hg => ?_⟩
    · rw [wp_bind, wp_modify, wp_pure]
      exact Or.inl ⟨rfl, _, rfl⟩
    · exact Or.inr ⟨rfl, ⟨_, Bool.eq_false_iff.mpr hg⟩, _, rfl⟩

/-- **`do_no_page`** -/
theorem wp_doNoPage (h : w.user n = none) :
    wp (doNoPage n) (fun _ w' => Touched w w' ∧ (w'.user n).isSome) NoOverrun w := by
  unfold doNoPage
  rw [wp_bind, wp_get, wp_bind, wp_getFreePage]
  refine wp_ite.mpr ⟨fun _ => ?_, fun _ => Halt.noConfusion⟩
  rw [wp_bind]
  refine wp_mono wp_putPage ?_ fun e s he => he
  rintro r w' (⟨rfl, k, rfl⟩ | ⟨rfl, -⟩)
  · refine wp_ite.mpr ⟨fun _ => ⟨⟨rfl, fun x => ?_⟩, ?_⟩, fun hr => absurd rfl hr⟩
    · change flat (Function.update w.user n (some _)) x = _ ∨ _ ∧
        flat (Function.update w.user n (some _)) x = _
      rw [flat_update]
      split
      · next hx =>
        right
        rw [flat, hx, h, ← hx, Nat.div_add_mod]
        exact ⟨rfl, rfl⟩
      · exact Or.inl rfl
    · change (Function.update w.user n (some _) n).isSome = true
      rw [Function.update_self]
      rfl
  · exact wp_ite.mpr ⟨fun hr => (Bool.false_ne_true hr).elim, fun _ => Halt.noConfusion⟩

theorem wp_touch : wp (touch a) (fun _ w' => Touched w w' ∧ (w'.user (a / pageSize)).isSome)
    NoOverrun w := by
  unfold touch
  rw [wp_bind, wp_get]
  refine wp_ite.mpr ⟨fun _ => Halt.noConfusion, fun _ => wp_ite.mpr ⟨fun h => ?_, fun h => ?_⟩⟩
  · exact wp_doNoPage (Option.isNone_iff_eq_none.mp h)
  · exact ⟨.refl w, Option.isSome_iff_ne_none.mpr fun h' => h (Option.isNone_iff_eq_none.mpr h')⟩

/-- **`get_fs_byte`** -/
theorem wp_getFsByte :
    wp (getFsByte a) (fun b w' => b = w.content a ∧ Touched w w') NoOverrun w := by
  unfold getFsByte
  rw [wp_bind]
  refine wp_post wp_touch fun _ w' h => ?_
  rw [wp_bind, wp_get, wp_pure, h.1.content]
  exact ⟨rfl, h.1⟩

/-- **`get_fs_long`** -/
theorem wp_getFsLong :
    wp (getFsLong a) (fun v w' => v = wordAt w.content a ∧ Touched w w') NoOverrun w := by
  unfold getFsLong
  rw [wp_bind]
  refine wp_post wp_getFsByte ?_
  rintro b0 w₀ ⟨rfl, h₀⟩
  rw [wp_bind]
  refine wp_post wp_getFsByte ?_
  rintro b1 w₁ ⟨rfl, h₁⟩
  rw [wp_bind]
  refine wp_post wp_getFsByte ?_
  rintro b2 w₂ ⟨rfl, h₂⟩
  rw [wp_bind]
  refine wp_post wp_getFsByte ?_
  rintro b3 w₃ ⟨rfl, h₃⟩
  rw [wp_pure, h₂.content, h₁.content, h₀.content]
  exact ⟨rfl, ((h₀.trans h₁).trans h₂).trans h₃⟩

/-! ### Bytes that are stored -/

/-- **Memory has changed between `lo` and `hi` only**, as far as there are pages. -/
structure Stored (lo hi : ℕ) (w w' : World) : Prop where
  same : w' = { w with user := w'.user, pageTable := w'.pageTable, asked := w'.asked }
  keeps : ∀ x b, x < lo ∨ hi ≤ x → flat w.user x = some b → flat w'.user x = some b

theorem Touched.stored {lo hi : ℕ} (h : Touched w w') : Stored lo hi w w' :=
  ⟨h.same, fun _ _ _ hx => h.keeps hx⟩

theorem Stored.trans {lo hi lo' hi' : ℕ} (h : Stored lo hi w w') (h' : Stored lo' hi' w' w'') :
    Stored (min lo lo') (max hi hi') w w'' := by
  refine ⟨?_, fun x b hx hb => h'.keeps x b (by omega) (h.keeps x b (by omega) hb)⟩
  rw [h'.same, h.same]

/-- Bytes elsewhere are held. -/
theorem Stored.holds {lo hi : ℕ} (h : Stored lo hi w w') (hb : Holds (flat w.user) a bs)
    (hd : a + bs.length ≤ lo ∨ hi ≤ a) : Holds (flat w'.user) a bs := fun k hk =>
  h.keeps _ _ (by omega) (hb k hk)

/-- **`put_fs_byte`** -/
theorem wp_putFsByte : wp (putFsByte b a) (fun _ w' => Stored a (a + 1) w w' ∧
    flat w'.user a = some b) NoOverrun w := by
  unfold putFsByte
  rw [wp_bind]
  refine wp_post wp_touch fun _ w' h => ?_
  rw [wp_modify]
  refine ⟨⟨?_, fun x c hx hc => ?_⟩, ?_⟩
  · rw [h.1.same]
  · change flat (setFlat w'.user _ _ b) x = _
    rw [flat_setFlat h.2, if_neg (by omega)]
    exact h.1.keeps hc
  · change flat (setFlat w'.user _ _ b) a = _
    rw [flat_setFlat h.2, if_pos rfl]

/-- Bytes are stored one after another. -/
theorem wp_putBytes : wp (putBytes bs a) (fun _ w' => Stored a (a + bs.length) w w' ∧
    Holds (flat w'.user) a bs) NoOverrun w := by
  induction bs generalizing a w with
  | nil => exact ⟨(Touched.refl w).stored, holds_nil⟩
  | cons b bs ih =>
    rw [putBytes, wp_bind]
    refine wp_post wp_putFsByte fun _ w₁ ⟨hs, hb⟩ => wp_post ih fun _ w₂ ⟨hs', hbs⟩ => ?_
    refine ⟨?_, holds_cons.mpr ⟨hs'.keeps a b (by omega) hb, hbs⟩⟩
    have := hs.trans hs'
    rwa [min_eq_left (by omega), max_eq_right (by omega),
      show a + 1 + bs.length = a + (b :: bs).length by rw [List.length_cons]; ring] at this

/-- **`put_fs_long`** -/
theorem wp_putFsLong {v : ℕ} : wp (putFsLong v a) (fun _ w' => Stored a (a + 4) w w' ∧
    Holds (flat w'.user) a (wordBytes v)) NoOverrun w := wp_putBytes

end Linux011.Exec

import Mathlib.Data.List.Nodup
import Mathlib.Data.List.Basic
import Mathlib.Logic.Function.Basic

/-!
# Doubly linked lists

Nodes with a `next` and a `prev` pointer, as functions into `Option`: a null pointer
is `none`. `Linux011.Seg next prev p l q` says that the nodes of `l` are linked in
that order, that the first points back to `p` and the last forward to `q`. A chain
that ends in null pointers is a segment from `none` to `none`; a ring is a segment
whose ends point at each other (`Linux011.Ring`).

Three changes are all that code does to such lists: a node is unlinked
(`Linux011.Seg.unlink`, `Linux011.Ring.unlink`), a node is pushed in front
(`Linux011.Seg.push`), a node is added at the end of a ring (`Linux011.Ring.append`).
Rings may be read from any of their nodes (`Linux011.Ring.rotate`), which is what
reduces unlinking somewhere in a ring to unlinking its first node.
-/

namespace Linux011

variable {ι : Type} [DecidableEq ι]

/-! ### Segments -/

/-- **The nodes of `l` are linked in that order**, between `p` and `q`. -/
def Seg (next prev : ι → Option ι) : Option ι → List ι → Option ι → Prop
  | _, [], _ => True
  | p, a :: l, q => prev a = p ∧ next a = l.head?.or q ∧ Seg next prev (some a) l q

/-- `x->field = v`, unless `x` is null. -/
def setLink (f : ι → Option ι) (x : Option ι) (v : Option ι) : ι → Option ι :=
  match x with
  | some a => Function.update f a v
  | none => f

variable {next prev next' prev' : ι → Option ι} {p q p' q' : Option ι} {l l₁ l₂ : List ι} {a b : ι}

theorem setLink_of_notMem {x : Option ι} (h : ∀ a ∈ x, a ≠ b) (f : ι → Option ι) (v : Option ι) :
    setLink f x v b = f b := by
  cases x with
  | none => rfl
  | some a => exact Function.update_of_ne (h a rfl).symm v f

theorem setLink_some (f : ι → Option ι) (a : ι) (v : Option ι) :
    setLink f (some a) v a = v := by
  exact Function.update_self a v f

/-- What is stored does not depend on what was there elsewhere. -/
theorem setLink_congr {f g : ι → Option ι} (h : f b = g b) (x v : Option ι) :
    setLink f x v b = setLink g x v b := by
  cases x with
  | none => exact h
  | some a =>
    by_cases hab : b = a
    · rw [hab, setLink_some, setLink_some]
    · exact (Function.update_of_ne hab v f).trans (h.trans (Function.update_of_ne hab v g).symm)

omit [DecidableEq ι] in
theorem seg_append : Seg next prev p (l₁ ++ l₂) q ↔
    Seg next prev p l₁ (l₂.head?.or q) ∧ Seg next prev (l₁.getLast?.or p) l₂ q := by
  induction l₁ generalizing p with
  | nil => simp [Seg]
  | cons a l₁ ih =>
    have hhead : (l₁ ++ l₂).head?.or q = l₁.head?.or (l₂.head?.or q) := by
      cases l₁ <;> simp
    have hlast : l₁.getLast?.or (some a) = (a :: l₁).getLast?.or p := by
      cases l₁ with
      | nil => simp
      | cons b l => simp [List.getLast?_cons]
    rw [List.cons_append, Seg, Seg, ih, hhead, hlast]
    exact ⟨fun ⟨h1, h2, h3, h4⟩ => ⟨⟨h1, h2, h3⟩, h4⟩, fun ⟨⟨h1, h2, h3⟩, h4⟩ => ⟨h1, h2, h3, h4⟩⟩

omit [DecidableEq ι] in
/-- **Only the pointers of the nodes themselves matter.** -/
theorem Seg.congr (h : Seg next prev p l q) (hn : ∀ a ∈ l, next' a = next a)
    (hp : ∀ a ∈ l, prev' a = prev a) : Seg next' prev' p l q := by
  induction l generalizing p with
  | nil => trivial
  | cons a l ih =>
    obtain ⟨h1, h2, h3⟩ := h
    exact ⟨(hp a List.mem_cons_self).trans h1, (hn a List.mem_cons_self).trans h2,
      ih h3 (fun b hb => hn b (List.mem_cons_of_mem a hb))
        fun b hb => hp b (List.mem_cons_of_mem a hb)⟩

/-- The last node is made to point elsewhere. -/
theorem Seg.setExit (h : Seg next prev p l q) (hl : l.Nodup) (q' : Option ι) :
    Seg (setLink next l.getLast? q') prev p l q' := by
  induction l generalizing p with
  | nil => trivial
  | cons a l ih =>
    obtain ⟨h1, h2, h3⟩ := h
    obtain ⟨ha, hl⟩ := List.nodup_cons.mp hl
    cases l with
    | nil => exact ⟨h1, setLink_some next a q', trivial⟩
    | cons b l =>
      have hlast : (a :: b :: l).getLast? = (b :: l).getLast? := by simp
      rw [hlast]
      refine ⟨h1, ?_, ih h3 hl⟩
      rw [setLink_of_notMem, h2]
      · simp
      · rintro c hc rfl
        exact ha (List.mem_of_getLast? hc)

/-- The first node is made to point elsewhere. -/
theorem Seg.setEntry (h : Seg next prev p l q) (hl : l.Nodup) (p' : Option ι) :
    Seg next (setLink prev l.head? p') p' l q := by
  cases l with
  | nil => trivial
  | cons a l =>
    obtain ⟨-, h2, h3⟩ := h
    obtain ⟨ha, -⟩ := List.nodup_cons.mp hl
    refine ⟨setLink_some prev a p', h2, h3.congr (fun _ _ => rfl) fun b hb => ?_⟩
    refine setLink_of_notMem ?_ prev p'
    rintro c hc rfl
    obtain rfl := Option.some.inj hc
    exact ha hb

omit [DecidableEq ι] in
/-- The pointers of a node in a segment. -/
theorem Seg.next_eq (h : Seg next prev p (l₁ ++ b :: l₂) q) : next b = l₂.head?.or q :=
  (seg_append.mp h).2.2.1

omit [DecidableEq ι] in
theorem Seg.prev_eq (h : Seg next prev p (l₁ ++ b :: l₂) q) : prev b = l₁.getLast?.or p :=
  (seg_append.mp h).2.1

/-- **A node is unlinked**: its neighbours in the segment are made to point at each
other. -/
theorem Seg.unlink (h : Seg next prev p (l₁ ++ b :: l₂) q) (hl : (l₁ ++ b :: l₂).Nodup) :
    Seg (setLink next l₁.getLast? (next b)) (setLink prev l₂.head? (prev b)) p (l₁ ++ l₂) q := by
  have hdisj : ∀ c ∈ l₁, c ∉ l₂ := fun c h1 h2 =>
    (List.nodup_append.mp hl).2.2 c h1 c (List.mem_cons_of_mem b h2) rfl
  have hl₁ : l₁.Nodup := (List.nodup_append.mp hl).1
  have hl₂ : l₂.Nodup := (List.nodup_cons.mp (List.nodup_append.mp hl).2.1).2
  rw [h.next_eq, h.prev_eq]
  obtain ⟨h1, -, -, h2⟩ := seg_append.mp h
  refine seg_append.mpr ⟨?_, ?_⟩
  · refine (h1.setExit hl₁ _).congr (fun c _ => rfl) fun c hc => ?_
    refine setLink_of_notMem (fun d hd => ?_) prev _
    rintro rfl
    exact hdisj d hc (List.mem_of_head? hd)
  · refine (h2.setEntry hl₂ _).congr (fun c hc => ?_) fun c _ => rfl
    refine setLink_of_notMem (fun d hd => ?_) next _
    rintro rfl
    exact hdisj d (List.mem_of_getLast? hd) hc

/-- **A node is pushed in front** of a chain. -/
theorem Seg.push (h : Seg next prev p l q) (hl : l.Nodup) (hb : b ∉ l) :
    Seg (Function.update next b (l.head?.or q))
      (setLink (Function.update prev b p') l.head? (some b)) p' (b :: l) q := by
  have hlb : ∀ c ∈ l.head?, c ≠ b := fun c hc => ne_of_mem_of_not_mem (List.mem_of_head? hc) hb
  refine ⟨?_, Function.update_self b _ next, ?_⟩
  · rw [setLink_of_notMem hlb]
    exact Function.update_self b p' prev
  · refine (h.setEntry hl (some b)).congr (fun c hc => ?_) fun c hc => ?_
    · exact Function.update_of_ne (ne_of_mem_of_not_mem hc hb) _ next
    · exact setLink_congr (Function.update_of_ne (ne_of_mem_of_not_mem hc hb) p' prev) _ _

/-! ### Rings -/

/-- **A ring**: the last node points to the first, and back. -/
def Ring (next prev : ι → Option ι) (l : List ι) : Prop :=
  Seg next prev l.getLast? l l.head?

omit [DecidableEq ι] in
/-- **A ring may be read from any node.** -/
theorem Ring.rotate (h : Ring next prev (l₁ ++ l₂)) : Ring next prev (l₂ ++ l₁) := by
  cases l₁ with
  | nil => simpa using h
  | cons a l₁ =>
    cases l₂ with
    | nil => simpa using h
    | cons b l₂ =>
      obtain ⟨h1, h2⟩ := seg_append.mp h
      refine seg_append.mpr ⟨?_, ?_⟩
      · simpa [List.getLast?_cons] using h2
      · simpa [List.getLast?_cons] using h1

omit [DecidableEq ι] in
omit [DecidableEq ι] in
/-- The pointers of the first node. -/
theorem Ring.next_head (h : Ring next prev (b :: l)) : next b = l.head?.or (some b) := h.2.1

omit [DecidableEq ι] in
theorem Ring.prev_head (h : Ring next prev (b :: l)) : prev b = l.getLast?.or (some b) := by
  rw [h.1]
  cases l with
  | nil => rfl
  | cons c l => simp [List.getLast?_cons]

/-- **The first node is unlinked.** -/
theorem Ring.unlink_head (h : Ring next prev (b :: l)) (hl : (b :: l).Nodup) (hne : l ≠ []) :
    Ring (setLink next (prev b) (next b)) (setLink prev (next b) (prev b)) l := by
  have hlast : l.getLast?.or (some b) = l.getLast? := by
    cases l with
    | nil => exact absurd rfl hne
    | cons c l => simp [List.getLast?_cons]
  have hhead : l.head?.or (some b) = l.head? := by
    cases l with
    | nil => exact absurd rfl hne
    | cons c l => rfl
  obtain ⟨-, hl⟩ := List.nodup_cons.mp hl
  rw [h.next_head, h.prev_head, hlast, hhead]
  refine ((h.2.2.setExit hl l.head?).setEntry hl l.getLast?)

/-- **A node is unlinked** from a ring of more than one. -/
theorem Ring.unlink (h : Ring next prev (l₁ ++ b :: l₂)) (hl : (l₁ ++ b :: l₂).Nodup)
    (hne : l₁ ++ l₂ ≠ []) :
    Ring (setLink next (prev b) (next b)) (setLink prev (next b) (prev b)) (l₁ ++ l₂) := by
  have hrot : Ring next prev (b :: (l₂ ++ l₁)) := h.rotate
  have hnd : (b :: (l₂ ++ l₁)).Nodup := by
    have hperm : (l₁ ++ b :: l₂).Perm (b :: l₂ ++ l₁) := List.perm_append_comm
    have := hperm.nodup_iff.mp hl
    simpa using this
  refine (hrot.unlink_head hnd fun hnil => hne ?_).rotate
  rw [List.append_eq_nil_iff] at hnil ⊢
  exact hnil.symm

/-- **A node is added at the end**, between the last node and the first, `f`. -/
theorem Ring.append {f : ι} (h : Ring next prev (f :: l)) (hl : (f :: l).Nodup) (hb : b ∉ f :: l) :
    Ring (setLink (Function.update next b (some f)) (prev f) (some b))
      (Function.update (Function.update prev b (prev f)) f (some b)) (f :: l ++ [b]) := by
  have hbf : b ≠ f := fun hbf => hb (hbf ▸ List.mem_cons_self)
  have hlast : prev f = (f :: l).getLast? := h.1
  have hmem : ∀ c ∈ (f :: l).getLast?, c ≠ b := fun c hc =>
    ne_of_mem_of_not_mem (List.mem_of_getLast? hc) hb
  have hseg : Seg (setLink next (f :: l).getLast? (some b)) (setLink prev (some f) (some b))
      (some b) (f :: l) (some b) := (Seg.setExit h hl (some b)).setEntry hl (some b)
  have hends : (f :: l ++ [b]).getLast? = some b := List.getLast?_concat
  unfold Ring
  rw [hends, seg_append]
  refine ⟨hseg.congr (fun c hc => ?_) fun c hc => ?_, ?_, ?_, trivial⟩
  · rw [hlast]
    exact setLink_congr (Function.update_of_ne (ne_of_mem_of_not_mem hc hb) _ next) _ _
  · exact setLink_congr (Function.update_of_ne (ne_of_mem_of_not_mem hc hb) _ prev) (some f) _
  · rw [Function.update_of_ne hbf, Function.update_self, hlast]
    simp [List.getLast?_cons]
  · rw [hlast, setLink_of_notMem hmem]
    exact Function.update_self b _ next

omit [DecidableEq ι] in
/-- Nodes with numbers, each linked to its neighbours. -/
theorem seg_numbered {node : ℕ → ι} {m n a : ℕ} (ha : a + m = n)
    (hnext : ∀ i < n, next (node i) = some (node (if i = n - 1 then 0 else i + 1)))
    (hprev : ∀ i < n, prev (node i) = some (node (if i = 0 then n - 1 else i - 1))) :
    Seg next prev (some (node (if a = 0 then n - 1 else a - 1))) ((List.range' a m).map node)
      (some (node 0)) := by
  induction m generalizing a with
  | zero => trivial
  | succ m ih =>
    refine ⟨hprev a (by omega), ?_, ?_⟩
    · rw [hnext a (by omega)]
      cases m with
      | zero =>
        rw [if_pos (by omega)]
        rfl
      | succ m =>
        rw [if_neg (by omega)]
        rfl
    · have hrest := ih (show a + 1 + m = n by omega)
      rwa [if_neg (by omega)] at hrest

omit [DecidableEq ι] in
/-- **Nodes with numbers are a ring**, if the first and the last are linked to each other. -/
theorem ring_numbered {node : ℕ → ι} {n : ℕ} (hn : 0 < n)
    (hnext : ∀ i < n, next (node i) = some (node (if i = n - 1 then 0 else i + 1)))
    (hprev : ∀ i < n, prev (node i) = some (node (if i = 0 then n - 1 else i - 1))) :
    Ring next prev ((List.range' 0 n).map node) := by
  obtain ⟨m, rfl⟩ : ∃ m, n = m + 1 := ⟨n - 1, by omega⟩
  have hlast : ((List.range' 0 (m + 1)).map node).getLast? = some (node m) := by
    rw [List.getLast?_map, List.getLast?_range']
    simp
  rw [Ring, hlast]
  exact seg_numbered (Nat.zero_add (m + 1)) hnext hprev

end Linux011

import Linux011.Inodes.Changes

/-!
# Changed inodes are marked

In between a change of an inode and its mark the rest of the table is in order:
`Linux011.Inodes.Changes.GoodBut` leaves out one inode at most, and every system call begins and
ends with none left out. What the calls do on the way, they do to one inode, and the others stay
(`Linux011.Inodes.Changes.Works`).

Two functions set `i_mtime` and do not mark the inode: `file_write`, and `add_entry` where an entry
is used again. As long as no such change is missed, no change of an inode is lost
(`Linux011.Inodes.Changes.changed_marked`).
-/

namespace Linux011.Inodes.Changes

variable {s s' s'' : Kernel} {α β : Type} {m : M α} {e x : Option ℕ} {i j : ℕ} {id : Fs.Id}

theorem setInode_self (s : Kernel) (i : ℕ) (f : MInode → MInode) :
    (s.setInode i f).inode i = f (s.inode i) := Function.update_self ..

theorem change_self (s : Kernel) (i : ℕ) (b : Bool) (f : DInode → DInode) :
    (s.change i b f).inode i =
      { s.inode i with d := f (s.inode i).d, dirt := (s.inode i).dirt || b } :=
  Function.update_self ..

/-! ### The invariant -/

/-- **The inode table is in order**, but for one inode. -/
structure GoodBut (e : Option ℕ) (s : Kernel) : Prop where
  /-- What is not marked is as on the disk. -/
  marked : ∀ i, some i ≠ e → (s.inode i).id.dev ≠ 0 →
    (s.inode i).d ≠ s.image (s.inode i).id → (s.inode i).dirt = true
  value : ∀ i, some i ≠ e → (s.inode i).id.dev ≠ 0 → s.value (s.inode i).id = (s.inode i).d
  once : ∀ i j, (s.inode i).id.dev ≠ 0 → (s.inode i).id = (s.inode j).id → i = j
  used : ∀ i, (s.inode i).id.dev ≠ 0 → s.used (s.inode i).id = true
  /-- What is not in the table is on the disk. -/
  kept : ∀ id : Fs.Id, id.dev ≠ 0 → s.used id = true → (∀ i, (s.inode i).id ≠ id) →
    s.image id = s.value id
  table : ∀ i, nrInode ≤ i → (s.inode i).id.dev = 0
  pipes : ∀ i, (s.inode i).pipe = true → (s.inode i).id.dev = 0

/-- The invariant, as long as nothing has gone wrong. -/
def InvBut (e : Option ℕ) (s : Kernel) : Prop := s.missed = false → GoodBut e s

theorem GoodBut.weaken (h : GoodBut none s) : GoodBut e s :=
  { h with
    marked := fun i _ => h.marked i (Option.some_ne_none i)
    value := fun i _ => h.value i (Option.some_ne_none i) }

theorem InvBut.weaken (h : InvBut none s) : InvBut e s := fun hm => (h hm).weaken

/-- What goes wrong is not forgotten. -/
theorem InvBut.imp {e' : Option ℕ} (h : InvBut e s) (hm : s'.missed = false → s.missed = false)
    (hg : s'.missed = false → GoodBut e s → GoodBut e' s') : InvBut e' s' :=
  fun hm' => hg hm' (h (hm hm'))

/-- The inode that was left out is in order again. -/
theorem GoodBut.close (h : GoodBut (some i) s)
    (hi : (s.inode i).id.dev ≠ 0 →
      ((s.inode i).d ≠ s.image (s.inode i).id → (s.inode i).dirt = true) ∧
        s.value (s.inode i).id = (s.inode i).d) : GoodBut none s := by
  refine { h with marked := fun j _ hdev => ?_, value := fun j _ hdev => ?_ }
  · by_cases hj : j = i
    · subst hj
      exact (hi hdev).1
    · exact h.marked j (fun heq => hj (Option.some.inj heq)) hdev
  · by_cases hj : j = i
    · subst hj
      exact (hi hdev).2
    · exact h.value j (fun heq => hj (Option.some.inj heq)) hdev

/-- **A store into the inode that is left out**, and into what is kept of it elsewhere. -/
theorem GoodBut.store (h : GoodBut (some i) s) {n : MInode} {v w : DInode}
    (hinode : s'.inode = Function.update s.inode i n) (hid : n.id = (s.inode i).id)
    (hpipe : n.pipe = true → (s.inode i).id.dev = 0)
    (hvalue : s'.value = Function.update s.value (s.inode i).id v)
    (himage : s'.image = Function.update s.image (s.inode i).id w) (hused : s'.used = s.used) :
    GoodBut (some i) s' := by
  have hsame : ∀ j, (s'.inode j).id = (s.inode j).id := by
    intro j
    rw [hinode]
    by_cases hj : j = i
    · rw [hj, Function.update_self, hid]
    · rw [Function.update_of_ne hj]
  have hother : ∀ j, some j ≠ some i → s'.inode j = s.inode j := by
    intro j hj
    rw [hinode]
    exact Function.update_of_ne (fun heq => hj (congrArg some heq)) ..
  have hne : ∀ j, some j ≠ some i → (s.inode j).id.dev ≠ 0 → (s.inode j).id ≠ (s.inode i).id :=
    fun j hj hdev heq => hj (congrArg some (h.once j i hdev heq))
  constructor
  · intro j hj hdev
    rw [hother j hj] at hdev ⊢
    rw [himage, Function.update_of_ne (hne j hj hdev)]
    exact h.marked j hj hdev
  · intro j hj hdev
    rw [hother j hj] at hdev ⊢
    rw [hvalue, Function.update_of_ne (hne j hj hdev)]
    exact h.value j hj hdev
  · intro j k hdev heq
    rw [hsame] at hdev heq
    rw [hsame] at heq
    exact h.once j k hdev heq
  · intro j hdev
    rw [hsame] at hdev ⊢
    rw [hused]
    exact h.used j hdev
  · intro id hdev hu hno
    have hid' : id ≠ (s.inode i).id := fun heq => hno i (by rw [hsame, heq])
    rw [himage, hvalue, Function.update_of_ne hid', Function.update_of_ne hid']
    refine h.kept id hdev (hused ▸ hu) fun j => ?_
    rw [← hsame]
    exact hno j
  · intro j hj
    rw [hsame]
    exact h.table j hj
  · intro j hj
    rw [hsame]
    by_cases hji : j = i
    · subst hji
      rw [hinode, Function.update_self] at hj
      exact hpipe hj
    · rw [hother j fun heq => hji (Option.some.inj heq)] at hj
      exact h.pipes j hj

/-- A store that is not about what is on the disk. -/
theorem GoodBut.setInode {f : MInode → MInode} (h : GoodBut none s)
    (hid : (f (s.inode i)).id = (s.inode i).id)
    (hpipe : (f (s.inode i)).pipe = true → (s.inode i).pipe = true)
    (hd : (s.inode i).id.dev ≠ 0 → (f (s.inode i)).d = (s.inode i).d ∧
      ((s.inode i).dirt = true → (f (s.inode i)).dirt = true)) :
    GoodBut none (s.setInode i f) := by
  have hstore : GoodBut (some i) (s.setInode i f) :=
    h.weaken.store rfl hid (fun hp => h.pipes i (hpipe hp)) (Function.update_eq_self ..).symm
      (Function.update_eq_self ..).symm rfl
  refine hstore.close fun hdev => ?_
  rw [setInode_self, hid] at hdev ⊢
  obtain ⟨hsame, hdirt⟩ := hd hdev
  rw [hsame]
  exact ⟨fun hne => hdirt (h.marked i (Option.some_ne_none i) hdev hne),
    h.value i (Option.some_ne_none i) hdev⟩

/-- **A change** leaves the inode out. -/
theorem GoodBut.change {b : Bool} {f : DInode → DInode} (h : GoodBut (some i) s) :
    GoodBut (some i) (s.change i b f) :=
  h.store (n := { s.inode i with d := f (s.inode i).d, dirt := (s.inode i).dirt || b })
    (v := f (s.inode i).d) rfl rfl (h.pipes i) rfl (Function.update_eq_self ..).symm rfl

/-- **A change with a mark** puts the inode in order. -/
theorem GoodBut.change_mark {f : DInode → DInode} (h : GoodBut (some i) s) :
    GoodBut none (s.change i true f) := by
  refine h.change.close fun _ => ⟨fun _ => ?_, ?_⟩
  · rw [change_self]
    exact Bool.or_true _
  · rw [change_self]
    exact Function.update_self ..

/-- **`i_mtime` is set without a mark**: if that is not missed, all is in order. -/
theorem GoodBut.touch {t : ℕ} (h : GoodBut none s) (hm : (s.touch i t).missed = false) :
    GoodBut none (s.touch i t) := by
  have hself : (s.touch i t).inode i = { s.inode i with
      d := { (s.inode i).d with mtime := t }
      dirt := (s.inode i).dirt || false } := Function.update_self ..
  have hstore : GoodBut (some i) (s.touch i t) :=
    h.weaken.store (n := (s.touch i t).inode i) (v := { (s.inode i).d with mtime := t })
      (by rw [hself]; rfl) (by rw [hself]) (by rw [hself]; exact h.pipes i) rfl
      (Function.update_eq_self ..).symm rfl
  refine hstore.close ?_
  rw [hself]
  intro hdev
  refine ⟨fun hne => ?_, Function.update_self ..⟩
  have hmiss := (Bool.or_eq_false_iff.mp hm).2
  rw [decide_eq_false_iff_not] at hmiss
  rw [Bool.or_false]
  by_contra hclean
  rw [Bool.not_eq_true] at hclean
  -- the time is another one, since the inode was as on the disk
  refine hmiss ⟨hclean, hdev, fun ht => hne ?_⟩
  have hsame : (s.inode i).d = s.image (s.inode i).id := by
    by_contra hd
    rw [h.marked i (Option.some_ne_none i) hdev hd] at hclean
    exact absurd hclean (Bool.noConfusion)
  have ht' : { (s.inode i).d with mtime := t } = (s.inode i).d := by rw [← ht]
  exact ht'.trans hsame

/-- **An inode is written out**, whichever is left out. -/
theorem GoodBut.writeOut (h : GoodBut e s) (hdev : (s.inode i).id.dev ≠ 0) :
    GoodBut e (s.writeOut i) := by
  have hself : (s.writeOut i).inode i = { s.inode i with dirt := false } :=
    Function.update_self ..
  have hother : ∀ j, j ≠ i → (s.writeOut i).inode j = s.inode j := fun j hj =>
    Function.update_of_ne hj ..
  have hsame : ∀ j, (s.writeOut i).inode j =
      { s.inode j with dirt := ((s.writeOut i).inode j).dirt } := by
    intro j
    by_cases hj : j = i
    · rw [hj, hself]
    · rw [hother j hj]
  constructor
  · intro j hj hdev' hne
    by_cases hji : j = i
    · subst hji
      refine absurd ?_ hne
      rw [hself]
      exact (Function.update_self (s.inode j).id (s.inode j).d s.image).symm
    · rw [hother j hji] at hdev' hne ⊢
      refine h.marked j hj hdev' fun heq => hne ?_
      exact heq.trans (Function.update_of_ne (fun hid => hji (h.once j i hdev' hid)) ..).symm
  · intro j hj hdev'
    rw [hsame] at hdev' ⊢
    exact h.value j hj hdev'
  · intro j k hdev' heq
    rw [hsame] at hdev' heq
    rw [hsame k] at heq
    exact h.once j k hdev' heq
  · intro j hdev'
    rw [hsame] at hdev' ⊢
    exact h.used j hdev'
  · intro id hdev' hu hno
    have hno' : ∀ j, (s.inode j).id ≠ id := by
      intro j heq
      refine hno j ?_
      rw [hsame]
      exact heq
    exact (Function.update_of_ne (hno' i).symm ..).trans (h.kept id hdev' hu hno')
  · intro j hj
    rw [hsame]
    exact h.table j hj
  · intro j hj
    rw [hsame] at hj ⊢
    exact h.pipes j hj

/-- The fields that the invariant is about. -/
theorem GoodBut.congr (h : GoodBut e s) (hinode : s'.inode = s.inode) (himage : s'.image = s.image)
    (hvalue : s'.value = s.value) (hused : s'.used = s.used) : GoodBut e s' := by
  constructor
  · rw [hinode, himage]
    exact h.marked
  · rw [hinode, hvalue]
    exact h.value
  · rw [hinode]
    exact h.once
  · rw [hinode, hused]
    exact h.used
  · rw [hinode, himage, hvalue, hused]
    exact h.kept
  · rw [hinode]
    exact h.table
  · rw [hinode]
    exact h.pipes

/-- **An inode leaves the table**: it is on the disk, or free. -/
theorem GoodBut.leave {n : MInode} (h : GoodBut (some i) s)
    (hinode : s'.inode = Function.update s.inode i n) (hdev : n.id.dev = 0)
    (himage : s'.image = s.image) (hvalue : s'.value = s.value)
    (hused : ∀ id ≠ (s.inode i).id, s'.used id = s.used id)
    (hi : (s.inode i).id.dev ≠ 0 → s'.used (s.inode i).id = true →
      s.image (s.inode i).id = s.value (s.inode i).id) : GoodBut none s' := by
  have hself : s'.inode i = n := by
    rw [hinode]
    exact Function.update_self ..
  have hother : ∀ j, j ≠ i → s'.inode j = s.inode j := by
    intro j hj
    rw [hinode]
    exact Function.update_of_ne hj ..
  have hne : ∀ j, (s'.inode j).id.dev ≠ 0 → j ≠ i := by
    intro j hj heq
    rw [heq, hself] at hj
    exact hj hdev
  constructor
  · intro j _ hj hd
    have hji := hne j hj
    rw [hother j hji] at hj hd ⊢
    rw [himage] at hd
    exact h.marked j (fun heq => hji (Option.some.inj heq)) hj hd
  · intro j _ hj
    have hji := hne j hj
    rw [hother j hji] at hj ⊢
    rw [hvalue]
    exact h.value j (fun heq => hji (Option.some.inj heq)) hj
  · intro j k hj heq
    have hji := hne j hj
    have hki := hne k (heq ▸ hj)
    rw [hother j hji] at hj heq
    rw [hother k hki] at heq
    exact h.once j k hj heq
  · intro j hj
    have hji := hne j hj
    rw [hother j hji] at hj ⊢
    rw [hused _ fun heq => hji (h.once j i hj heq)]
    exact h.used j hj
  · intro id hid hu hno
    rw [himage, hvalue]
    by_cases heq : id = (s.inode i).id
    · subst heq
      exact hi hid hu
    · refine h.kept id hid (hused id heq ▸ hu) fun j hj => ?_
      have hji : j ≠ i := fun h' => heq (by rw [← hj, h'])
      exact hno j (by rw [hother j hji, hj])
  · intro j hj
    by_cases hji : j = i
    · rw [hji, hself, hdev]
    · rw [hother j hji]
      exact h.table j hj
  · intro j hj
    by_cases hji : j = i
    · rw [hji, hself, hdev]
    · rw [hother j hji] at hj ⊢
      exact h.pipes j hj

/-- **An inode enters the table**, in a slot that is empty. -/
theorem GoodBut.enter {n : MInode} (h : GoodBut none s) (hi : (s.inode i).id.dev = 0)
    (hlt : i < nrInode) (hinode : s'.inode = Function.update s.inode i n)
    (hno : n.id.dev ≠ 0 → ∀ j, (s.inode j).id ≠ n.id) (hpipe : n.pipe = false)
    (himage : s'.image = s.image) (hvalue : s'.value = s.value)
    (hused : ∀ id ≠ n.id, s'.used id = s.used id)
    (hu : n.id.dev ≠ 0 → s'.used n.id = true) : GoodBut (some i) s' := by
  have hself : s'.inode i = n := by
    rw [hinode]
    exact Function.update_self ..
  have hother : ∀ j, j ≠ i → s'.inode j = s.inode j := by
    intro j hj
    rw [hinode]
    exact Function.update_of_ne hj ..
  constructor
  · intro j hj
    have hji : j ≠ i := fun heq => hj (congrArg some heq)
    rw [hother j hji, himage]
    exact h.marked j (Option.some_ne_none j)
  · intro j hj
    have hji : j ≠ i := fun heq => hj (congrArg some heq)
    rw [hother j hji, hvalue]
    exact h.value j (Option.some_ne_none j)
  · intro j k hj heq
    by_cases hji : j = i <;> by_cases hki : k = i
    · rw [hji, hki]
    · rw [hji, hself, hother k hki] at heq
      rw [hji, hself] at hj
      exact absurd heq.symm (hno hj k)
    · rw [hki, hself, hother j hji] at heq
      rw [hother j hji] at hj
      exact absurd heq (hno (heq ▸ hj) j)
    · rw [hother j hji] at hj heq
      rw [hother k hki] at heq
      exact h.once j k hj heq
  · intro j hj
    by_cases hji : j = i
    · rw [hji, hself] at hj ⊢
      exact hu hj
    · rw [hother j hji] at hj ⊢
      by_cases heq : (s.inode j).id = n.id
      · rw [heq] at hj ⊢
        exact hu hj
      · rw [hused _ heq]
        exact h.used j hj
  · intro id hid hu' hno'
    have hne : id ≠ n.id := fun heq => hno' i (by rw [hself, heq])
    rw [himage, hvalue]
    refine h.kept id hid (hused id hne ▸ hu') fun j hj => ?_
    have hji : j ≠ i := by
      intro heq
      rw [← hj, heq] at hid
      exact hid hi
    exact hno' j (by rw [hother j hji, hj])
  · intro j hj
    rw [hother j (by omega)]
    exact h.table j hj
  · intro j hj
    by_cases hji : j = i
    · rw [hji, hself, hpipe] at hj
      exact absurd hj Bool.false_ne_true
    · rw [hother j hji] at hj ⊢
      exact h.pipes j hj

/-! ### What stays -/

/-- **An inode stays** what it is; it may have been written out. -/
structure Stays (i : ℕ) (s s' : Kernel) : Prop where
  d : (s'.inode i).d = (s.inode i).d
  id : (s'.inode i).id = (s.inode i).id
  count : (s'.inode i).count = (s.inode i).count
  pipe : (s'.inode i).pipe = (s.inode i).pipe

theorem Stays.of_eq (h : s'.inode i = s.inode i) : Stays i s s' :=
  ⟨by rw [h], by rw [h], by rw [h], by rw [h]⟩

theorem Stays.refl (i : ℕ) (s : Kernel) : Stays i s s := .of_eq rfl

theorem Stays.trans (h : Stays i s s') (h' : Stays i s' s'') : Stays i s s'' :=
  ⟨h'.d.trans h.d, h'.id.trans h.id, h'.count.trans h.count, h'.pipe.trans h.pipe⟩

/-- Whatever ends the call otherwise. -/
def Ends (_ : Halt) (_ : Kernel) : Prop := True

/-- **Code that works on one inode**, with the table in order but for one. -/
def Works (e x : Option ℕ) (m : M α) : Prop :=
  ∀ s, InvBut e s → wp m (fun _ s' => InvBut e s' ∧ ∀ i, some i ≠ x → Stays i s s') Ends s

namespace Works

theorem pure (a : α) : Works e x (pure a : M α) := fun s hs => ⟨hs, fun i _ => .refl i s⟩

theorem throw (h : Halt) : Works e x (throw h : M α) := fun _ _ => trivial

/-- **What comes next** finds the others as they were. -/
theorem step {f : α → M β} {Q : β → Kernel → Prop} (hm : Works e x m) (hs : InvBut e s)
    (hf : ∀ a s', InvBut e s' → (∀ i, some i ≠ x → Stays i s s') → wp (f a) Q Ends s') :
    wp (m >>= f) Q Ends s := by
  rw [wp_bind]
  exact wp_post (hm s hs) fun a s' h => hf a s' h.1 h.2

theorem bind {f : α → M β} (hm : Works e x m) (hf : ∀ a, Works e x (f a)) :
    Works e x (m >>= f) := by
  intro s hs
  refine hm.step hs fun a s' hs' hstay => ?_
  refine wp_post (hf a s' hs') fun _ s'' h => ⟨h.1, fun i hi => ?_⟩
  exact (hstay i hi).trans (h.2 i hi)

theorem read {f : Kernel → M α} (hf : ∀ s, Works e x (f s)) : Works e x (get >>= f) := by
  intro s hs
  rw [wp_bind]
  exact hf s s hs

theorem ite {c : Prop} [Decidable c] {m m' : M α} (h : Works e x m) (h' : Works e x m') :
    Works e x (if c then m else m') := by
  split
  · exact h
  · exact h'

theorem modify {f : Kernel → Kernel} (h : ∀ s, InvBut e s → InvBut e (f s))
    (hstay : ∀ s i, some i ≠ x → (f s).inode i = s.inode i) :
    Works e x (modify f : M PUnit) := by
  intro s hs
  exact ⟨h s hs, fun i hi => .of_eq (hstay s i hi)⟩

theorem forFrom {body : ℕ → M PUnit} (h : ∀ k, Works e x (body k)) (start n : ℕ) :
    Works e x (forFrom start n body) := by
  induction n generalizing start with
  | zero => exact pure PUnit.unit
  | succ n ih => exact (h start).bind fun _ => ih (start + 1)

end Works

/-! ### Reading blocks -/

theorem works_ask : Works e x ask := by
  intro s hs
  have hs' : InvBut e { s with oracle := fun n => s.oracle (n + 1) } :=
    hs.imp (fun h => h) fun _ h => h.congr rfl rfl rfl rfl
  exact ⟨hs', fun i _ => .of_eq rfl⟩

theorem wp_ask {Q : ℕ → Kernel → Prop} :
    wp ask Q Ends s ↔ Q (s.oracle 0) { s with oracle := fun n => s.oracle (n + 1) } := Iff.rfl

theorem works_asks : Works e x asks := works_ask.bind fun _ => .pure _

/-- With an inode locked, nothing is written on the way. -/
theorem wp_breadLocked : wp breadLocked (fun _ s' => ∃ o, s' = { s with oracle := o }) Ends s := by
  have hasks : ∀ t : Kernel, wp asks (fun _ s' => ∃ o, s' = { t with oracle := o }) Ends t :=
    fun t => ⟨fun n => t.oracle (n + 1), rfl⟩
  rw [breadLocked, wp_bind]
  refine wp_post (hasks s) fun b s' ⟨o, hs'⟩ => ?_
  cases b with
  | true => trivial
  | false =>
    rw [if_neg Bool.false_ne_true, wp_bind]
    refine wp_post (hasks s') fun b s'' ⟨o', hs''⟩ => ?_
    subst hs' hs''
    cases b with
    | true => exact ⟨o', rfl⟩
    | false => trivial

/-- `write_inode` -/
theorem works_writeInode : Works e x (writeInode i) := by
  intro s hs
  rw [writeInode, wp_bind, wp_get]
  by_cases hskip : (s.inode i).dirt = false ∨ (s.inode i).id.dev = 0
  · rw [if_pos hskip]
    exact Works.pure PUnit.unit s hs
  · rw [if_neg hskip, wp_bind]
    refine wp_post wp_breadLocked fun _ s' ⟨o, hs'⟩ => ?_
    subst hs'
    rw [wp_modify]
    have hdev : (s.inode i).id.dev ≠ 0 := fun h => hskip (Or.inr h)
    constructor
    · refine hs.imp (fun h => h) fun _ h => ?_
      exact GoodBut.writeOut (s := { s with oracle := o }) (h.congr rfl rfl rfl rfl) hdev
    · intro j _
      by_cases hj : j = i
      · have hself : ({ s with oracle := o }.writeOut i).inode i =
            { s.inode i with dirt := false } := Function.update_self ..
        rw [hj]
        constructor
        · rw [hself]
        · rw [hself]
        · rw [hself]
        · rw [hself]
      · exact .of_eq (Function.update_of_ne hj ..)

/-- **`sync_inodes`** -/
theorem works_syncInodes : Works e x syncInodes :=
  .forFrom (fun _ => .read fun _ => .ite works_writeInode (.pure _)) 0 nrInode

theorem works_getblk : Works e x getblk :=
  works_asks.bind fun _ => .ite works_syncInodes (.pure _)

theorem works_bread : Works e x bread := works_getblk.bind fun _ => works_asks

theorem works_freeBlock : Works e x freeBlock :=
  works_asks.bind fun _ => .ite (.throw _) (.pure _)

theorem works_freeInd {zone : ℕ} : Works e x (freeInd zone) := by
  rw [freeInd]
  refine .ite (.pure _) (works_ask.bind fun n => .forFrom (fun _ => ?_) 0 _)
  exact works_bread.bind fun _ => works_freeBlock

theorem works_newBlock : Works e x newBlock := works_getblk.bind fun _ => works_ask

theorem works_search : Works e x search :=
  works_ask.bind fun n => .forFrom (fun _ => works_bread.bind fun _ => .pure _) 0 n

theorem works_makeEntry : Works e x makeEntry := by
  refine works_bread.bind fun _ => .ite (works_ask.bind fun z => ?_) (.pure _)
  exact .ite works_newBlock (.pure _)

/-! ### Changes of one inode -/

/-- **A change** of an inode that is left out. -/
theorem works_change {b : Bool} {f : DInode → DInode} :
    Works (some i) (some i) (modify fun s => s.change i b f) :=
  .modify (fun _ hs => hs.imp (fun h => h) fun _ h => h.change) fun _ _ hj =>
    Function.update_of_ne (fun heq => hj (congrArg some heq)) ..

/-- **A change with a mark**, whether or not the inode is left out. -/
theorem wp_change_mark {f : DInode → DInode} (hs : InvBut (some i) s) :
    wp (modify fun s => s.change i true f)
      (fun _ s' => InvBut none s' ∧ ∀ j, some j ≠ some i → Stays j s s') Ends s := by
  refine ⟨hs.imp (fun h => h) fun _ h => h.change_mark, fun j hj => .of_eq ?_⟩
  exact Function.update_of_ne (fun heq => hj (congrArg some heq)) ..

theorem works_change_mark {f : DInode → DInode} :
    Works none (some i) (modify fun s => s.change i true f) := fun _ hs => wp_change_mark hs.weaken

/-- **`truncate`** leaves in order what was in order. -/
theorem works_truncate (he : e = none ∨ e = some i) : Works e (some i) (truncate i) := by
  intro s hs
  rw [truncate, wp_bind, wp_get, wp_ite]
  constructor
  · intro _
    exact Works.pure PUnit.unit s hs
  · intro _
    have hout : InvBut (some i) s := by
      rcases he with rfl | rfl
      · exact hs.weaken
      · exact hs
    have hzones : Works (some i) (some i) (forFrom 0 7 fun k => do
        let s ← get
        if (s.inode i).d.zone (Fin.ofNat 9 k) = 0 then pure ⟨⟩
        else do
          freeBlock
          modify fun s => s.change i false fun d =>
            { d with zone := Function.update d.zone (Fin.ofNat 9 k) 0 }) :=
      .forFrom (fun _ => .read fun _ => .ite (.pure _) (works_freeBlock.bind fun _ => works_change))
        0 7
    refine hzones.step hout fun _ s₁ h₁ hstay₁ => ?_
    rw [wp_bind, wp_get]
    refine (works_freeInd (x := some i)).step h₁ fun _ s₂ h₂ hstay₂ => ?_
    refine (works_freeInd (x := some i)).step h₂ fun _ s₃ h₃ hstay₃ => ?_
    refine (works_ask (x := some i)).step h₃ fun t s₄ h₄ hstay₄ => ?_
    refine wp_post (wp_change_mark h₄) fun _ s₅ h₅ => ⟨?_, fun j hj => ?_⟩
    · rcases he with rfl | rfl
      · exact h₅.1
      · exact h₅.1.weaken
    · exact (hstay₁ j hj).trans ((hstay₂ j hj).trans ((hstay₃ j hj).trans
        ((hstay₄ j hj).trans (h₅.2 j hj))))

/-- **`free_inode`** leaves nothing of an inode that was left out. -/
theorem wp_freeInode (hs : InvBut (some i) s) : wp (freeInode i)
    (fun _ s' => InvBut none s' ∧ ∀ j, some j ≠ some i → Stays j s s') Ends s := by
  have hother : ∀ j, some j ≠ some i → ∀ n, Function.update s.inode i n j = s.inode j :=
    fun j hj _ => Function.update_of_ne (fun heq => hj (congrArg some heq)) ..
  rw [freeInode, wp_bind, wp_get]
  dsimp only
  rw [wp_ite]
  constructor
  · intro hdev
    rw [wp_set]
    refine ⟨hs.imp (fun h => h) fun _ h => ?_, fun j hj => .of_eq (hother j hj _)⟩
    exact h.leave rfl rfl rfl rfl (fun _ _ => rfl) fun hne => absurd hdev hne
  · intro hdev
    rw [wp_ite]
    refine ⟨fun _ => trivial, fun _ => ?_⟩
    rw [wp_ite]
    refine ⟨fun _ => trivial, fun _ => ?_⟩
    rw [wp_set]
    refine ⟨hs.imp (fun h => h) fun _ h => ?_, fun j hj => .of_eq (hother j hj _)⟩
    refine h.leave rfl rfl rfl rfl (fun _ hid => Function.update_of_ne hid ..) fun _ hu => ?_
    have hfree : Function.update s.used (s.inode i).id false (s.inode i).id = false :=
      Function.update_self ..
    exact absurd (hfree.symm.trans hu) Bool.false_ne_true

/-! ### References -/

/-- A reference is dropped. -/
def Kernel.drop (s : Kernel) (i : ℕ) : Kernel :=
  s.setInode i fun n => { n with count := n.count - 1 }

theorem InvBut.drop (hs : InvBut none s) : InvBut none (s.drop i) :=
  hs.imp (fun h => h) fun _ h => h.setInode rfl (fun hp => hp) fun _ => ⟨rfl, fun hd => hd⟩

theorem InvBut.hold (hs : InvBut none s) :
    InvBut none (s.setInode i fun n => { n with count := n.count + 1 }) :=
  hs.imp (fun h => h) fun _ h => h.setInode rfl (fun hp => hp) fun _ => ⟨rfl, fun hd => hd⟩

theorem setInode_of_ne {f : MInode → MInode} (h : some j ≠ some i) :
    (s.setInode i f).inode j = s.inode j :=
  Function.update_of_ne (fun heq => h (congrArg some heq)) ..

/-- The last reference to an inode that is in order, with no links. -/
theorem wp_delete (hs : InvBut (some i) s) : wp (truncate i >>= fun _ => freeInode i)
    (fun _ s' => InvBut none s' ∧ ∀ j, some j ≠ some i → Stays j s s') Ends s := by
  refine (works_truncate (Or.inr rfl)).step hs fun _ s₁ h₁ hstay => ?_
  refine wp_post (wp_freeInode h₁) fun _ s₂ h₂ => ⟨h₂.1, fun j hj => ?_⟩
  exact (hstay j hj).trans (h₂.2 j hj)

theorem wp_iputRepeat (hs : InvBut none s) : wp (iputRepeat i) (fun _ s' => InvBut none s' ∧
    (∀ j, some j ≠ some i → Stays j s s') ∧
      (1 < (s.inode i).count → Stays i (s.drop i) s')) Ends s := by
  rw [iputRepeat, wp_bind, wp_get, wp_ite]
  constructor
  · intro _
    rw [wp_set]
    exact ⟨hs.drop, fun j hj => .of_eq (setInode_of_ne hj), fun _ => .refl i _⟩
  · intro hone
    rw [wp_ite]
    constructor
    · intro _
      refine wp_post (wp_delete hs.weaken) fun _ s₁ h₁ => ⟨h₁.1, h₁.2, fun h => absurd h hone⟩
    · intro _
      refine (works_writeInode (x := none)).step hs fun _ s₁ h₁ hstay => ?_
      refine ⟨h₁.drop, fun j hj => ?_, fun h => absurd h hone⟩
      exact (hstay j (Option.some_ne_none j)).trans (.of_eq (setInode_of_ne hj))

/-- The inode of a block device is written first, and all others with it. -/
theorem wp_isBlk {d : DInode} {Q : PUnit → Kernel → Prop} (hs : InvBut e s)
    (h : ∀ s', InvBut e s' → (∀ j, Stays j s s') → wp (iputRepeat i) Q Ends s') :
    wp (if isBlk d then do
      syncInodes
      iputRepeat i
    else iputRepeat i) Q Ends s := by
  rw [wp_ite]
  constructor
  · intro _
    refine (works_syncInodes (x := none)).step hs fun _ s' hs' hstay => ?_
    exact h s' hs' fun j => hstay j (Option.some_ne_none j)
  · intro _
    exact h s hs fun j => .refl j s

/-- **`iput`** -/
theorem wp_iput (hs : InvBut none s) : wp (iput i) (fun _ s' => InvBut none s' ∧
    (∀ j, some j ≠ some i → Stays j s s') ∧
      (1 < (s.inode i).count → Stays i (s.drop i) s')) Ends s := by
  rw [iput, wp_bind, wp_get]
  dsimp only
  rw [wp_ite]
  refine ⟨fun _ => trivial, fun _ => ?_⟩
  have hdrop : wp (set (s.drop i)) (fun _ s' => InvBut none s' ∧
      (∀ j, some j ≠ some i → Stays j s s') ∧ (1 < (s.inode i).count → Stays i (s.drop i) s'))
      Ends s := ⟨hs.drop, fun j hj => .of_eq (setInode_of_ne hj), fun _ => .refl i _⟩
  rw [wp_ite]
  constructor
  · intro hpipe
    rw [wp_ite]
    refine ⟨fun _ => hdrop, fun hone => ?_⟩
    rw [wp_set]
    refine ⟨hs.imp (fun h => h) fun _ h => ?_, fun j hj => .of_eq (setInode_of_ne hj),
      fun h => absurd h hone⟩
    exact h.setInode rfl (fun hp => absurd hp Bool.false_ne_true) fun hdev =>
      absurd (h.pipes i hpipe) hdev
  · intro _
    rw [wp_ite]
    refine ⟨fun _ => hdrop, fun _ => ?_⟩
    refine wp_isBlk hs fun s₁ h₁ hstay => ?_
    have hi := hstay i
    refine wp_post (wp_iputRepeat h₁) fun _ s₂ h₂ => ⟨h₂.1, fun j hj => ?_, fun hc => ?_⟩
    · exact (hstay j).trans (h₂.2.1 j hj)
    · have hlast := h₂.2.2 (by rw [hi.count]; exact hc)
      have hdropped : Stays i (s.drop i) (s₁.drop i) := by
        constructor
        · rw [Kernel.drop, Kernel.drop, setInode_self, setInode_self, hi.d]
        · rw [Kernel.drop, Kernel.drop, setInode_self, setInode_self, hi.id]
        · rw [Kernel.drop, Kernel.drop, setInode_self, setInode_self, hi.count]
        · rw [Kernel.drop, Kernel.drop, setInode_self, setInode_self, hi.pipe]
      exact hdropped.trans hlast

theorem works_iput : Works none (some i) (iput i) := fun _ hs =>
  wp_post (wp_iput hs) fun _ _ h => ⟨h.1, h.2.1⟩

/-- **A new inode is thrown away**: it has been left out, and there is nothing left of it. -/
theorem wp_discard (hs : InvBut (some i) s) (hcount : (s.inode i).count = 1)
    (hpipe : (s.inode i).pipe = false) (hdev : (s.inode i).id.dev ≠ 0)
    (hlinks : (s.inode i).d.nlinks = 0#8) : wp (iput i) (fun _ s' => InvBut none s') Ends s := by
  rw [iput, wp_bind, wp_get]
  dsimp only
  rw [if_neg (by omega), hpipe, if_neg Bool.false_ne_true, if_neg hdev]
  refine wp_isBlk hs fun s₁ h₁ hstay => ?_
  have hi := hstay i
  rw [iputRepeat, wp_bind, wp_get, if_neg (by rw [hi.count]; omega),
    if_pos (by rw [hi.d]; exact hlinks)]
  exact wp_post (wp_delete h₁) fun _ _ h => h.1

/-! ### Inodes that are taken -/

/-- Somebody has the inode. -/
def Held (i : ℕ) (s : Kernel) : Prop := 0 < (s.inode i).count

/-- An inode that `get_empty_inode` has given away. -/
structure Blank (i : ℕ) (s : Kernel) : Prop where
  dev : (s.inode i).id.dev = 0
  pipe : (s.inode i).pipe = false
  held : Held i s

theorem Stays.held (h : Stays i s s') (hi : Held i s) : Held i s' := by
  rw [Held, h.count]
  exact hi

theorem Stays.blank (h : Stays i s s') (hi : Blank i s) : Blank i s' := by
  refine ⟨?_, ?_, h.held hi.held⟩
  · rw [h.id]
    exact hi.dev
  · rw [h.pipe]
    exact hi.pipe

theorem findEmpty_spec {n last : ℕ} {r : Option ℕ}
    (hr : ∀ i ∈ r, i < nrInode ∧ (s.inode i).count = 0) :
    ∀ i ∈ (findEmpty s n last r).2, i < nrInode ∧ (s.inode i).count = 0 := by
  induction n generalizing last r with
  | zero => exact hr
  | succ n ih =>
    rw [findEmpty]
    have hlt : (if nrInode ≤ last + 1 then 0 else last + 1) < nrInode := by
      split
      · exact Nat.zero_lt_succ _
      · omega
    generalize (if nrInode ≤ last + 1 then 0 else last + 1) = k at hlt ⊢
    by_cases hcount : (s.inode k).count = 0
    · have hnew : ∀ i ∈ some k, i < nrInode ∧ (s.inode i).count = 0 := by
        rintro i ⟨⟩
        exact ⟨hlt, hcount⟩
      rw [if_pos hcount]
      split
      · exact hnew
      · exact ih hnew
    · rw [if_neg hcount]
      exact ih hr

/-- **`get_empty_inode`** takes an inode that nobody has. -/
theorem wp_getEmptyInode (hs : InvBut none s) : wp getEmptyInode (fun i s' =>
    InvBut none s' ∧ i < nrInode ∧ Blank i s' ∧ ∀ j, Held j s → j ≠ i ∧ Held j s') Ends s := by
  rw [getEmptyInode, wp_bind, wp_get]
  dsimp only
  rw [wp_bind, wp_set]
  have hspec := @findEmpty_spec s nrInode s.last none
    fun i hi => absurd hi (Option.not_mem_none i)
  cases hr : (findEmpty s nrInode s.last none).2 with
  | none => trivial
  | some i =>
    obtain ⟨hlt, hcount⟩ := hspec i hr
    have hs₁ : InvBut none { s with last := (findEmpty s nrInode s.last none).1 } :=
      hs.imp (fun h => h) fun _ h => h.congr rfl rfl rfl rfl
    refine (works_writeInode (x := none)).step hs₁ fun _ s₂ h₂ hstay => ?_
    rw [wp_bind, wp_get, wp_ite]
    refine ⟨fun _ => trivial, fun hclean => ?_⟩
    rw [Bool.not_eq_true] at hclean
    rw [wp_bind, wp_set, wp_pure]
    refine ⟨?_, hlt, ⟨?_, ?_, ?_⟩, fun j hj => ?_⟩
    · refine h₂.imp (fun h => h) fun _ h => ?_
      refine GoodBut.leave h.weaken rfl rfl rfl rfl (fun _ _ => rfl) fun hdev _ => ?_
      -- it is clean, and so it is on the disk
      have hsame : (s₂.inode i).d = s₂.image (s₂.inode i).id := by
        by_contra hne
        rw [h.marked i (Option.some_ne_none i) hdev hne] at hclean
        exact absurd hclean (Bool.noConfusion)
      rw [h.value i (Option.some_ne_none i) hdev]
      exact hsame.symm
    · rw [setInode_self]
      rfl
    · rw [setInode_self]
      rfl
    · rw [Held, setInode_self]
      exact Nat.one_pos
    · have hji : j ≠ i := by
        intro heq
        rw [Held, heq, hcount] at hj
        exact absurd hj (Nat.lt_irrefl 0)
      refine ⟨hji, ?_⟩
      have hj₂ : Held j s₂ := (hstay j (Option.some_ne_none j)).held hj
      rw [Held, setInode_of_ne fun heq => hji (Option.some.inj heq)]
      exact hj₂

/-- Another reference is dropped, or not the last. -/
theorem wp_iput_held {k : ℕ} (hs : InvBut none s) (hj : Held j s)
    (hk : j = k → 1 < (s.inode j).count) :
    wp (iput k) (fun _ s' => InvBut none s' ∧ Held j s') Ends s := by
  refine wp_post (wp_iput hs) fun _ s' h => ⟨h.1, ?_⟩
  by_cases hjk : j = k
  · subst hjk
    refine (h.2.2 (hk rfl)).held ?_
    rw [Held, Kernel.drop, setInode_self]
    exact Nat.sub_pos_of_lt (hk rfl)
  · exact (h.2.1 j fun heq => hjk (Option.some.inj heq)).held hj

/-- **An inode is read in**, into an empty slot. -/
theorem wp_readInode {n : MInode} (hs : InvBut none s) (hi : Blank i s) (hlt : i < nrInode)
    (hno : ∀ j < nrInode, (s.inode j).id ≠ id) (hn : n = { s.inode i with id := id })
    (hinode : s'.inode = Function.update s.inode i n) (himage : s'.image = s.image)
    (hvalue : s'.value = s.value) (hused : s'.used = s.used)
    (hmissed : s'.missed = (s.missed || !s.used id)) :
    wp (readInode i) (fun _ s'' => InvBut none s'' ∧ Held i s'') Ends s' := by
  rw [readInode, wp_bind]
  refine wp_post wp_breadLocked fun _ t ⟨o, ht⟩ => ?_
  subst ht hn
  rw [wp_modify]
  have hs'i : s'.inode i = { s.inode i with id := id } := by
    rw [hinode]
    exact Function.update_self ..
  have hself : ({ s' with oracle := o }.setInode i fun n => { n with d := s'.image n.id }).inode i =
      { s'.inode i with d := s'.image (s'.inode i).id } := Function.update_self ..
  constructor
  · refine hs.imp (fun hm => ?_) fun hm h => ?_
    · exact (Bool.or_eq_false_iff.mp (hmissed.symm.trans hm)).1
    · have hu : s.used id = true := by
        have := (Bool.or_eq_false_iff.mp (hmissed.symm.trans hm)).2
        rwa [Bool.not_eq_false'] at this
      have hnone : id.dev ≠ 0 → ∀ j, (s.inode j).id ≠ id := by
        intro hdev j heq
        by_cases hj : j < nrInode
        · exact hno j hj heq
        · rw [← heq] at hdev
          exact hdev (h.table j (Nat.le_of_not_lt hj))
      have hall : GoodBut (some i)
          ({ s' with oracle := o }.setInode i fun n => { n with d := s'.image n.id }) := by
        refine h.enter (n := { s.inode i with id := id, d := s.image id }) hi.dev hlt ?_ hnone
          hi.pipe himage hvalue (fun _ _ => congrFun hused _) fun _ => (congrFun hused id).trans hu
        change Function.update s'.inode i _ = _
        rw [hinode, Function.update_idem, himage]
        dsimp only
        rw [Function.update_self]
      refine hall.close fun hdev => ?_
      rw [hself, hs'i] at hdev ⊢
      refine ⟨fun hne => absurd rfl hne, ?_⟩
      change s'.value id = s'.image id
      rw [hvalue, himage]
      exact (h.kept id hdev hu (hnone hdev)).symm
  · rw [Held, hself, hs'i]
    exact hi.held

/-- The loop of **`iget`** -/
theorem wp_igetLoop {empty n : ℕ} (hlt : empty < nrInode) (hs : InvBut none s)
    (hb : Blank empty s) :
    wp (igetLoop empty n id) (fun j s' => InvBut none s' ∧ Held j s') Ends s := by
  induction n generalizing id s with
  | zero => trivial
  | succ n ih =>
    rw [igetLoop, wp_bind, wp_get]
    cases hfind : s.find id with
    | none =>
      have hno : ∀ j < nrInode, (s.inode j).id ≠ id := by
        intro j hj heq
        rw [Kernel.find, List.find?_eq_none] at hfind
        have := hfind j (List.mem_range.mpr hj)
        rw [decide_eq_true_eq] at this
        exact this heq
      dsimp only
      rw [wp_bind, wp_set, wp_bind]
      refine wp_post (wp_readInode hs hb hlt hno rfl rfl rfl rfl rfl rfl) fun _ s' h => ?_
      rw [wp_pure]
      exact h
    | some j =>
      have hheld : ∀ k, j = k → Held k s →
          1 < ((s.setInode j fun n => { n with count := n.count + 1 }).inode j).count := by
        intro k hk hh
        subst hk
        rw [setInode_self]
        exact Nat.succ_lt_succ hh
      have hj : Held j (s.setInode j fun n => { n with count := n.count + 1 }) := by
        rw [Held, setInode_self]
        exact Nat.succ_pos _
      have hput : wp (iput empty >>= fun _ => pure j) (fun j s' => InvBut none s' ∧ Held j s') Ends
          (s.setInode j fun n => { n with count := n.count + 1 }) := by
        rw [wp_bind]
        exact wp_post (wp_iput_held hs.hold hj fun heq => hheld empty heq (heq ▸ hb.held))
          fun _ _ h => h
      dsimp only
      rw [wp_bind, wp_set, wp_ite]
      refine ⟨fun _ => ?_, fun _ => hput⟩
      split
      · exact hput
      · rw [wp_bind]
        refine wp_post (wp_iput hs.hold) fun _ s' h => ih h.1 ?_
        by_cases hje : j = empty
        · -- the reference that has just been taken is dropped again
          have hback : Stays j s
              ((s.setInode j fun n => { n with count := n.count + 1 }).drop j) := by
            refine .of_eq ?_
            rw [Kernel.drop, Kernel.setInode, Kernel.setInode]
            dsimp only
            rw [Function.update_self, Function.update_self]
            rfl
          subst hje
          exact (hback.trans (h.2.2 (hheld j rfl hb.held))).blank hb
        · have hne : some empty ≠ some j := fun heq => hje (Option.some.inj heq).symm
          exact (Stays.trans (.of_eq (setInode_of_ne hne)) (h.2.1 empty hne)).blank hb

/-- **`iget`** -/
theorem wp_iget (hs : InvBut none s) :
    wp (iget id) (fun i s' => InvBut none s' ∧ Held i s') Ends s := by
  rw [iget]
  split
  · trivial
  · rw [wp_bind]
    exact wp_post (wp_getEmptyInode hs) fun _ _ h => wp_igetLoop h.2.1 h.1 h.2.2.1

/-- Only the caller has the inode. -/
structure Sole (i : ℕ) (s : Kernel) : Prop where
  count : (s.inode i).count = 1
  pipe : (s.inode i).pipe = false
  dev : (s.inode i).id.dev ≠ 0

/-- What `new_inode` gives: a link, a reference, and no more. -/
structure New (i : ℕ) (s : Kernel) : Prop extends Sole i s where
  nlinks : (s.inode i).d.nlinks = 1#8

theorem Stays.sole (h : Stays i s s') (hi : Sole i s) : Sole i s' := by
  constructor
  · rw [h.count]
    exact hi.count
  · rw [h.pipe]
    exact hi.pipe
  · rw [h.id]
    exact hi.dev

theorem Stays.new (h : Stays i s s') (hi : New i s) : New i s' := by
  refine ⟨h.sole hi.toSole, ?_⟩
  rw [h.d]
  exact hi.nlinks

theorem Sole.change {b : Bool} {f : DInode → DInode} (hi : Sole i s) : Sole i (s.change i b f) := by
  constructor
  · rw [change_self]
    exact hi.count
  · rw [change_self]
    exact hi.pipe
  · rw [change_self]
    exact hi.dev

theorem New.change {b : Bool} {f : DInode → DInode} (hi : New i s)
    (hf : ∀ d, (f d).nlinks = d.nlinks) : New i (s.change i b f) := by
  refine ⟨hi.toSole.change, ?_⟩
  rw [change_self]
  exact (hf _).trans hi.nlinks

/-- A number whose bit is 0 is given to an empty slot. -/
theorem InvBut.allot (hs : InvBut none s) (hi : Blank i s) (hlt : i < nrInode) (hdev : id.dev ≠ 0)
    (hfree : s.used id ≠ true) :
    InvBut (some i) { s.setInode i fun n => { n with id := id } with
      used := Function.update s.used id true } := by
  refine hs.imp (fun h => h) fun _ h => ?_
  refine h.enter (n := { s.inode i with id := id }) hi.dev hlt rfl (fun _ j heq => hfree ?_)
    hi.pipe rfl rfl (fun _ hid => Function.update_of_ne hid ..) fun _ => Function.update_self ..
  have heq' : (s.inode j).id = id := heq
  rw [← heq']
  exact h.used j (by rw [heq']; exact hdev)

/-- **`new_inode`** gives an inode that nobody has. -/
theorem wp_newInode {dev euid egid : ℕ} (hs : InvBut none s) : wp (newInode dev euid egid)
    (fun r s' => InvBut none s' ∧ ∀ i ∈ r, New i s' ∧ ∀ j, Held j s → j ≠ i) Ends s := by
  rw [newInode, wp_bind]
  refine wp_post (wp_getEmptyInode hs) fun i s₁ ⟨h₁, hlt, hb, hothers⟩ => ?_
  refine (works_ask (x := none)).step h₁ fun num s₂ h₂ hstay₂ => ?_
  rw [wp_bind, wp_get, wp_ite]
  refine ⟨fun _ => trivial, fun hdev => ?_⟩
  rw [wp_ite]
  constructor
  · intro _
    refine works_iput.step h₂ fun _ s₃ h₃ _ => ?_
    exact ⟨h₃, fun i hi => absurd hi (Option.not_mem_none i)⟩
  · intro hnew
    rw [not_or] at hnew
    rw [currentTime, wp_bind, wp_ask]
    set s₃ : Kernel := { s₂ with oracle := fun n => s₂.oracle (n + 1) }
    have h₃ : InvBut none s₃ := h₂.imp (fun h => h) fun _ h => h.congr rfl rfl rfl rfl
    have hstay₃ : Stays i s₂ s₃ := .of_eq rfl
    have hb₃ : Blank i s₃ := ((hstay₂ i (Option.some_ne_none i)).trans hstay₃).blank hb
    have h₄ := @InvBut.allot _ _ ⟨dev, num⟩ h₃ hb₃ hlt hdev hnew.2
    rw [wp_bind, wp_modify]
    set s₄ : Kernel := { s₃.setInode i fun n => { n with id := ⟨dev, num⟩ } with
      used := Function.update s₃.used ⟨dev, num⟩ true }
    have hs₄ : s₄.inode i = { s₃.inode i with id := ⟨dev, num⟩ } := Function.update_self ..
    rw [wp_bind, wp_modify, wp_pure]
    constructor
    · refine h₄.imp (fun h => h) fun _ h => ?_
      exact h.change_mark.setInode rfl (fun hp => hp) fun _ => ⟨rfl, fun hd => hd⟩
    · rintro _ ⟨⟩
      refine ⟨?_, fun j hj => (hothers j hj).1⟩
      set f : DInode → DInode := fun d =>
        { d with nlinks := 1#8, uid := euid, gid := egid, mtime := s₂.oracle 0 }
      have hself : ((s₄.change i true f).setInode i fun n => { n with count := 1 }).inode i =
          { s₄.inode i with
            d := f (s₄.inode i).d
            dirt := (s₄.inode i).dirt || true
            count := 1 } := by
        rw [setInode_self, change_self]
      refine ⟨⟨?_, ?_, ?_⟩, ?_⟩
      · rw [hself]
      · rw [hself, hs₄]
        exact hb₃.pipe
      · rw [hself, hs₄]
        exact hdev
      · rw [hself]

/-! ### Blocks of a file -/

theorem works_makeZone {k : Fin 9} : Works none (some i) (makeZone i k) := by
  refine .read fun _ => .ite (.pure _) (works_newBlock.bind fun z => ?_)
  exact .ite (.pure _) works_change_mark

/-- **`create_block`** marks the inode wherever it changes it. -/
theorem works_createBlock {block : ℕ} : Works none (some i) (createBlock i block) := by
  refine .ite (.throw _) (.ite ?_ (.ite ?_ ?_))
  · exact works_makeZone.bind fun _ => .read fun _ => .pure _
  · exact works_makeZone.bind fun _ => .read fun _ => .ite (.pure _) works_makeEntry
  · refine works_makeZone.bind fun _ => .read fun _ => .ite (.pure _) ?_
    exact works_makeEntry.bind fun _ => .ite (.pure _) works_makeEntry

/-- A time that is set without a mark. -/
theorem works_touch {t : ℕ} : Works none (some i) (modify fun s => s.touch i t) := by
  refine .modify (fun s hs => ?_) fun s j hj =>
    Function.update_of_ne (fun heq => hj (congrArg some heq)) ..
  intro hm
  exact (hs (Bool.or_eq_false_iff.mp hm).1).touch hm

theorem works_freeSlot {k : ℕ} : Works none (some i) (freeSlot i k) :=
  .read fun _ => .ite (works_change_mark.bind fun _ => .pure _) works_asks

theorem works_addLoop {n k : ℕ} {b : Bool} : Works none (some i) (addLoop i n k b) := by
  induction n generalizing k b with
  | zero => exact .throw _
  | succ n ih =>
    rw [addLoop]
    refine .ite ?_ ?_
    · exact works_createBlock.bind fun _ => .ite (.pure _) (works_bread.bind fun _ => .ite ih ih)
    · refine works_freeSlot.bind fun _ => .ite ?_ ih
      exact works_ask.bind fun t => works_touch.bind fun _ => .pure _

/-- **`add_entry`** -/
theorem works_addEntry : Works none (some i) (addEntry i) := by
  refine works_asks.bind fun _ => .read fun _ => .ite (.pure _) ?_
  exact works_bread.bind fun _ => .ite (works_ask.bind fun _ => works_addLoop) (.pure _)

/-! ### Lookups -/

variable {t : Task} {dir : ℕ}

/-- **Code that ends with the table in order**, if it begins so. -/
def Keeps (m : M α) : Prop := ∀ s, InvBut none s → wp m (fun _ s' => InvBut none s') Ends s

theorem Works.keeps (h : Works none x m) : Keeps m := fun s hs =>
  wp_post (h s hs) fun _ _ h' => h'.1

namespace Keeps

theorem pure (a : α) : Keeps (pure a : M α) := fun _ hs => hs

theorem bind {f : α → M β} (hm : Keeps m) (hf : ∀ a, Keeps (f a)) : Keeps (m >>= f) := by
  intro s hs
  rw [wp_bind]
  exact wp_post (hm s hs) fun a s' h => hf a s' h

theorem read {f : Kernel → M α} (hf : ∀ s, Keeps (f s)) : Keeps (get >>= f) := by
  intro s hs
  rw [wp_bind]
  exact hf s s hs

theorem ite {c : Prop} [Decidable c] {m m' : M α} (h : Keeps m) (h' : Keeps m') :
    Keeps (if c then m else m') := by
  split
  · exact h
  · exact h'

end Keeps

theorem keeps_iput : Keeps (iput i) := works_iput.keeps

theorem keeps_change_mark {f : DInode → DInode} : Keeps (modify fun s => s.change i true f) :=
  works_change_mark.keeps

/-- An inode is put back, and there is a result. -/
theorem keeps_iput_pure (a : α) : Keeps (iput i >>= fun _ => pure a) :=
  keeps_iput.bind fun _ => .pure a

theorem wp_exchange (hs : InvBut none s) (hdir : Held dir s) :
    wp (exchange t dir) (fun r s' => InvBut none s' ∧ Held r s') Ends s := by
  refine (works_asks (x := none)).step hs fun b s₁ h₁ hstay => ?_
  have hdir₁ := (hstay dir (Option.some_ne_none dir)).held hdir
  rw [wp_bind, wp_get, wp_ite]
  refine ⟨fun _ => ⟨h₁, hdir₁⟩, fun _ => ?_⟩
  split
  · exact ⟨h₁, hdir₁⟩
  · refine works_iput.step h₁ fun _ s₂ h₂ _ => ?_
    rw [wp_bind, wp_modify, wp_pure]
    refine ⟨h₂.hold, ?_⟩
    rw [Held, setInode_self]
    exact Nat.succ_pos _

/-- **`find_entry`** keeps hold of a directory. -/
theorem wp_findEntry (hs : InvBut none s) (hdir : Held dir s) :
    wp (findEntry t dir) (fun r s' => InvBut none s' ∧ Held r.1 s') Ends s := by
  rw [findEntry, wp_bind]
  refine wp_post (wp_exchange hs hdir) fun r s₁ ⟨h₁, hr₁⟩ => ?_
  refine (works_search (x := none)).step h₁ fun _ s₂ h₂ hstay₂ => ?_
  refine (works_ask (x := none)).step h₂ fun num s₃ h₃ hstay₃ => ⟨h₃, ?_⟩
  have hr₂ := (hstay₂ r (Option.some_ne_none r)).held hr₁
  exact (hstay₃ r (Option.some_ne_none r)).held hr₂

theorem wp_walk {n : ℕ} (hs : InvBut none s) (hi : Held i s) :
    wp (walk t n i) (fun r s' => InvBut none s' ∧ ∀ dir ∈ r, Held dir s') Ends s := by
  have hfail : ∀ {j : ℕ} {s : Kernel}, InvBut none s →
      wp (iput j >>= fun _ => pure (none : Option ℕ))
        (fun r s' => InvBut none s' ∧ ∀ dir ∈ r, Held dir s') Ends s := by
    intro j s hs
    refine works_iput.step hs fun _ s' h _ => ⟨h, fun dir hdir => ?_⟩
    exact absurd hdir (Option.not_mem_none dir)
  induction n generalizing i s with
  | zero =>
    refine ⟨hs, ?_⟩
    rintro _ ⟨⟩
    exact hi
  | succ n ih =>
    rw [walk]
    refine (works_asks (x := none)).step hs fun b s₁ h₁ hstay => ?_
    have hi₁ := (hstay i (Option.some_ne_none i)).held hi
    rw [wp_bind, wp_get, wp_ite]
    refine ⟨fun _ => hfail h₁, fun _ => ?_⟩
    rw [wp_bind]
    refine wp_post (wp_findEntry h₁ hi₁) fun r s₂ ⟨h₂, _⟩ => ?_
    rcases r with ⟨dir, _ | num⟩
    · exact hfail h₂
    · dsimp only
      rw [wp_bind, wp_get]
      refine works_iput.step h₂ fun _ s₃ h₃ _ => ?_
      rw [wp_bind]
      exact wp_post (wp_iget h₃) fun j s₄ ⟨h₄, hj⟩ => ih h₄ hj

theorem wp_dirNamei (hs : InvBut none s) :
    wp (dirNamei t) (fun r s' => InvBut none s' ∧ ∀ p ∈ r, Held p.1 s') Ends s := by
  rw [dirNamei]
  refine (works_ask (x := none)).step hs fun n s₁ h₁ _ => ?_
  refine (works_asks (x := none)).step h₁ fun b s₂ h₂ _ => ?_
  dsimp only
  rw [wp_bind, wp_modify, wp_bind]
  have hi : Held (if b then t.root else t.pwd)
      (s₂.setInode (if b then t.root else t.pwd) fun n => { n with count := n.count + 1 }) := by
    rw [Held, setInode_self]
    exact Nat.succ_pos _
  refine wp_post (wp_walk h₂.hold hi) fun r s₃ ⟨h₃, hr⟩ => ?_
  cases r with
  | none => exact ⟨h₃, fun p hp => absurd hp (Option.not_mem_none p)⟩
  | some dir =>
    refine (works_asks (x := none)).step h₃ fun name s₄ h₄ hstay => ⟨h₄, ?_⟩
    rintro _ ⟨⟩
    exact (hstay dir (Option.some_ne_none dir)).held (hr dir rfl)

/-- **`namei`** -/
theorem keeps_namei : Keeps (namei t) := by
  intro s hs
  rw [namei, wp_bind]
  refine wp_post (wp_dirNamei hs) fun r s₁ ⟨h₁, hr⟩ => ?_
  rcases r with _ | ⟨dir, _ | _⟩
  · exact h₁
  · exact h₁
  · dsimp only
    rw [wp_bind]
    refine wp_post (wp_findEntry h₁ (hr _ rfl)) fun r s₂ ⟨h₂, _⟩ => ?_
    rcases r with ⟨dir, _ | num⟩
    · exact keeps_iput_pure _ s₂ h₂
    · dsimp only
      rw [wp_bind, wp_get]
      refine works_iput.step h₂ fun _ s₃ h₃ _ => ?_
      rw [wp_bind]
      refine wp_post (wp_iget h₃) fun j s₄ ⟨h₄, _⟩ => ?_
      rw [wp_bind, wp_modify, wp_pure]
      refine h₄.imp (fun h => h) fun _ h => ?_
      exact h.setInode rfl (fun hp => hp) fun _ => ⟨rfl, fun _ => rfl⟩

/-- The directory and the entry of a call. -/
theorem wp_lookup (hs : InvBut none s) :
    wp (lookup t) (fun r s' => InvBut none s' ∧ ∀ p ∈ r, Held p.1 s') Ends s := by
  rw [lookup, wp_bind]
  refine wp_post (wp_dirNamei hs) fun r s₁ ⟨h₁, hr⟩ => ?_
  rcases r with _ | ⟨dir, name⟩
  · exact ⟨h₁, fun p hp => absurd hp (Option.not_mem_none p)⟩
  · refine (works_asks (x := none)).step h₁ fun allowed s₂ h₂ hstay => ?_
    have hdir := (hstay dir (Option.some_ne_none dir)).held (hr _ rfl)
    rw [wp_ite]
    constructor
    · intro _
      refine works_iput.step h₂ fun _ s₃ h₃ _ => ⟨h₃, fun p hp => ?_⟩
      exact absurd hp (Option.not_mem_none p)
    · intro _
      rw [wp_bind]
      refine wp_post (wp_findEntry h₂ hdir) fun r s₃ ⟨h₃, hr₃⟩ => ⟨h₃, ?_⟩
      rintro _ ⟨⟩
      exact hr₃

/-! ### System calls -/

/-- **A new inode that gets no entry** loses its links, and goes. -/
theorem keeps_dispose {f : DInode → DInode} (hs : InvBut none s) (hi : Sole i s)
    (hf : (f (s.inode i).d).nlinks = 0#8) :
    wp (iput i) (fun _ s' => InvBut none s') Ends (s.change i false f) := by
  have hout : InvBut (some i) (s.change i false f) :=
    hs.weaken.imp (fun h => h) fun _ h => h.change
  have hi' : Sole i (s.change i false f) := hi.change
  refine wp_discard hout hi'.count hi'.pipe hi'.dev ?_
  rw [change_self]
  exact hf

/-- What is new is not the directory. -/
theorem ne_dir (h : ∀ j, Held j s → j ≠ i) (hdir : Held dir s) : some i ≠ some dir :=
  fun heq => h dir hdir (Option.some.inj heq).symm

/-- **`open_namei`** -/
theorem keeps_openNamei {creat excl trunc : Bool} {mode : BitVec 16} :
    Keeps (openNamei t creat excl trunc mode) := by
  intro s hs
  rw [openNamei, wp_bind]
  refine wp_post (wp_dirNamei hs) fun r s₁ ⟨h₁, hr⟩ => ?_
  rcases r with _ | ⟨dir, _ | _⟩
  · exact h₁
  · exact (works_asks (x := none)).keeps.bind (fun _ => .ite (.pure _) (keeps_iput_pure _)) s₁ h₁
  · dsimp only
    rw [wp_bind]
    refine wp_post (wp_findEntry h₁ (hr _ rfl)) fun r s₂ ⟨h₂, hdir₂⟩ => ?_
    rcases r with ⟨dir, _ | num⟩
    · dsimp only at hdir₂ ⊢
      refine (works_asks (x := none)).step h₂ fun allowed s₃ h₃ hstay₃ => ?_
      have hdir₃ := (hstay₃ dir (Option.some_ne_none dir)).held hdir₂
      rw [wp_ite]
      refine ⟨fun _ => keeps_iput_pure _ s₃ h₃, fun _ => ?_⟩
      rw [wp_bind, wp_get, wp_bind]
      refine wp_post (wp_newInode h₃) fun r s₄ ⟨h₄, hr₄⟩ => ?_
      cases r with
      | none => exact keeps_iput_pure _ s₄ h₄
      | some i =>
        obtain ⟨hnew, hothers⟩ := hr₄ i rfl
        have hne := ne_dir hothers hdir₃
        dsimp only
        rw [wp_bind, wp_modify]
        refine works_addEntry.step (h₄.weaken.imp (fun h => h) fun _ h => h.change_mark)
          fun b s₅ h₅ hstay₅ => ?_
        have hnew₅ : New i s₅ := (hstay₅ i hne).new (hnew.change fun _ => rfl)
        rw [wp_ite]
        constructor
        · intro _
          exact keeps_iput_pure _ s₅ h₅
        · intro _
          rw [wp_bind, wp_modify, wp_bind]
          refine wp_post (keeps_dispose h₅ hnew₅.toSole ?_) fun _ s₆ h₆ => keeps_iput_pure _ s₆ h₆
          rw [hnew₅.nlinks]
          rfl
    · dsimp only
      rw [wp_bind, wp_get]
      refine works_iput.step h₂ fun _ s₃ h₃ _ => ?_
      rw [wp_ite]
      refine ⟨fun _ => h₃, fun _ => ?_⟩
      rw [wp_bind]
      refine wp_post (wp_iget h₃) fun i s₄ ⟨h₄, _⟩ => ?_
      refine (works_asks (x := none)).keeps.bind (fun b => .ite (keeps_iput_pure _) ?_) s₄ h₄
      exact .ite ((works_truncate (Or.inl rfl)).keeps.bind fun _ => .pure _) (.pure _)

/-- **`sys_mknod`** -/
theorem keeps_sysMknod {mode : BitVec 16} {dev : ℕ} : Keeps (sysMknod t mode dev) := by
  intro s hs
  rw [sysMknod, wp_bind]
  refine wp_post (wp_lookup hs) fun r s₁ ⟨h₁, hr⟩ => ?_
  rcases r with _ | ⟨dir, _ | num⟩
  · exact h₁
  · have hdir : Held dir s₁ := hr _ rfl
    dsimp only
    rw [wp_bind, wp_get, wp_bind]
    refine wp_post (wp_newInode h₁) fun r s₂ ⟨h₂, hr₂⟩ => ?_
    cases r with
    | none => exact keeps_iput s₂ h₂
    | some i =>
      obtain ⟨hnew, hothers⟩ := hr₂ i rfl
      have hne := ne_dir hothers hdir
      refine (works_ask (x := none)).step h₂ fun now s₃ h₃ hstay₃ => ?_
      have hnew₃ := (hstay₃ i (Option.some_ne_none i)).new hnew
      rw [wp_bind, wp_modify]
      refine works_addEntry.step (h₃.weaken.imp (fun h => h) fun _ h => h.change_mark)
        fun b s₄ h₄ hstay₄ => ?_
      have hnew₄ : New i s₄ := (hstay₄ i hne).new (hnew₃.change fun _ => rfl)
      rw [wp_ite]
      constructor
      · intro _
        exact keeps_iput.bind (fun _ => keeps_iput) s₄ h₄
      · intro _
        refine works_iput.step h₄ fun _ s₅ h₅ hstay₅ => ?_
        rw [wp_bind, wp_modify]
        exact keeps_dispose h₅ ((hstay₅ i hne).new hnew₄).toSole rfl
  · exact keeps_iput s₁ h₁

/-- **`sys_mkdir`** -/
theorem keeps_sysMkdir {mode : BitVec 16} : Keeps (sysMkdir t mode) := by
  intro s hs
  rw [sysMkdir, wp_bind]
  refine wp_post (wp_lookup hs) fun r s₁ ⟨h₁, hr⟩ => ?_
  rcases r with _ | ⟨dir, _ | num⟩
  · exact h₁
  · have hdir : Held dir s₁ := hr _ rfl
    dsimp only
    rw [wp_bind, wp_get, wp_bind]
    refine wp_post (wp_newInode h₁) fun r s₂ ⟨h₂, hr₂⟩ => ?_
    cases r with
    | none => exact keeps_iput s₂ h₂
    | some i =>
      obtain ⟨hnew, hothers⟩ := hr₂ i rfl
      have hne := ne_dir hothers hdir
      refine (works_ask (x := none)).step h₂ fun now s₃ h₃ hstay₃ => ?_
      have hnew₃ := (hstay₃ i (Option.some_ne_none i)).new hnew
      rw [wp_bind, wp_modify]
      refine (works_newBlock (x := none)).step
        (h₃.weaken.imp (fun h => h) fun _ h => h.change_mark) fun z s₄ h₄ hstay₄ => ?_
      have hnew₄ : New i s₄ := (hstay₄ i (Option.some_ne_none i)).new (hnew₃.change fun _ => rfl)
      rw [wp_ite]
      constructor
      · intro _
        refine works_iput.step h₄ fun _ s₅ h₅ hstay₅ => ?_
        have hnew₅ := (hstay₅ i hne).new hnew₄
        rw [wp_bind, wp_modify]
        refine keeps_dispose h₅ hnew₅.toSole ?_
        rw [hnew₅.nlinks]
        rfl
      · intro _
        rw [wp_bind, wp_modify]
        refine (works_bread (x := none)).step
          (h₄.weaken.imp (fun h => h) fun _ h => h.change_mark) fun b s₅ h₅ hstay₅ => ?_
        have hnew₅ : New i s₅ := (hstay₅ i (Option.some_ne_none i)).new (hnew₄.change fun _ => rfl)
        rw [wp_ite]
        constructor
        · intro _
          rw [wp_bind, wp_modify]
          refine works_addEntry.step (h₅.weaken.imp (fun h => h) fun _ h => h.change_mark)
            fun b s₆ h₆ hstay₆ => ?_
          have hsole₆ : Sole i s₆ := (hstay₆ i hne).sole hnew₅.toSole.change
          rw [wp_ite]
          constructor
          · intro _
            exact keeps_change_mark.bind (fun _ => keeps_iput.bind fun _ => keeps_iput) s₆ h₆
          · intro _
            refine works_iput.step h₆ fun _ s₇ h₇ hstay₇ => ?_
            refine (works_freeBlock (x := none)).step h₇ fun _ s₈ h₈ hstay₈ => ?_
            rw [wp_bind, wp_modify]
            have hsole₇ := (hstay₇ i hne).sole hsole₆
            exact keeps_dispose h₈ ((hstay₈ i (Option.some_ne_none i)).sole hsole₇) rfl
        · intro _
          refine works_iput.step h₅ fun _ s₆ h₆ hstay₆ => ?_
          refine (works_freeBlock (x := none)).step h₆ fun _ s₇ h₇ hstay₇ => ?_
          have hnew₇ := (hstay₇ i (Option.some_ne_none i)).new ((hstay₆ i hne).new hnew₅)
          rw [wp_bind, wp_modify]
          refine keeps_dispose h₇ hnew₇.toSole ?_
          rw [hnew₇.nlinks]
          rfl
  · exact keeps_iput s₁ h₁

/-- An inode is found, and what comes next keeps the table in order. -/
theorem wp_found {f : ℕ → M PUnit} (hs : InvBut none s) (hf : ∀ i, Keeps (f i)) :
    wp (iget id >>= f) (fun _ s' => InvBut none s') Ends s := by
  rw [wp_bind]
  exact wp_post (wp_iget hs) fun i s' h => hf i s' h.1

/-- **`sys_rmdir`** -/
theorem keeps_sysRmdir : Keeps (sysRmdir t) := by
  intro s hs
  rw [sysRmdir, wp_bind]
  refine wp_post (wp_lookup hs) fun r s₁ ⟨h₁, _⟩ => ?_
  rcases r with _ | ⟨dir, _ | num⟩
  · exact h₁
  · exact keeps_iput s₁ h₁
  · dsimp only
    rw [wp_bind, wp_get]
    refine wp_found h₁ fun i => (works_search (x := none)).keeps.bind fun _ => ?_
    refine (works_asks (x := none)).keeps.bind fun _ => .ite ?_ ?_
    · exact keeps_iput.bind fun _ => keeps_iput
    · refine (works_ask (x := none)).keeps.bind fun _ => keeps_change_mark.bind fun _ => ?_
      exact keeps_change_mark.bind fun _ => keeps_iput.bind fun _ => keeps_iput

/-- **`sys_unlink`** -/
theorem keeps_sysUnlink : Keeps (sysUnlink t) := by
  intro s hs
  rw [sysUnlink, wp_bind]
  refine wp_post (wp_lookup hs) fun r s₁ ⟨h₁, _⟩ => ?_
  rcases r with _ | ⟨dir, _ | num⟩
  · exact h₁
  · exact keeps_iput s₁ h₁
  · dsimp only
    rw [wp_bind, wp_get]
    refine wp_found h₁ fun i => (works_asks (x := none)).keeps.bind fun _ => .read fun _ => ?_
    refine .ite (keeps_iput.bind fun _ => keeps_iput) ?_
    exact keeps_change_mark.bind fun _ => keeps_iput.bind fun _ => keeps_iput

/-- **`sys_link`** -/
theorem keeps_sysLink : Keeps (sysLink t) := by
  refine keeps_namei.bind fun r => ?_
  cases r with
  | none => exact .pure _
  | some old =>
    refine .read fun _ => .ite keeps_iput fun s hs => ?_
    rw [wp_bind]
    refine wp_post (wp_lookup hs) fun r s₁ ⟨h₁, _⟩ => ?_
    rcases r with _ | ⟨dir, _ | num⟩
    · exact keeps_iput s₁ h₁
    · refine works_addEntry.keeps.bind (fun _ => .ite ?_ ?_) s₁ h₁
      · exact keeps_iput.bind fun _ => keeps_change_mark.bind fun _ => keeps_iput
      · exact keeps_iput.bind fun _ => keeps_iput
    · exact keeps_iput.bind (fun _ => keeps_iput) s₁ h₁

/-- `sys_chmod`, `sys_chown` and `sys_utime` -/
theorem keeps_changeNamed {f : DInode → DInode} : Keeps (changeNamed t f) := by
  refine keeps_namei.bind fun r => ?_
  cases r with
  | none => exact .pure _
  | some i =>
    refine (works_asks (x := none)).keeps.bind fun _ => .ite ?_ keeps_iput
    exact keeps_change_mark.bind fun _ => keeps_iput

/-- **`file_write`** -/
theorem works_writeLoop {n pos left : ℕ} : Works none (some i) (writeLoop i n pos left) := by
  induction n generalizing pos left with
  | zero => exact .throw _
  | succ n ih =>
    refine .ite (.pure _) (works_createBlock.bind fun _ => .ite (.pure _) ?_)
    refine works_bread.bind fun _ => .ite ?_ (.pure _)
    refine .bind (.modify (fun s hs => ?_) fun s j hj => ?_) fun _ => works_search.bind fun _ => ih
    · split
      · exact hs.weaken.imp (fun h => h) fun _ h => h.change_mark
      · exact hs
    · split
      · exact Function.update_of_ne (fun heq => hj (congrArg some heq)) ..
      · rfl

theorem keeps_sysWrite {pos count : ℕ} : Keeps (sysWrite i pos count) := by
  refine .read fun _ => .ite ?_ (.pure _)
  refine works_writeLoop.keeps.bind fun _ => (works_ask (x := none)).keeps.bind fun _ => ?_
  exact works_touch.keeps

/-- **Every call** keeps the table in order. -/
theorem keeps_run (c : Call) : Keeps (c.run t) := by
  cases c with
  | «open» creat excl trunc mode => exact keeps_openNamei.bind fun _ => .pure _
  | write i pos count => exact keeps_sysWrite
  | close i => exact keeps_iput
  | chmod mode => exact keeps_changeNamed
  | chown uid gid => exact keeps_changeNamed
  | utime modtime => exact keeps_changeNamed
  | link => exact keeps_sysLink
  | unlink => exact keeps_sysUnlink
  | mkdir mode => exact keeps_sysMkdir
  | rmdir => exact keeps_sysRmdir
  | mknod mode dev => exact keeps_sysMknod
  | sync => exact (works_syncInodes (x := none)).keeps

/-! ### Runs -/

/-- **A machine that has just been started**: what is in the table is as on the disks. -/
structure Start (s : Kernel) : Prop where
  same : ∀ i, (s.inode i).id.dev ≠ 0 → (s.inode i).d = s.image (s.inode i).id
  once : ∀ i j, (s.inode i).id.dev ≠ 0 → (s.inode i).id = (s.inode j).id → i = j
  used : ∀ i, (s.inode i).id.dev ≠ 0 → s.used (s.inode i).id = true
  table : ∀ i, nrInode ≤ i → (s.inode i).id.dev = 0
  pipes : ∀ i, (s.inode i).pipe = true → (s.inode i).id.dev = 0
  value : s.value = s.image
  missed : s.missed = false

/-- It is in order. -/
theorem Start.good (h : Start s) : GoodBut none s := by
  refine ⟨fun i _ hdev hne => absurd (h.same i hdev) hne, fun i _ hdev => ?_, h.once, h.used,
    fun id _ _ _ => ?_, h.table, h.pipes⟩
  · rw [h.value]
    exact (h.same i hdev).symm
  · rw [h.value]

/-- **In between calls** the table is in order, unless something has gone wrong. -/
theorem invBut_reachable (h : Reachable Start Step s) : InvBut none s := by
  refine h.inv (fun _ hs _ => hs.good) fun s s' hs hstep => ?_
  obtain ⟨t, c, hrun⟩ := hstep
  exact wp_ok (Q := fun _ => InvBut none) (keeps_run c s hs) hrun

/-- **Changed inodes are marked**, and what has left the table is on the disk as it has been given
last: as long as no function that does not mark the inode has set `i_mtime` to another time, of an
inode that was not marked, and no entry has led to a free inode. -/
theorem changed_marked (s : Kernel) (h : Reachable Start Step s) (hm : s.missed = false) :
    (∀ i, (s.inode i).id.dev ≠ 0 → (s.inode i).d ≠ s.image (s.inode i).id →
      (s.inode i).dirt = true) ∧
    ∀ id : Fs.Id, id.dev ≠ 0 → s.used id = true → (∀ i, (s.inode i).id ≠ id) →
      s.image id = s.value id := by
  have hgood := invBut_reachable h hm
  exact ⟨fun i => hgood.marked i (Option.some_ne_none i), hgood.kept⟩

/-! ### A write over what is there -/

/-- A file with one block. -/
def textFile : DInode :=
  { noInode with
    mode := 0x81a4#16
    size := 4
    nlinks := 1#8
    zone := Function.update (fun _ => 0) ⟨0, Nat.zero_lt_succ 8⟩ 700 }

/-- **The file is open**, at time 7, and all blocks can be read. -/
def opened : Kernel where
  inode i := if i = 5 then ⟨textFile, ⟨0x301, 9⟩, 1, false, false, false⟩ else .clear
  last := 0
  super _ := ⟨0, none⟩
  image _ := textFile
  used _ := true
  oracle n := if n = 1 then 1 else if n = 3 then 7 else 0
  value _ := textFile
  missed := false

/-- The task that has it open. -/
def writer : Task := ⟨0, 0, 0, 0, 0#16⟩

/-- The state after a call. -/
def after (c : Call) : Kernel :=
  match c.run writer opened with
  | .ok _ s => s
  | .error _ s => s

theorem start_opened : Start opened := by
  have hdev : ∀ i, (opened.inode i).id.dev ≠ 0 → i = 5 := by
    intro i hi
    by_contra hne
    have hclear : opened.inode i = .clear := if_neg hne
    rw [hclear] at hi
    exact hi rfl
  constructor
  · intro i hi
    rw [hdev i hi]
    rfl
  · intro i j hi heq
    rw [hdev i hi, hdev j (heq ▸ hi)]
  · intro i _
    rfl
  · intro i hi
    by_contra hne
    have := hdev i hne
    have hlt : 5 < nrInode := by decide
    omega
  · intro i hi
    by_contra hne
    rw [hdev i hne] at hi
    exact absurd hi Bool.false_ne_true
  · rfl
  · rfl

/-- At the end of the file: it grows, and is marked. -/
theorem changed_marked_append : ((after (.write 5 4 4)).inode 5).d.size = 8 ∧
    ((after (.write 5 4 4)).inode 5).dirt = true := by
  have hstep : Step opened (after (.write 5 4 4)) := ⟨writer, .write 5 4 4, rfl⟩
  refine ⟨rfl, (changed_marked _ ((Reachable.start start_opened).next hstep) rfl).1 5 ?_ ?_⟩
  · decide
  · decide

/-- **Over what is there**: `i_mtime` is another, and the inode is not marked. -/
theorem not_changed_marked : ∃ s, Reachable Start Step s ∧ (s.inode 5).id.dev ≠ 0 ∧
    (s.inode 5).d ≠ s.image (s.inode 5).id ∧ (s.inode 5).dirt = false := by
  have hstep : Step opened (after (.write 5 0 4)) := ⟨writer, .write 5 0 4, rfl⟩
  refine ⟨_, (Reachable.start start_opened).next hstep, ?_, ?_, rfl⟩
  · decide
  · decide

end Linux011.Inodes.Changes

import Linux011.Lib.Linked
import Linux011.Buffer.Cache
import Mathlib.Data.List.Perm.Subperm

/-!
# The queues are lists

`Linux011.Buffer.Laid` says which lists the pointers of the heads make up: the free
list, a ring of all the heads, and for each value of the hash function the queue of
the heads that hash to it. It is the invariant of the buffer cache, and it carries
the property everything else rests on: no two heads carry the same device and block.

Each of the operations of `Linux011.Buffer.Cache` then has a specification in terms of
the heads alone: `find_buffer` finds *the* head that carries a block
(`Linux011.Buffer.Laid.findBuffer_eq_some`), the search for a buffer to take finds an
unused one (`Linux011.Buffer.Laid.scanFree_eq_some`), and re-tagging an unused head to a
block that no head carries keeps the queues in order (`Linux011.Buffer.Laid.retag`).
-/

namespace Linux011.Buffer

/-! ### The pointers -/

namespace Cache

variable (c : Cache)

def prev (b : ℕ) : Option ℕ := (c.head b).prev

def next (b : ℕ) : Option ℕ := (c.head b).next

def prevFree (b : ℕ) : Option ℕ := (c.head b).prevFree

def nextFree (b : ℕ) : Option ℕ := (c.head b).nextFree

/-- The same heads, linked differently. -/
def relink (prev next prevFree nextFree : ℕ → Option ℕ) : Cache :=
  { c with
    head := fun b =>
      { c.head b with
        prev := prev b
        next := next b
        prevFree := prevFree b
        nextFree := nextFree b } }

variable {c} {p n pf nf p' n' pf' nf' : ℕ → Option ℕ}

theorem head_prev (b : ℕ) : (c.head b).prev = c.prev b := rfl

theorem head_next (b : ℕ) : (c.head b).next = c.next b := rfl

theorem head_prevFree (b : ℕ) : (c.head b).prevFree = c.prevFree b := rfl

theorem head_nextFree (b : ℕ) : (c.head b).nextFree = c.nextFree b := rfl

@[simp] theorem relink_dev (b : ℕ) : ((c.relink p n pf nf).head b).dev = (c.head b).dev := rfl

@[simp] theorem relink_blocknr (b : ℕ) :
    ((c.relink p n pf nf).head b).blocknr = (c.head b).blocknr := rfl

@[simp] theorem relink_hashTable : (c.relink p n pf nf).hashTable = c.hashTable := rfl

@[simp] theorem relink_freeList : (c.relink p n pf nf).freeList = c.freeList := rfl

@[simp] theorem relink_prev : (c.relink p n pf nf).prev = p := rfl

@[simp] theorem relink_next : (c.relink p n pf nf).next = n := rfl

@[simp] theorem relink_prevFree : (c.relink p n pf nf).prevFree = pf := rfl

@[simp] theorem relink_nextFree : (c.relink p n pf nf).nextFree = nf := rfl

@[simp] theorem relink_relink :
    (c.relink p n pf nf).relink p' n' pf' nf' = c.relink p' n' pf' nf' := rfl

@[simp] theorem setHash_prev (h : ℕ) (b : Option ℕ) : (c.setHash h b).prev = c.prev := rfl

@[simp] theorem setHash_next (h : ℕ) (b : Option ℕ) : (c.setHash h b).next = c.next := rfl

@[simp] theorem setHash_prevFree (h : ℕ) (b : Option ℕ) :
    (c.setHash h b).prevFree = c.prevFree := rfl

@[simp] theorem setHash_nextFree (h : ℕ) (b : Option ℕ) :
    (c.setHash h b).nextFree = c.nextFree := rfl

theorem ite_setHash (P : Prop) [Decidable P] (h : ℕ) (b : Option ℕ) :
    (if P then c.setHash h b else c) =
      { c with hashTable := if P then Function.update c.hashTable h b else c.hashTable } := by
  split <;> rfl

/-- A store into one link. -/
theorem setAt_prev (x v : Option ℕ) : c.setAt x (fun h => { h with prev := v }) =
    c.relink (setLink c.prev x v) c.next c.prevFree c.nextFree := by
  cases x with
  | none => rfl
  | some b =>
    refine congrArg (fun f => { c with head := f }) (funext fun i => ?_)
    by_cases hi : i = b
    · subst hi
      simp [setLink, next, prevFree, nextFree]
    · simp [hi, setLink, prev, next, prevFree, nextFree]

theorem setAt_next (x v : Option ℕ) : c.setAt x (fun h => { h with next := v }) =
    c.relink c.prev (setLink c.next x v) c.prevFree c.nextFree := by
  cases x with
  | none => rfl
  | some b =>
    refine congrArg (fun f => { c with head := f }) (funext fun i => ?_)
    by_cases hi : i = b
    · subst hi
      simp [setLink, prev, prevFree, nextFree]
    · simp [hi, setLink, prev, next, prevFree, nextFree]

theorem setAt_prevFree (x v : Option ℕ) : c.setAt x (fun h => { h with prevFree := v }) =
    c.relink c.prev c.next (setLink c.prevFree x v) c.nextFree := by
  cases x with
  | none => rfl
  | some b =>
    refine congrArg (fun f => { c with head := f }) (funext fun i => ?_)
    by_cases hi : i = b
    · subst hi
      simp [setLink, prev, next, nextFree]
    · simp [hi, setLink, prev, next, prevFree, nextFree]

theorem setAt_nextFree (x v : Option ℕ) : c.setAt x (fun h => { h with nextFree := v }) =
    c.relink c.prev c.next c.prevFree (setLink c.nextFree x v) := by
  cases x with
  | none => rfl
  | some b =>
    refine congrArg (fun f => { c with head := f }) (funext fun i => ?_)
    by_cases hi : i = b
    · subst hi
      simp [setLink, prev, next, prevFree]
    · simp [hi, setLink, prev, next, prevFree, nextFree]

theorem setHead_eq (b : ℕ) (f : BufferHead → BufferHead) : c.setHead b f = c.setAt (some b) f := rfl

theorem head_setHead (b : ℕ) (f : BufferHead → BufferHead) (i : ℕ) :
    (c.setHead b f).head i = if i = b then f (c.head b) else c.head i := by
  simp [setHead, Function.update_apply]

/-- A store that is not into a link. -/
theorem setHead_links {f : BufferHead → BufferHead} (hf : ∀ h, (f h).prev = h.prev ∧
    (f h).next = h.next ∧ (f h).prevFree = h.prevFree ∧ (f h).nextFree = h.nextFree) (b : ℕ) :
    (c.setHead b f).prev = c.prev ∧ (c.setHead b f).next = c.next ∧
      (c.setHead b f).prevFree = c.prevFree ∧ (c.setHead b f).nextFree = c.nextFree := by
  obtain ⟨hp, hn, hpf, hnf⟩ := hf (c.head b)
  refine ⟨funext fun i => ?_, funext fun i => ?_, funext fun i => ?_, funext fun i => ?_⟩
  all_goals
    simp only [prev, next, prevFree, nextFree, head_setHead]
    split
    · next hib => rw [hib]; assumption
    · rfl

end Cache

/-! ### The queue operations, as changes of the links -/

section Links

variable {c : Cache} {b : ℕ}

/-- **What leaving the hash queue does to the links.** -/
theorem removeFromHash_eq (hp : ∀ x ∈ c.prev b, x ≠ b) (hn : ∀ x ∈ c.next b, x ≠ b) :
    removeFromHash c b =
      { c.relink (setLink c.prev (c.next b) (c.prev b)) (setLink c.next (c.prev b) (c.next b))
          c.prevFree c.nextFree with
        hashTable :=
          if c.hashTable (hashfn (c.head b).dev (c.head b).blocknr) = some b then
            Function.update c.hashTable (hashfn (c.head b).dev (c.head b).blocknr) (c.next b)
          else c.hashTable } := by
  have hp' : setLink c.prev (c.next b) (c.prev b) b = c.prev b := setLink_of_notMem hn _ _
  have hn' : setLink c.next (c.prev b) (c.next b) b = c.next b := setLink_of_notMem hp _ _
  unfold removeFromHash
  simp only [Cache.head_prev, Cache.head_next, Cache.setAt_prev, Cache.setAt_next,
    Cache.ite_setHash, Cache.relink_prev, Cache.relink_next, Cache.relink_prevFree,
    Cache.relink_nextFree, Cache.relink_relink, Cache.relink_dev, Cache.relink_blocknr,
    Cache.relink_hashTable, hp', hn']

/-- **What leaving the free list does to the links.** -/
theorem removeFromFree_eq {u v : ℕ} (hu : c.prevFree b = some u) (hv : c.nextFree b = some v) :
    removeFromFree c b = some
      { c.relink c.prev c.next (setLink c.prevFree (some v) (some u))
          (setLink c.nextFree (some u) (some v)) with
        freeList := if c.freeList = b then v else c.freeList } := by
  have hv' : setLink c.nextFree (some u) (some v) b = some v := by
    by_cases hbu : b = u
    · rw [hbu, setLink_some]
    · rw [setLink_of_notMem (fun a ha => Option.some.inj ha ▸ Ne.symm hbu), hv]
  unfold removeFromFree
  rw [Cache.head_prevFree, Cache.head_nextFree, hu, hv, if_neg (by simp)]
  simp only [Cache.head_prevFree, Cache.head_nextFree, Cache.setAt_prevFree, Cache.setAt_nextFree,
    Cache.relink_prev, Cache.relink_next, Cache.relink_prevFree, Cache.relink_nextFree,
    Cache.relink_relink, Cache.relink_freeList, hu, hv', Option.getD_some]

/-- **What joining the free list does.** -/
theorem insertIntoFree_eq (hb : b ≠ c.freeList) : insertIntoFree c b =
    c.relink c.prev c.next
      (Function.update (Function.update c.prevFree b (c.prevFree c.freeList)) c.freeList (some b))
      (setLink (Function.update c.nextFree b (some c.freeList)) (c.prevFree c.freeList)
        (some b)) := by
  have hf : setLink c.prevFree (some b) (c.prevFree c.freeList) c.freeList =
      c.prevFree c.freeList :=
    setLink_of_notMem (fun a ha => Option.some.inj ha ▸ hb) _ _
  unfold insertIntoFree
  simp only [Cache.setHead_eq, Cache.head_prevFree, Cache.setAt_prevFree, Cache.setAt_nextFree,
    Cache.relink_prev, Cache.relink_next, Cache.relink_prevFree, Cache.relink_nextFree,
    Cache.relink_relink, Cache.relink_freeList, hf]
  rfl

/-- **What joining a hash queue does.** -/
theorem insertIntoHash_eq (hd : (c.head b).dev ≠ 0) : insertIntoHash c b =
    { c.relink
        (setLink (Function.update c.prev b none)
          (c.hashTable (hashfn (c.head b).dev (c.head b).blocknr)) (some b))
        (Function.update c.next b (c.hashTable (hashfn (c.head b).dev (c.head b).blocknr)))
        c.prevFree c.nextFree with
      hashTable := Function.update c.hashTable (hashfn (c.head b).dev (c.head b).blocknr)
        (some b) } := by
  have hidem : ∀ x, setLink (setLink c.next (some b) none) (some b) x =
      Function.update c.next b x := fun x => by
      change Function.update (Function.update c.next b none) b x = _
      rw [Function.update_idem]
  have hnext : ∀ x, Function.update c.next b x b = x := fun x => Function.update_self b x c.next
  unfold insertIntoHash
  simp only [Cache.setHead_eq, Cache.head_next, Cache.setAt_prev, Cache.setAt_next,
    Cache.relink_prev, Cache.relink_next, Cache.relink_prevFree, Cache.relink_nextFree,
    Cache.relink_relink, Cache.relink_dev, Cache.relink_blocknr, Cache.relink_hashTable, if_neg hd,
    Cache.setHash_prev, Cache.setHash_next, Cache.setHash_prevFree, Cache.setHash_nextFree, hidem,
    hnext]
  rfl

/-- A head without a device joins no queue. -/
theorem insertIntoHash_of_dev (hd : (c.head b).dev = 0) : insertIntoHash c b =
    c.relink (Function.update c.prev b none) (Function.update c.next b none) c.prevFree
      c.nextFree := by
  unfold insertIntoHash
  simp only [Cache.setHead_eq, Cache.setAt_prev, Cache.setAt_next, Cache.relink_prev,
    Cache.relink_next, Cache.relink_prevFree, Cache.relink_nextFree, Cache.relink_relink,
    Cache.relink_dev, if_pos hd]
  rfl

/-! What each of them leaves alone. -/

theorem removeFromHash_other (c : Cache) (b : ℕ) :
    (removeFromHash c b).prevFree = c.prevFree ∧ (removeFromHash c b).nextFree = c.nextFree ∧
      (removeFromHash c b).freeList = c.freeList ∧ (removeFromHash c b).nrBuffers = c.nrBuffers ∧
      ∀ i, ((removeFromHash c b).head i).bare = (c.head i).bare := by
  unfold removeFromHash
  simp only [Cache.setAt_prev, Cache.setAt_next, Cache.ite_setHash]
  exact ⟨rfl, rfl, rfl, rfl, fun i => rfl⟩

theorem insertIntoFree_other (c : Cache) (b : ℕ) :
    (insertIntoFree c b).prev = c.prev ∧ (insertIntoFree c b).next = c.next ∧
      (insertIntoFree c b).hashTable = c.hashTable ∧ (insertIntoFree c b).nrBuffers = c.nrBuffers ∧
      ∀ i, ((insertIntoFree c b).head i).bare = (c.head i).bare := by
  unfold insertIntoFree
  simp only [Cache.setHead_eq, Cache.head_prevFree, Cache.setAt_prevFree, Cache.setAt_nextFree,
    Cache.relink_prev, Cache.relink_next, Cache.relink_prevFree, Cache.relink_nextFree,
    Cache.relink_relink, Cache.relink_freeList]
  exact ⟨trivial, trivial, rfl, rfl, fun i => rfl⟩

theorem insertIntoHash_other (c : Cache) (b : ℕ) :
    (insertIntoHash c b).prevFree = c.prevFree ∧ (insertIntoHash c b).nextFree = c.nextFree ∧
      (insertIntoHash c b).freeList = c.freeList ∧ (insertIntoHash c b).nrBuffers = c.nrBuffers ∧
      ∀ i, ((insertIntoHash c b).head i).bare = (c.head i).bare := by
  by_cases hd : (c.head b).dev = 0
  · rw [insertIntoHash_of_dev hd]
    exact ⟨rfl, rfl, rfl, rfl, fun i => rfl⟩
  · rw [insertIntoHash_eq hd]
    exact ⟨rfl, rfl, rfl, rfl, fun i => rfl⟩

end Links

/-! ### The two kinds of list -/

/-- The free list is the ring `l`. -/
structure FreeList (c : Cache) (l : List ℕ) : Prop where
  ring : Ring c.nextFree c.prevFree l
  head : l.head? = some c.freeList
  nodup : l.Nodup

/-- The hash queues are the chains `q`. -/
structure HashQueues (c : Cache) (q : ℕ → List ℕ) : Prop where
  chain : ∀ h, Seg c.next c.prev none (q h) none
  head : ∀ h, c.hashTable h = (q h).head?
  nodup : ∀ h, (q h).Nodup
  disjoint : ∀ h h' b, b ∈ q h → b ∈ q h' → h = h'

section Lists

variable {c c' : Cache} {l l₁ l₂ : List ℕ} {q : ℕ → List ℕ} {b h : ℕ}

theorem FreeList.congr (hl : FreeList c l) (hn : c'.nextFree = c.nextFree)
    (hp : c'.prevFree = c.prevFree) (hf : c'.freeList = c.freeList) : FreeList c' l :=
  ⟨by rw [hn, hp]; exact hl.ring, by rw [hf]; exact hl.head, hl.nodup⟩

theorem HashQueues.congr (hq : HashQueues c q) (hn : c'.next = c.next) (hp : c'.prev = c.prev)
    (hh : c'.hashTable = c.hashTable) : HashQueues c' q :=
  ⟨fun h => by rw [hn, hp]; exact hq.chain h, fun h => by rw [hh]; exact hq.head h, hq.nodup,
    hq.disjoint⟩

/-- **A head leaves the free list**; alone, it stays behind as a ring of itself. -/
theorem FreeList.remove (hl : FreeList c (l₁ ++ b :: l₂)) :
    ∃ c', removeFromFree c b = some c' ∧ c'.prev = c.prev ∧ c'.next = c.next ∧
      c'.hashTable = c.hashTable ∧ c'.nrBuffers = c.nrBuffers ∧
      (∀ i, (c'.head i).bare = (c.head i).bare) ∧
      ((l₁ ++ l₂ ≠ [] ∧ FreeList c' (l₁ ++ l₂)) ∨ (l₁ ++ l₂ = [] ∧ FreeList c' [b])) := by
  have hrot : Ring c.nextFree c.prevFree (b :: (l₂ ++ l₁)) := hl.ring.rotate
  have hprev := hrot.prev_head
  have hnext := hrot.next_head
  obtain ⟨u, hu⟩ : ∃ u, c.prevFree b = some u := by
    rw [hprev]
    cases (l₂ ++ l₁).getLast? <;> simp
  obtain ⟨v, hv⟩ : ∃ v, c.nextFree b = some v := by
    rw [hnext]
    cases (l₂ ++ l₁).head? <;> simp
  refine ⟨_, removeFromFree_eq hu hv, rfl, rfl, rfl, rfl, fun i => rfl, ?_⟩
  by_cases hnil : l₁ ++ l₂ = []
  · refine Or.inr ⟨hnil, ?_⟩
    obtain ⟨rfl, rfl⟩ := List.append_eq_nil_iff.mp hnil
    obtain rfl : u = b := Option.some.inj (hu.symm.trans hprev)
    obtain rfl : v = u := Option.some.inj (hv.symm.trans hnext)
    refine ⟨⟨setLink_some _ _ _, setLink_some _ _ _, trivial⟩, ?_, List.nodup_singleton v⟩
    change some v = some (if c.freeList = v then v else c.freeList)
    rw [ite_eq_right_iff.mpr fun h => h.symm ▸ rfl]
    exact hl.head
  · refine Or.inl ⟨hnil, ?_, ?_, ?_⟩
    · have hring := hl.ring.unlink hl.nodup hnil
      rw [hu, hv] at hring
      exact hring
    · change (l₁ ++ l₂).head? = some (if c.freeList = b then v else c.freeList)
      have hhead := hl.head
      cases l₁ with
      | nil =>
        obtain rfl := Option.some.inj hhead
        rw [if_pos rfl, ← hv, hnext]
        cases l₂ with
        | nil => simp at hnil
        | cons d l₂ => rfl
      | cons d l₁ =>
        obtain rfl := Option.some.inj hhead
        have hnd := hl.nodup
        rw [if_neg fun hdb => by simp [hdb] at hnd]
        rfl
    · have hnd := hl.nodup
      rw [List.nodup_middle] at hnd
      exact (List.nodup_cons.mp hnd).2

/-- **A head joins the free list** at its end. -/
theorem FreeList.insert (hl : FreeList c l) (hb : b ∉ l) :
    FreeList (insertIntoFree c b) (l ++ [b]) := by
  have hhead := hl.head
  cases l with
  | nil => simp at hhead
  | cons f l =>
    obtain rfl := Option.some.inj hhead
    have hne : b ≠ c.freeList := fun hbf => hb (hbf ▸ List.mem_cons_self)
    rw [insertIntoFree_eq hne]
    exact ⟨hl.ring.append hl.nodup hb, rfl, by
      rw [List.nodup_append]
      exact ⟨hl.nodup, List.nodup_singleton b, fun x hx y hy => by
        obtain rfl := List.mem_singleton.mp hy
        exact ne_of_mem_of_not_mem hx hb⟩⟩

/-- The only head joins the ring of itself. -/
theorem FreeList.insert_self (hl : FreeList c [b]) : FreeList (insertIntoFree c b) [b] := by
  obtain rfl : b = c.freeList := Option.some.inj hl.head
  have hp : c.prevFree c.freeList = some c.freeList := hl.ring.1
  unfold insertIntoFree
  simp only [Cache.setHead_eq, Cache.head_prevFree, Cache.setAt_prevFree, Cache.setAt_nextFree,
    Cache.relink_prev, Cache.relink_next, Cache.relink_prevFree, Cache.relink_nextFree,
    Cache.relink_relink, Cache.relink_freeList, setLink_some, hp]
  exact ⟨⟨setLink_some _ _ _, setLink_some _ _ _, trivial⟩, rfl, List.nodup_singleton _⟩

/-- Removing a head from the queues keeps them apart. -/
theorem HashQueues.erase_disjoint (hq : HashQueues c q) (b : ℕ) :
    ∀ h h' x, x ∈ (q h).erase b → x ∈ (q h').erase b → h = h' := fun h h' x hx hx' =>
  hq.disjoint h h' x (List.mem_of_mem_erase hx) (List.mem_of_mem_erase hx')

/-- **A head leaves its hash queue.** -/
theorem HashQueues.remove (hq : HashQueues c q)
    (hb : b ∈ q (hashfn (c.head b).dev (c.head b).blocknr)) :
    HashQueues (removeFromHash c b) fun h => (q h).erase b := by
  obtain ⟨H, hH⟩ : ∃ H, hashfn (c.head b).dev (c.head b).blocknr = H := ⟨_, rfl⟩
  rw [hH] at hb
  obtain ⟨l₁, l₂, hl⟩ := List.append_of_mem hb
  have hseg := hq.chain H
  have hnd := hq.nodup H
  have hhead := hq.head H
  rw [hl] at hseg hnd hhead
  have hprev : c.prev b = l₁.getLast? := by rw [hseg.prev_eq, Option.or_none]
  have hnext : c.next b = l₂.head? := by rw [hseg.next_eq, Option.or_none]
  have hb₁ : b ∉ l₁ := fun hm => (List.nodup_append.mp hnd).2.2 b hm b List.mem_cons_self rfl
  have hb₂ : b ∉ l₂ := (List.nodup_cons.mp (List.nodup_append.mp hnd).2.1).1
  have herase : (q H).erase b = l₁ ++ l₂ := by
    rw [hl, List.erase_append_right _ hb₁, List.erase_cons_head]
  have hmem : ∀ x, x ∈ l₁ ∨ x ∈ l₂ → x ∈ q H := fun x hx => by
    rw [hl]
    rcases hx with hx | hx <;> simp [hx]
  rw [removeFromHash_eq
    (fun x hx => ne_of_mem_of_not_mem (List.mem_of_getLast? (hprev ▸ hx)) hb₁)
    (fun x hx => ne_of_mem_of_not_mem (List.mem_of_head? (hnext ▸ hx)) hb₂), hH]
  refine ⟨fun h => ?_, fun h => ?_, fun h => (hq.nodup h).erase b, hq.erase_disjoint b⟩
  · by_cases hh : h = H
    · rw [hh, herase]
      have hu := hseg.unlink hnd
      rw [← hprev, ← hnext] at hu
      exact hu
    · -- the neighbours of `b` are on its own queue
      have hother : ∀ x ∈ q h, x ∉ q H := fun x hx hx' => hh (hq.disjoint h H x hx hx')
      rw [List.erase_of_not_mem fun hm => hother b hm hb]
      refine (hq.chain h).congr (fun x hx => ?_) fun x hx => ?_
      · refine setLink_of_notMem (fun y hy => ?_) _ _
        rintro rfl
        exact hother y hx (hmem y (Or.inl (List.mem_of_getLast? (hprev ▸ hy))))
      · refine setLink_of_notMem (fun y hy => ?_) _ _
        rintro rfl
        exact hother y hx (hmem y (Or.inr (List.mem_of_head? (hnext ▸ hy))))
  · change (if c.hashTable H = some b then Function.update c.hashTable H (c.next b)
      else c.hashTable) h = _
    by_cases hh : h = H
    · rw [hh, herase, hhead, hnext]
      cases l₁ with
      | nil =>
        rw [List.nil_append, List.head?_cons, if_pos rfl, Function.update_self, List.nil_append]
      | cons d l₁ =>
        rw [if_neg, hhead]
        · rfl
        · intro hdb
          exact hb₁ (Option.some.inj hdb ▸ List.mem_cons_self)
    · rw [List.erase_of_not_mem fun hm => hh (hq.disjoint h H b hm hb), ← hq.head h]
      split
      · exact Function.update_of_ne hh _ _
      · rfl

/-- A head that is on no queue, and points nowhere, leaves none. -/
theorem HashQueues.remove_unhashed (hq : HashQueues c q) (hb : ∀ h, b ∉ q h)
    (hp : c.prev b = none) (hn : c.next b = none) :
    HashQueues (removeFromHash c b) fun h => (q h).erase b := by
  have hroot : ∀ h, c.hashTable h ≠ some b := fun h hs => by
    rw [hq.head] at hs
    exact hb h (List.mem_of_head? hs)
  rw [removeFromHash_eq (by rw [hp]; simp) (by rw [hn]; simp), hp, hn, if_neg (hroot _)]
  refine ⟨fun h => ?_, fun h => ?_, fun h => (hq.nodup h).erase b, hq.erase_disjoint b⟩
  · rw [List.erase_of_not_mem (hb h)]
    exact hq.chain h
  · rw [List.erase_of_not_mem (hb h)]
    exact hq.head h

/-- **A head joins the hash queue** of the block it carries. -/
theorem HashQueues.insert (hq : HashQueues c q) (hb : ∀ h, b ∉ q h) :
    HashQueues (insertIntoHash c b) fun h =>
      if (c.head b).dev ≠ 0 ∧ h = hashfn (c.head b).dev (c.head b).blocknr then b :: q h
      else q h := by
  by_cases hd : (c.head b).dev = 0
  · rw [insertIntoHash_of_dev hd]
    refine ⟨fun h => ?_, fun h => ?_, fun h => ?_, fun h h' x hx hx' => ?_⟩
    · rw [if_neg fun hc => hc.1 hd]
      exact (hq.chain h).congr
        (fun x hx => Function.update_of_ne (ne_of_mem_of_not_mem hx (hb h)) _ _)
        fun x hx => Function.update_of_ne (ne_of_mem_of_not_mem hx (hb h)) _ _
    · rw [if_neg fun hc => hc.1 hd]
      exact hq.head h
    · rw [if_neg fun hc => hc.1 hd]
      exact hq.nodup h
    · rw [if_neg fun hc => hc.1 hd] at hx hx'
      exact hq.disjoint h h' x hx hx'
  · obtain ⟨H, hH⟩ : ∃ H, hashfn (c.head b).dev (c.head b).blocknr = H := ⟨_, rfl⟩
    have hmem : ∀ h x, x ∈ (if (c.head b).dev ≠ 0 ∧ h = H then b :: q h else q h) →
        (x = b ∧ h = H) ∨ (x ≠ b ∧ x ∈ q h) := by
      intro h x hx
      by_cases hxb : x = b
      · refine Or.inl ⟨hxb, ?_⟩
        by_contra hne
        rw [if_neg fun hc => hne hc.2, hxb] at hx
        exact hb h hx
      · split at hx
        · exact Or.inr ⟨hxb, (List.mem_cons.mp hx).resolve_left hxb⟩
        · exact Or.inr ⟨hxb, hx⟩
    rw [insertIntoHash_eq hd, hH]
    refine ⟨fun h => ?_, fun h => ?_, fun h => ?_, fun h h' x hx hx' => ?_⟩
    · by_cases hh : h = H
      · rw [if_pos ⟨hd, hh⟩, hh, hq.head]
        have hpush : Seg _ (setLink (Function.update c.prev b none) _ _) none (b :: q H) none :=
          (hq.chain H).push (hq.nodup H) (hb H)
        rwa [Option.or_none] at hpush
      · rw [if_neg fun hc => hh hc.2]
        refine (hq.chain h).congr
          (fun x hx => Function.update_of_ne (ne_of_mem_of_not_mem hx (hb h)) _ _) fun x hx => ?_
        refine (setLink_of_notMem (fun y hy => ?_) _ _).trans
          (Function.update_of_ne (ne_of_mem_of_not_mem hx (hb h)) _ _)
        rintro rfl
        rw [hq.head] at hy
        exact hh (hq.disjoint h H y hx (List.mem_of_head? hy))
    · by_cases hh : h = H
      · rw [if_pos ⟨hd, hh⟩, hh]
        exact Function.update_self _ _ _
      · rw [if_neg fun hc => hh hc.2, ← hq.head h]
        exact Function.update_of_ne hh _ _
    · split
      · exact List.nodup_cons.mpr ⟨hb h, hq.nodup h⟩
      · exact hq.nodup h
    · rcases hmem h x hx with ⟨rfl, rfl⟩ | ⟨hne, hx⟩
      · rcases hmem h' x hx' with ⟨-, rfl⟩ | ⟨hne, -⟩
        · rfl
        · exact absurd rfl hne
      · rcases hmem h' x hx' with ⟨hxb, -⟩ | ⟨-, hx'⟩
        · exact absurd hxb hne
        · exact hq.disjoint h h' x hx hx'

/-- The pointers of a head that is on no queue stay as they are, -/
theorem HashQueues.remove_links {i : ℕ} (hq : HashQueues c q)
    (hb : b ∈ q (hashfn (c.head b).dev (c.head b).blocknr) ∨ c.prev b = none ∧ c.next b = none)
    (hi : ∀ h, i ∉ q h) :
    (removeFromHash c b).prev i = c.prev i ∧ (removeFromHash c b).next i = c.next i := by
  have hlink : (∀ x ∈ c.prev b, x ≠ b ∧ x ≠ i) ∧ ∀ x ∈ c.next b, x ≠ b ∧ x ≠ i := by
    rcases hb with hb | ⟨hp, hn⟩
    · obtain ⟨l₁, l₂, hl⟩ := List.append_of_mem hb
      have hseg := hq.chain (hashfn (c.head b).dev (c.head b).blocknr)
      have hnd := hq.nodup (hashfn (c.head b).dev (c.head b).blocknr)
      have hi := hi (hashfn (c.head b).dev (c.head b).blocknr)
      rw [hl] at hseg hnd hi
      rw [hseg.prev_eq, hseg.next_eq, Option.or_none, Option.or_none]
      refine ⟨fun x hx => ?_, fun x hx => ?_⟩
      · have hm := List.mem_of_getLast? hx
        refine ⟨(List.nodup_append.mp hnd).2.2 x hm b List.mem_cons_self, ?_⟩
        exact ne_of_mem_of_not_mem (List.mem_append_left _ hm) hi
      · have hm := List.mem_of_head? hx
        refine ⟨ne_of_mem_of_not_mem hm (List.nodup_cons.mp (List.nodup_append.mp hnd).2.1).1, ?_⟩
        exact ne_of_mem_of_not_mem (List.mem_append_right _ (List.mem_cons_of_mem _ hm)) hi
    · rw [hp, hn]
      simp
  rw [removeFromHash_eq (fun x hx => (hlink.1 x hx).1) fun x hx => (hlink.2 x hx).1]
  exact ⟨setLink_of_notMem (fun x hx => (hlink.2 x hx).2) _ _,
    setLink_of_notMem (fun x hx => (hlink.1 x hx).2) _ _⟩

/-- and so they do when another head joins one. -/
theorem HashQueues.insert_links {i : ℕ} (hq : HashQueues c q) (hi : ∀ h, i ∉ q h) (hib : i ≠ b) :
    (insertIntoHash c b).prev i = c.prev i ∧ (insertIntoHash c b).next i = c.next i := by
  by_cases hd : (c.head b).dev = 0
  · rw [insertIntoHash_of_dev hd]
    exact ⟨Function.update_of_ne hib _ _, Function.update_of_ne hib _ _⟩
  · rw [insertIntoHash_eq hd]
    refine ⟨(setLink_of_notMem (fun x hx => ?_) _ _).trans (Function.update_of_ne hib _ _),
      Function.update_of_ne hib _ _⟩
    rw [hq.head] at hx
    exact ne_of_mem_of_not_mem (List.mem_of_head? hx) (hi _)

end Lists

/-! ### The invariant -/

/-- The lists the pointers make up. -/
structure Layout where
  free : List ℕ
  queue : ℕ → List ℕ

/-- **The queues are in order.** -/
structure Laid (c : Cache) (L : Layout) : Prop where
  freeList : FreeList c L.free
  queues : HashQueues c L.queue
  /-- Every head is on the free list. -/
  free_mem : ∀ b, b ∈ L.free ↔ b < c.nrBuffers
  /-- The heads with a device are on the queues they hash to. -/
  chain_mem : ∀ h b, b ∈ L.queue h ↔ b < c.nrBuffers ∧ (c.head b).dev ≠ 0 ∧
    hashfn (c.head b).dev (c.head b).blocknr = h
  /-- The heads without one point nowhere. -/
  unhashed : ∀ b, b < c.nrBuffers → (c.head b).dev = 0 →
    (c.head b).prev = none ∧ (c.head b).next = none
  /-- **No two heads carry the same block.** -/
  unique : ∀ b b', b < c.nrBuffers → b' < c.nrBuffers → (c.head b).dev ≠ 0 →
    (c.head b).dev = (c.head b').dev → (c.head b).blocknr = (c.head b').blocknr → b = b'

namespace Laid

variable {c c' : Cache} {L : Layout} {b dev block n : ℕ}

/-- **Only tags and links matter.** -/
theorem congr (h : Laid c L) (hn : c'.nrBuffers = c.nrBuffers)
    (hhash : c'.hashTable = c.hashTable) (hfree : c'.freeList = c.freeList)
    (htag : ∀ b, (c'.head b).dev = (c.head b).dev ∧ (c'.head b).blocknr = (c.head b).blocknr)
    (hlink : c'.prev = c.prev ∧ c'.next = c.next ∧ c'.prevFree = c.prevFree ∧
      c'.nextFree = c.nextFree) : Laid c' L where
  freeList := h.freeList.congr hlink.2.2.2 hlink.2.2.1 hfree
  queues := h.queues.congr hlink.2.1 hlink.1 hhash
  free_mem := hn ▸ h.free_mem
  chain_mem q b := by rw [hn, (htag b).1, (htag b).2]; exact h.chain_mem q b
  unhashed b hb hd := by
    rw [hn] at hb
    rw [(htag b).1] at hd
    obtain ⟨hp, hx⟩ := h.unhashed b hb hd
    exact ⟨(congrFun hlink.1 b).trans hp, (congrFun hlink.2.1 b).trans hx⟩
  unique b b' hb hb' hd hdev hblk := by
    rw [hn] at hb hb'
    rw [(htag b).1] at hd
    rw [(htag b).1, (htag b').1] at hdev
    rw [(htag b).2, (htag b').2] at hblk
    exact h.unique b b' hb hb' hd hdev hblk

/-! ### Looking up a block -/

/-- The loop of `find_buffer` runs down a chain. -/
theorem findFrom_eq {l : List ℕ} {p : Option ℕ} (hl : Seg c.next c.prev p l none)
    (hn : l.length < n) : findFrom c dev block n l.head? =
      l.find? fun b => (c.head b).dev = dev ∧ (c.head b).blocknr = block := by
  induction l generalizing n p with
  | nil =>
    cases n with
    | zero => simp at hn
    | succ n => rfl
  | cons a l ih =>
    cases n with
    | zero => simp at hn
    | succ n =>
      obtain ⟨-, hnext, hl⟩ := hl
      rw [Cache.next, Option.or_none] at hnext
      rw [List.head?_cons, findFrom, hnext, ih hl (by simpa using hn), List.find?_cons]
      by_cases hab : (c.head a).dev = dev ∧ (c.head a).blocknr = block
      · simp [hab]
      · rw [if_neg hab]
        simp [hab]

theorem queue_length (h : Laid c L) (q : ℕ) : (L.queue q).length ≤ c.nrBuffers := by
  have hsub : (L.queue q) ⊆ List.range c.nrBuffers := fun b hb =>
    List.mem_range.mpr ((h.chain_mem q b).mp hb).1
  simpa using ((h.queues.nodup q).subperm hsub).length_le

/-- **`find_buffer` finds the head that carries a block.** -/
theorem findBuffer_eq_some (h : Laid c L) : findBuffer c dev block = some b ↔
    b < c.nrBuffers ∧ dev ≠ 0 ∧ (c.head b).dev = dev ∧ (c.head b).blocknr = block := by
  rw [findBuffer, h.queues.head,
    findFrom_eq (h.queues.chain _) (Nat.lt_succ_of_le (h.queue_length _))]
  constructor
  · intro hf
    have hp := List.find?_some hf
    have hm := (h.chain_mem _ b).mp (List.mem_of_find?_eq_some hf)
    rw [decide_eq_true_eq] at hp
    exact ⟨hm.1, hp.1 ▸ hm.2.1, hp⟩
  · rintro ⟨hb, hd, rfl, rfl⟩
    have hm := (h.chain_mem _ b).mpr ⟨hb, hd, rfl⟩
    obtain ⟨b', hb'⟩ : ∃ b', (L.queue (hashfn (c.head b).dev (c.head b).blocknr)).find?
        (fun x => (c.head x).dev = (c.head b).dev ∧ (c.head x).blocknr = (c.head b).blocknr) =
          some b' := by
      rw [← Option.isSome_iff_exists, List.find?_isSome]
      exact ⟨b, hm, by simp⟩
    have hp := List.find?_some hb'
    rw [decide_eq_true_eq] at hp
    have hlt := ((h.chain_mem _ b').mp (List.mem_of_find?_eq_some hb')).1
    rw [hb', h.unique b b' hb hlt hd hp.1.symm hp.2.symm]

theorem findBuffer_eq_none (h : Laid c L) (hd : dev ≠ 0) : findBuffer c dev block = none ↔
    ∀ b, b < c.nrBuffers → ¬((c.head b).dev = dev ∧ (c.head b).blocknr = block) := by
  constructor
  · rintro hf b hb ⟨h1, h2⟩
    have := h.findBuffer_eq_some.mpr ⟨hb, hd, h1, h2⟩
    rw [hf] at this
    simp at this
  · intro hno
    cases hf : findBuffer c dev block with
    | none => rfl
    | some b =>
      obtain ⟨hb, -, htag⟩ := h.findBuffer_eq_some.mp hf
      exact absurd htag (hno b hb)

/-! ### Looking for a buffer to take -/

/-- The loop runs down what is left of the free list, and ends with an unused buffer
if it has met one. -/
theorem scanFrom_spec (h : Laid c L) {l₁ l₂ : List ℕ} {tmp : ℕ} {bh : Option ℕ}
    (hl : L.free = l₁ ++ tmp :: l₂) (hn : l₂.length < n)
    (hbh : ∀ b ∈ bh, b < c.nrBuffers ∧ (c.head b).count = 0)
    (hno : bh = none → ∀ b ∈ l₁, (c.head b).count ≠ 0) :
    (∀ b ∈ scanFrom c n tmp bh, b < c.nrBuffers ∧ (c.head b).count = 0) ∧
      (scanFrom c n tmp bh = none → ∀ b, b < c.nrBuffers → (c.head b).count ≠ 0) := by
  have hmem : ∀ b, b ∈ L.free ↔ b < c.nrBuffers := h.free_mem
  induction n generalizing l₁ l₂ tmp bh with
  | zero => omega
  | succ n ih =>
    have htmp : tmp < c.nrBuffers := (hmem tmp).mp (by rw [hl]; simp)
    have hnext : (c.head tmp).nextFree = l₂.head?.or (some c.freeList) := by
      have := h.freeList.ring
      rw [Ring, hl] at this
      rw [← h.freeList.head, hl]
      exact this.next_eq
    rw [scanFrom]
    by_cases hgood : ((c.head tmp).count = 0 ∧
        ∀ b ∈ bh, badness (c.head tmp) < badness (c.head b)) ∧ badness (c.head tmp) = 0
    · rw [if_pos hgood]
      refine ⟨fun b hb => ?_, fun hc => by simp at hc⟩
      obtain rfl := Option.some.inj hb
      exact ⟨htmp, hgood.1.1⟩
    · rw [if_neg hgood, hnext]
      -- the best buffer after this round
      obtain ⟨bh', hbh'⟩ : ∃ bh', (if (c.head tmp).count = 0 ∧
        ∀ b ∈ bh, badness (c.head tmp) < badness (c.head b) then some tmp else bh) = bh' := ⟨_, rfl⟩
      have hok : ∀ b ∈ bh', b < c.nrBuffers ∧ (c.head b).count = 0 := by
        intro b hb
        rw [← hbh'] at hb
        split at hb
        · next hbt =>
          obtain rfl := Option.some.inj hb
          exact ⟨htmp, hbt.1⟩
        · exact hbh b hb
      have hall : bh' = none → ∀ b ∈ l₁ ++ [tmp], (c.head b).count ≠ 0 := by
        intro hnone b hb
        rw [← hbh'] at hnone
        split at hnone
        · simp at hnone
        · next hbt =>
          rcases List.mem_append.mp hb with hb | hb
          · exact hno hnone b hb
          · obtain rfl := List.mem_singleton.mp hb
            intro h0
            exact hbt ⟨h0, fun b' hb' => by simp [hnone] at hb'⟩
      rw [hbh']
      cases l₂ with
      | nil =>
        simp only [List.head?_nil, Option.none_or, if_true]
        refine ⟨hok, fun hnone b hb => hall hnone b ?_⟩
        rw [← hl]
        exact (hmem b).mpr hb
      | cons t l₂ =>
        have hne : t ≠ c.freeList := by
          have hnd := h.freeList.nodup
          have hhead := h.freeList.head
          rw [hl] at hnd hhead
          rintro rfl
          cases l₁ with
          | nil =>
            obtain rfl := Option.some.inj hhead
            simp at hnd
          | cons a l₁ =>
            obtain rfl := Option.some.inj hhead
            simp at hnd
        simp only [List.head?_cons, Option.some_or, if_neg hne]
        have hl' : L.free = (l₁ ++ [tmp]) ++ t :: l₂ := by rw [hl]; simp
        exact ih hl' (by simpa using hn) hok hall

theorem free_eq (h : Laid c L) : ∃ l, L.free = c.freeList :: l ∧ l.length < c.nrBuffers := by
  have hhead := h.freeList.head
  have hsub : L.free ⊆ List.range c.nrBuffers := fun b hb =>
    List.mem_range.mpr ((h.free_mem b).mp hb)
  have hlen := (h.freeList.nodup.subperm hsub).length_le
  cases hl : L.free with
  | nil => simp [hl] at hhead
  | cons a l =>
    rw [hl] at hhead hlen
    obtain rfl := Option.some.inj hhead
    rw [List.length_cons, List.length_range] at hlen
    exact ⟨l, rfl, by omega⟩

/-- **The search for a buffer to take** finds an unused one, -/
theorem scanFree_eq_some (h : Laid c L) (hs : scanFree c = some b) :
    b < c.nrBuffers ∧ (c.head b).count = 0 := by
  obtain ⟨l, hl, hn⟩ := h.free_eq
  exact (h.scanFrom_spec (hl.trans (List.nil_append _).symm) hn (by simp) (by simp)).1 b hs

/-! ### Taking a buffer -/

/-- A head is on the queue it hashes to, or on none and points nowhere. -/
theorem on_queue (h : Laid c L) (hb : b < c.nrBuffers) :
    b ∈ L.queue (hashfn (c.head b).dev (c.head b).blocknr) ∨
      (∀ q, b ∉ L.queue q) ∧ c.prev b = none ∧ c.next b = none := by
  by_cases hd : (c.head b).dev = 0
  · refine Or.inr ⟨fun q hq => ?_, h.unhashed b hb hd⟩
    exact ((h.chain_mem q b).mp hq).2.1 hd
  · exact Or.inl ((h.chain_mem _ b).mpr ⟨hb, hd, rfl⟩)

/-- **A head leaves its hash queue**, if it is on one. -/
theorem removeFromHash (h : Laid c L) (hb : b < c.nrBuffers) :
    HashQueues (Buffer.removeFromHash c b) fun q => (L.queue q).erase b := by
  rcases h.on_queue hb with hon | ⟨hoff, hp, hn⟩
  · exact h.queues.remove hon
  · exact h.queues.remove_unhashed hoff hp hn

/-- **Taking a buffer**: a head is re-tagged to a block that no head carries. Nothing but
its tag, its count and its flags, and the links, has changed. -/
theorem retag (h : Laid c L) (hb : b < c.nrBuffers) (dev block : ℕ)
    (hno : dev ≠ 0 → ∀ i, i < c.nrBuffers → ¬((c.head i).dev = dev ∧ (c.head i).blocknr = block)) :
    ∃ c' L', Buffer.retag c b dev block = some c' ∧ Laid c' L' ∧ c'.nrBuffers = c.nrBuffers ∧
      ∀ i, (c'.head i).bare = if i = b then
          { (c.head b).bare with
            dev := dev, blocknr := block, count := 1, dirt := false, uptodate := false }
        else (c.head i).bare := by
  -- the flags
  obtain ⟨c₀, hc₀⟩ : ∃ c₀, c.setHead b (fun h =>
    { h with count := 1, dirt := false, uptodate := false }) = c₀ := ⟨_, rfl⟩
  have hhead₀ : ∀ i, c₀.head i = if i = b then
      { c.head b with count := 1, dirt := false, uptodate := false } else c.head i := fun i => by
    rw [← hc₀, Cache.head_setHead]
  have hlink₀ : c₀.prev = c.prev ∧ c₀.next = c.next ∧ c₀.prevFree = c.prevFree ∧
      c₀.nextFree = c.nextFree := by
    rw [← hc₀]
    refine Cache.setHead_links ?_ b
    exact fun _ => ⟨rfl, rfl, rfl, rfl⟩
  have htag₀ : ∀ i, (c₀.head i).dev = (c.head i).dev ∧
      (c₀.head i).blocknr = (c.head i).blocknr := by
    intro i
    rw [hhead₀]
    split
    · next hib => rw [hib]; exact ⟨rfl, rfl⟩
    · exact ⟨rfl, rfl⟩
  have h₀ : Laid c₀ L := h.congr (by rw [← hc₀]; rfl) (by rw [← hc₀]; rfl) (by rw [← hc₀]; rfl)
    htag₀ hlink₀
  have hb₀ : b < c₀.nrBuffers := by rw [← hc₀]; exact hb
  -- out of the hash queue
  obtain ⟨c₁, hc₁⟩ : ∃ c₁, Buffer.removeFromHash c₀ b = c₁ := ⟨_, rfl⟩
  have hq₁ : HashQueues c₁ fun q => (L.queue q).erase b := hc₁ ▸ h₀.removeFromHash hb₀
  obtain ⟨hpf₁, hnf₁, hfl₁, hnr₁, hbare₁⟩ := removeFromHash_other c₀ b
  have hlinks₁ : ∀ i, (∀ q, i ∉ L.queue q) → c₁.prev i = c₀.prev i ∧ c₁.next i = c₀.next i :=
    fun i hi => hc₁ ▸ h₀.queues.remove_links ((h₀.on_queue hb₀).imp_right And.right) hi
  rw [hc₁] at hpf₁ hnf₁ hfl₁ hnr₁ hbare₁
  -- out of the free list
  obtain ⟨l₁, l₂, hl⟩ := List.append_of_mem ((h₀.free_mem b).mpr hb₀)
  have hf₁ : FreeList c₁ (l₁ ++ b :: l₂) := hl ▸ h₀.freeList.congr hnf₁ hpf₁ hfl₁
  obtain ⟨c₂, hc₂, hp₂, hn₂, hh₂, hnr₂, hbare₂, hf₂⟩ := hf₁.remove
  -- the new tag
  obtain ⟨c₃, hc₃⟩ : ∃ c₃, c₂.setHead b (fun h => { h with dev := dev, blocknr := block }) = c₃ :=
    ⟨_, rfl⟩
  have hhead₃ : ∀ i, c₃.head i = if i = b then { c₂.head b with dev := dev, blocknr := block }
      else c₂.head i := fun i => by rw [← hc₃, Cache.head_setHead]
  have hlink₃ : c₃.prev = c₂.prev ∧ c₃.next = c₂.next ∧ c₃.prevFree = c₂.prevFree ∧
      c₃.nextFree = c₂.nextFree := by
    rw [← hc₃]
    refine Cache.setHead_links ?_ b
    exact fun _ => ⟨rfl, rfl, rfl, rfl⟩
  have hroots₃ : c₃.hashTable = c₂.hashTable ∧ c₃.freeList = c₂.freeList ∧
      c₃.nrBuffers = c₂.nrBuffers := by rw [← hc₃]; exact ⟨rfl, rfl, rfl⟩
  -- onto the free list
  obtain ⟨hp₄, hn₄, hh₄, hnr₄, hbare₄⟩ := insertIntoFree_other c₃ b
  obtain ⟨c₄, hc₄⟩ : ∃ c₄, insertIntoFree c₃ b = c₄ := ⟨_, rfl⟩
  rw [hc₄] at hp₄ hn₄ hh₄ hnr₄ hbare₄
  obtain ⟨l, hmem, hf₄⟩ : ∃ l, (∀ i, i ∈ l ↔ i ∈ L.free) ∧ FreeList c₄ l := by
    rw [hl]
    have hnd : b ∉ l₁ ++ l₂ := (List.nodup_cons.mp (List.nodup_middle.mp hf₁.nodup)).1
    rcases hf₂ with ⟨-, hf₂⟩ | ⟨hnil, hf₂⟩
    · refine ⟨l₁ ++ l₂ ++ [b], fun i => ?_, ?_⟩
      · simp only [List.mem_append, List.mem_cons, List.not_mem_nil, or_false]
        tauto
      · rw [← hc₄]
        exact (hf₂.congr hlink₃.2.2.2 hlink₃.2.2.1 hroots₃.2.1).insert hnd
    · obtain ⟨rfl, rfl⟩ := List.append_eq_nil_iff.mp hnil
      refine ⟨[b], fun i => Iff.rfl, ?_⟩
      rw [← hc₄]
      exact (hf₂.congr hlink₃.2.2.2 hlink₃.2.2.1 hroots₃.2.1).insert_self
  -- onto the hash queue
  have hq₄ : HashQueues c₄ fun q => (L.queue q).erase b :=
    hq₁.congr (by rw [hn₄, hlink₃.2.1, hn₂]) (by rw [hp₄, hlink₃.1, hp₂])
      (by rw [hh₄, hroots₃.1, hh₂])
  have hoff₄ : ∀ q, b ∉ (L.queue q).erase b := fun q => (h.queues.nodup q).not_mem_erase
  obtain ⟨hpf₅, hnf₅, hfl₅, hnr₅, hbare₅⟩ := insertIntoHash_other c₄ b
  obtain ⟨c₅, hc₅⟩ : ∃ c₅, insertIntoHash c₄ b = c₅ := ⟨_, rfl⟩
  have hq₅ := hq₄.insert hoff₄
  have hlinks₅ : ∀ i, i ≠ b → (∀ q, i ∉ L.queue q) →
      c₅.prev i = c₄.prev i ∧ c₅.next i = c₄.next i :=
    fun i hib hi => hc₅ ▸ hq₄.insert_links (fun q hm => hi q (List.mem_of_mem_erase hm)) hib
  rw [hc₅] at hpf₅ hnf₅ hfl₅ hnr₅ hbare₅ hq₅
  have hbare : ∀ i, (c₅.head i).bare = if i = b then
      { (c.head b).bare with
        dev := dev, blocknr := block, count := 1, dirt := false, uptodate := false }
      else (c.head i).bare := by
    intro i
    rw [hbare₅, hbare₄, hhead₃]
    by_cases hib : i = b
    · have hb₂ : (c₂.head b).bare = (c₀.head b).bare := (hbare₂ b).trans (hbare₁ b)
      rw [if_pos hib, if_pos hib]
      rw [hhead₀, if_pos rfl] at hb₂
      have hset : ({ c₂.head b with dev := dev, blocknr := block } : BufferHead).bare =
          { (c₂.head b).bare with dev := dev, blocknr := block } := rfl
      rw [hset, hb₂]
      rfl
    · rw [if_neg hib, if_neg hib, hbare₂, hbare₁, hhead₀, if_neg hib]
  have hdev : ∀ i, (c₅.head i).dev = if i = b then dev else (c.head i).dev := fun i => by
    have := congrArg BufferHead.dev (hbare i)
    by_cases hib : i = b
    · rw [if_pos hib] at this ⊢
      exact this
    · rw [if_neg hib] at this ⊢
      exact this
  have hblk : ∀ i, (c₅.head i).blocknr = if i = b then block else (c.head i).blocknr := fun i => by
    have := congrArg BufferHead.blocknr (hbare i)
    by_cases hib : i = b
    · rw [if_pos hib] at this ⊢
      exact this
    · rw [if_neg hib] at this ⊢
      exact this
  have hnr : c₅.nrBuffers = c.nrBuffers := by
    rw [hnr₅, hnr₄, hroots₃.2.2, hnr₂, hnr₁, ← hc₀]
    rfl
  have hbare₄b : (c₄.head b).dev = dev ∧ (c₄.head b).blocknr = block := by
    have h₁ := congrArg BufferHead.dev (hbare₅ b)
    have h₂ := congrArg BufferHead.blocknr (hbare₅ b)
    have h₃ := hdev b
    have h₄ := hblk b
    rw [if_pos rfl] at h₃ h₄
    exact ⟨h₁.symm.trans h₃, h₂.symm.trans h₄⟩
  rw [hbare₄b.1, hbare₄b.2] at hq₅
  obtain ⟨q', hq'⟩ : ∃ q', (fun q => if dev ≠ 0 ∧ q = hashfn dev block then b :: (L.queue q).erase b
    else (L.queue q).erase b) = q' := ⟨_, rfl⟩
  rw [hq'] at hq₅
  have hmem' : ∀ q i, i ∈ q' q ↔
      (i = b ∧ dev ≠ 0 ∧ q = hashfn dev block) ∨ (i ≠ b ∧ i ∈ L.queue q) := by
    intro q i
    rw [← hq']
    by_cases hib : i = b
    · rw [hib]
      by_cases hd : dev ≠ 0 ∧ q = hashfn dev block
      · simp [hd]
      · simp [hd, hoff₄ q]
    · by_cases hd : dev ≠ 0 ∧ q = hashfn dev block
      · simp [hd, hib, List.mem_erase_of_ne hib]
      · simp [hd, hib, List.mem_erase_of_ne hib]
  refine ⟨c₅, ⟨l, q'⟩, ?_, ⟨hf₄.congr hnf₅ hpf₅ hfl₅, hq₅, fun i => ?_, fun q i => ?_,
    fun i hi hd => ?_, fun i j hi hj hd hdev' hblk' => ?_⟩, hnr, hbare⟩
  · rw [Buffer.retag, hc₀, removeFromQueues, hc₁, hc₂, Option.map_some, hc₃, insertIntoQueues,
      hc₄, hc₅]
  · rw [hmem, h.free_mem, hnr]
  · rw [hnr, hdev, hblk]
    refine (hmem' q i).trans ?_
    by_cases hib : i = b
    · rw [if_pos hib, if_pos hib, hib]
      exact ⟨fun hi => hi.elim (fun hi => ⟨hb, hi.2.1, hi.2.2.symm⟩) fun hi => absurd rfl hi.1,
        fun hi => Or.inl ⟨rfl, hi.2.1, hi.2.2.symm⟩⟩
    · rw [if_neg hib, if_neg hib, ← h.chain_mem]
      exact ⟨fun hi => hi.elim (fun hi => absurd hi.1 hib) And.right, fun hi => Or.inr ⟨hib, hi⟩⟩
  · rw [hnr] at hi
    rw [hdev] at hd
    by_cases hib : i = b
    · rw [if_pos hib] at hd
      rw [hib, Cache.head_prev, Cache.head_next, ← hc₅, insertIntoHash_of_dev (hbare₄b.1.trans hd)]
      exact ⟨Function.update_self _ _ _, Function.update_self _ _ _⟩
    · rw [if_neg hib] at hd
      have hoff : ∀ q, i ∉ L.queue q := fun q hm => ((h.chain_mem q i).mp hm).2.1 hd
      obtain ⟨hp, hn⟩ := h.unhashed i hi hd
      rw [Cache.head_prev, Cache.head_next, (hlinks₅ i hib hoff).1, (hlinks₅ i hib hoff).2, hp₄,
        hn₄, hlink₃.1, hlink₃.2.1, hp₂, hn₂, (hlinks₁ i hoff).1, (hlinks₁ i hoff).2, hlink₀.1,
        hlink₀.2.1]
      exact ⟨hp, hn⟩
  · rw [hnr] at hi hj
    rw [hdev] at hd
    rw [hdev, hdev] at hdev'
    rw [hblk, hblk] at hblk'
    by_cases hib : i = b
    · by_cases hjb : j = b
      · rw [hib, hjb]
      · rw [if_pos hib] at hd
        rw [if_pos hib, if_neg hjb] at hdev' hblk'
        exact absurd ⟨hdev'.symm, hblk'.symm⟩ (hno hd j hj)
    · rw [if_neg hib] at hd
      by_cases hjb : j = b
      · rw [if_neg hib, if_pos hjb] at hdev' hblk'
        exact absurd ⟨hdev', hblk'⟩ (hno (hdev' ▸ hd) i hi)
      · rw [if_neg hib, if_neg hjb] at hdev' hblk'
        exact h.unique i j hi hj hd hdev' hblk'

end Laid

/-! ### The heads as `buffer_init` leaves them -/

section Init

variable {n : ℕ} {old : ℕ → BufferHead}

/-- **`buffer_init` leaves the queues in order.** -/
theorem laid_bufferInit (hn : 0 < n) (old : ℕ → BufferHead) :
    Laid (bufferInit n old) ⟨List.range' 0 n, fun _ => []⟩ where
  freeList := by
    refine ⟨?_, ?_, List.nodup_range'⟩
    · have hring : Ring (bufferInit n old).nextFree (bufferInit n old).prevFree
        ((List.range' 0 n).map id) := ring_numbered hn (fun _ _ => rfl) fun _ _ => rfl
      rwa [List.map_id] at hring
    · obtain ⟨m, rfl⟩ : ∃ m, n = m + 1 := ⟨n - 1, by omega⟩
      rfl
  queues := ⟨fun _ => trivial, fun _ => rfl, fun _ => List.nodup_nil, fun _ _ _ h => by simp at h⟩
  free_mem b := by
    change b ∈ List.range' 0 n ↔ b < n
    simp
  chain_mem h b := by
    change b ∈ [] ↔ b < n ∧ (0 : ℕ) ≠ 0 ∧ _
    simp
  unhashed _ _ _ := ⟨rfl, rfl⟩
  unique _ _ _ _ hd := absurd rfl hd

end Init

end Linux011.Buffer

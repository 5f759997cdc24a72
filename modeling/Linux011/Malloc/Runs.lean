import Linux011.Lib.Run
import Linux011.Malloc.Objects

/-!
# Malloc over runs

A run is any sequence of calls of `malloc` and `free_s`, of objects that are live then, with
anything that others do to the rest of memory in between, and to what is inside the live objects
(`Linux011.Malloc.State.Step`). What `malloc` and `free_s` promise is
`Linux011.Malloc.State.Sound`, and holds in every state reached (`Linux011.Malloc.malloc_sound`).
-/

namespace Linux011.Malloc

variable {s t : Heap} {live : List (ℕ × ℕ)} {q : ℕ → List ℕ} {f l₁ l₂ : List ℕ}
  {i d len : ℕ} {o : ℕ × ℕ} {size : ℤ}

/-- **What is kept**, and nothing is left over. -/
def Inv (s : Heap) (live : List (ℕ × ℕ)) : Prop := ∃ q f, Ok s live q f ∧ Tight s q none

/-- The panics of `malloc` where no page is free. -/
def outOfMemory : List String :=
  ["Out of memory in init_bucket_desc()", "Out of memory in kernel malloc()"]

/-! ### `malloc` -/

/-- There is a free descriptor, or a page is cut into some. -/
theorem Ok.needDesc (h : Ok s live q f) (ht : Tight s q none) :
    Malloc.needDesc s = .error (.panic "Out of memory in init_bucket_desc()") ∨
    ∃ t d f', Malloc.needDesc s = .ok t ∧ Ok t live q (d :: f') ∧ Tight t q none := by
  have hfree := h.free
  unfold Malloc.needDesc
  rcases f with _ | ⟨d, f⟩
  · have hnone : s.freeBucketDesc = none := hfree
    rw [if_pos hnone]
    rcases h.initBucketDesc with herr | ⟨p, t, d, f', hinit, hok, hdesc, hheld, hpages⟩
    · exact Or.inl herr
    · refine Or.inr ⟨t, d, f', hinit, hok, ⟨fun i e he hne => ?_, fun r hr hrd => ?_⟩⟩
      · rw [hdesc i e he]
        exact ht.busy i e he hne
      · rw [hpages, Finset.mem_insert, not_or] at hrd
        rw [hheld, Finset.mem_insert] at hr
        obtain ⟨i, e, he, hpe⟩ := ht.pages r (hr.resolve_left hrd.1) hrd.2
        refine ⟨i, e, he, ?_⟩
        rw [hdesc i e he]
        exact hpe
  · have hsome : s.freeBucketDesc ≠ none := by
      rw [hfree.1]
      exact Option.some_ne_none d
    rw [if_neg hsome]
    exact Or.inr ⟨s, d, f, rfl, h, ht⟩

/-- **A bucket with a free object** is found or set up. -/
theorem Ok.bucketFor (h : Ok s live q f) (ht : Tight s q none) (hi : i < 9) :
    (∃ msg ∈ outOfMemory, Malloc.bucketFor i s = .error (.panic msg)) ∨
    ∃ d t q' f', Malloc.bucketFor i s = .ok (d, t) ∧ Ok t live q' f' ∧ Tight t q' (some d) ∧
      d ∈ q' i ∧ (t.desc d).freeptr ≠ 0 := by
  unfold Malloc.bucketFor
  rcases Chain.first_or_none (fun d => decide ((s.desc d).freeptr ≠ 0)) (q i) with
    hnone | ⟨l₁, d, l₂, hq, hd, hl₁⟩
  · obtain ⟨r, hr⟩ : ∃ r, Chain.search _ _ _ none _ = some (r, none) :=
      (h.chain i).search_none (h.chain_length i) hnone
    rw [hr]
    dsimp only
    rcases h.needDesc ht with herr | ⟨t, d, f', hneed, hok, htight⟩
    · rw [herr]
      exact Or.inl ⟨_, List.mem_cons_self, rfl⟩
    rw [hneed]
    dsimp only
    rcases hok.newBucket hi with herr | ⟨p, u, hnew, huok, hself, hp, hold, hheld, hpages⟩
    · rw [herr]
      exact Or.inl ⟨_, List.mem_cons_of_mem _ List.mem_cons_self, rfl⟩
    have hmem : ∀ j e, e ∈ q j → e ∈ Function.update q i (d :: q i) j := by
      intro j e he
      by_cases hj : j = i
      · obtain rfl := hj
        rw [Function.update_self]
        exact List.mem_cons_of_mem d he
      · rwa [Function.update_of_ne hj]
    have hdmem : d ∈ Function.update q i (d :: q i) i := by
      rw [Function.update_self]
      exact List.mem_cons_self
    refine Or.inr ⟨d, u, _, f', hnew, huok, ⟨fun j e he hne => ?_, fun r hr hrd => ?_⟩, hdmem, ?_⟩
    · have hej : e ∈ q j := by
        by_cases hj : j = i
        · obtain rfl := hj
          rw [Function.update_self] at he
          exact (List.mem_cons.mp he).resolve_left fun hed => hne (congrArg some hed)
        · rwa [Function.update_of_ne hj] at he
      rw [hold j e hej]
      exact htight.busy j e hej (Option.some_ne_none e)
    · rw [hheld, Finset.mem_insert] at hr
      rw [hpages] at hrd
      rcases hr with rfl | hr
      · exact ⟨i, d, hdmem, by rw [hself]⟩
      · obtain ⟨j, e, he, hpe⟩ := htight.pages r hr hrd
        refine ⟨j, e, hmem j e he, ?_⟩
        rw [hold j e he]
        exact hpe
    · rw [hself]
      exact hp
  · have hchain := h.chain i
    have hlen := h.chain_length i
    rw [hq] at hchain hlen
    rw [List.length_append, List.length_cons] at hlen
    rw [hchain.search_some (by omega) hl₁ hd]
    refine Or.inr ⟨d, s, q, f, rfl, h, ⟨fun j e he _ => ?_, ht.pages⟩, ?_, of_decide_eq_true hd⟩
    · exact ht.busy j e he (Option.some_ne_none e)
    · rw [hq]
      exact List.mem_append_right l₁ List.mem_cons_self

/-- **`malloc`** returns an object, unless there is no page for it. -/
theorem Inv.malloc (h : Inv s live) (hlen : len ≤ 4096) :
    (∃ msg ∈ outOfMemory, Malloc.malloc len s = .error (.panic msg)) ∨
    ∃ a t, Malloc.malloc len s = .ok (a, t) ∧ Inv t ((a, len) :: live) := by
  obtain ⟨q, f, hok, htight⟩ := h
  have hi := bucketOf_lt hlen
  have hsize : ¬ bucketSize (bucketOf len) = 0 := by
    have := (bucketSize_pos hi).1
    omega
  unfold Malloc.malloc
  rw [if_neg hsize]
  rcases hok.bucketFor htight hi with ⟨msg, hmsg, herr⟩ | ⟨d, t, q', f', hb, ht, htt, hd, hfree⟩
  · rw [herr]
    exact Or.inl ⟨msg, hmsg, rfl⟩
  · rw [hb]
    obtain ⟨htake, hcount⟩ := ht.takeObject hd hfree
    refine Or.inr ⟨(takeObject d t).1, (takeObject d t).2, rfl, q', f', htake,
      ⟨fun j e he _ => ?_, fun r hr hrd => ?_⟩⟩
    · by_cases hed : e = d
      · rw [hed]
        exact hcount
      · rw [desc_takeObject hed]
        exact htt.busy j e he fun hse => hed (Option.some.inj hse)
    · obtain ⟨j, e, he, hpe⟩ := htt.pages r hr hrd
      refine ⟨j, e, he, ?_⟩
      rw [page_takeObject]
      exact hpe

/-! ### `free_s` -/

/-- **The search of `free_s`** finds the bucket and what is before it, whatever size it is told. -/
theorem Ok.findDesc (h : Ok s live q f) (hq : q i = l₁ ++ d :: l₂)
    (hsize : size ≤ bucketSize i) :
    Malloc.findDesc (s.desc d).page size s bucketDir.length 0 = .ok (i, l₁.getLast?, d) := by
  have hd : d ∈ q i := hq ▸ List.mem_append_right l₁ List.mem_cons_self
  have hgen : ∀ n j, n + j = 9 → j ≤ i →
      Malloc.findDesc (s.desc d).page size s n j = .ok (i, l₁.getLast?, d) := by
    intro n
    induction n with
    | zero =>
      intro j hj hji
      have := h.small i d hd
      omega
    | succ n ih =>
      intro j hj hji
      rw [Malloc.findDesc]
      by_cases hjeq : j = i
      · obtain rfl := hjeq
        have hchain := h.chain j
        have hlen := h.chain_length j
        have hnodup := h.nodup j
        rw [hq] at hchain hlen hnodup
        rw [List.length_append, List.length_cons] at hlen
        -- no descriptor before it has the same page
        have hl₁ : ∀ e ∈ l₁, decide ((s.desc e).page = (s.desc d).page) = false := by
          intro e he
          refine decide_eq_false fun hp => ?_
          have hej : e ∈ q j := hq ▸ List.mem_append_left _ he
          obtain rfl := h.pageApart j j e d hej hd hp
          exact (List.nodup_append.mp hnodup).2.2 _ he _ List.mem_cons_self rfl
        rw [if_neg (by omega), hchain.search_some (by omega) hl₁
          (decide_eq_true rfl)]
        dsimp only
        rw [Option.or_none]
      · have hnext := ih (j + 1) (by omega) (by omega)
        have hother : ∀ e ∈ q j, decide ((s.desc e).page = (s.desc d).page) = false := by
          intro e he
          refine decide_eq_false fun hp => hjeq ?_
          obtain rfl := h.pageApart j i e d he hd hp
          exact h.apart j i e he hd
        split
        · exact hnext
        · obtain ⟨r, hr⟩ := (h.chain j).search_none (h.chain_length j) hother
          rw [hr]
          exact hnext
  exact hgen 9 0 rfl (Nat.zero_le i)

/-- **`free_s`** gives a live object back, whatever size it is told. -/
theorem Inv.freeS (h : Inv s live) (ho : o ∈ live) : ∃ t, Inv t (live.erase o) ∧
    ∀ size : ℤ, size ≤ bucketSize (bucketOf o.2) → Malloc.freeS o.1 size s = .ok t := by
  obtain ⟨q, f, hok, htight⟩ := h
  obtain ⟨d, hd, hpage⟩ := hok.live o ho
  obtain ⟨l₁, l₂, hq⟩ := List.append_of_mem hd
  have hput := hok.putObject ho hd hpage
  obtain ⟨t, ht⟩ : ∃ t, t = Malloc.putObject o.1 d s := ⟨_, rfl⟩
  have hfree : ∀ size : ℤ, size ≤ bucketSize (bucketOf o.2) →
      Malloc.freeS o.1 size s = if (t.desc d).refcnt = 0
        then Malloc.dropBucket (bucketOf o.2) l₁.getLast? d t else .ok t := by
    intro size hsize
    unfold Malloc.freeS
    rw [← hpage, hok.findDesc hq hsize, ht]
  have hpages : t.held = s.held ∧ t.descPages = s.descPages := by
    rw [ht]
    exact ⟨rfl, rfl⟩
  have hbusy : ∀ j e, e ∈ q j → e ≠ d → (t.desc e).refcnt ≠ 0 := by
    intro j e he hed
    rw [ht, desc_putObject hed]
    exact htight.busy j e he (Option.some_ne_none e)
  have hused : ∀ p ∈ t.held, p ∉ t.descPages → ∃ j e, e ∈ q j ∧ (t.desc e).page = p := by
    intro p hp hpd
    rw [hpages.1] at hp
    rw [hpages.2] at hpd
    obtain ⟨j, e, he, hpe⟩ := htight.pages p hp hpd
    refine ⟨j, e, he, ?_⟩
    rw [ht, page_putObject]
    exact hpe
  rw [← ht] at hput
  by_cases hzero : (t.desc d).refcnt = 0
  · obtain ⟨u, hdrop, hu, hheld, hdescs, hdesc⟩ := hput.dropBucket hq hzero
    refine ⟨u, ⟨_, _, hu, ⟨fun j e he _ => ?_, fun p hp hpd => ?_⟩⟩, fun size hsize => ?_⟩
    · have hej := (hput.mem_without hq).mp he
      rw [hdesc]
      exact hbusy j e hej.1 hej.2
    · rw [hheld, Finset.mem_erase] at hp
      rw [hdescs] at hpd
      obtain ⟨j, e, he, hpe⟩ := hused p hp.2 hpd
      refine ⟨j, e, (hput.mem_without hq).mpr ⟨he, ?_⟩, ?_⟩
      · rintro rfl
        exact hp.1 hpe.symm
      · rw [hdesc]
        exact hpe
    · rw [hfree size hsize, if_pos hzero]
      exact hdrop
  · refine ⟨t, ⟨q, f, hput, ⟨fun j e he _ => ?_, hused⟩⟩, fun size hsize => ?_⟩
    · by_cases hed : e = d
      · rw [hed]
        exact hzero
      · exact hbusy j e he hed
    · rw [hfree size hsize, if_neg hzero]

/-! ### Runs -/

/-- **A state**: memory, and the live objects with the lengths they were asked for with. -/
structure State where
  heap : Heap
  live : List (ℕ × ℕ)

/-- What others may do: to pages that are not held, and inside live objects. -/
structure Others (live : List (ℕ × ℕ)) (s t : Heap) : Prop where
  high : t.highMemory = s.highMemory
  main : ∀ n < Mm.pagingPages, t.memMap n = 0 → 4096 * (Mm.lowFrame + n) < t.highMemory
  map : ∀ n, 4096 * (Mm.lowFrame + n) ∈ s.held → t.memMap n = s.memMap n
  desc : ∀ d, pageOf d ∈ s.held → t.desc d = s.desc d
  word : ∀ a, pageOf a ∈ s.held → (∀ o ∈ live, a < o.1 ∨ o.1 + o.2 ≤ a) → t.word a = s.word a
  rest : t.chain = s.chain ∧ t.freeBucketDesc = s.freeBucketDesc ∧ t.held = s.held ∧
    t.descPages = s.descPages

namespace State

/-- No object has been asked for yet; the free pages are pages of main memory. -/
structure Start (s : State) : Prop where
  chain : ∀ i, s.heap.chain i = none
  free : s.heap.freeBucketDesc = none
  held : s.heap.held = ∅
  descPages : s.heap.descPages = ∅
  live : s.live = []
  main : ∀ n < Mm.pagingPages, s.heap.memMap n = 0 →
    4096 * (Mm.lowFrame + n) < s.heap.highMemory

/-- **A step**: a call of `malloc`, a call of `free_s` with a live object and 0 or its length, or
something that others do. -/
inductive Step (s : State) : State → Prop
  | malloc {len a : ℕ} {t : Heap} (hlen : len ≤ 4096) (h : malloc len s.heap = .ok (a, t)) :
    Step s ⟨t, (a, len) :: s.live⟩
  | free {o : ℕ × ℕ} {size : ℤ} {t : Heap} (ho : o ∈ s.live) (hsize : size = 0 ∨ size = o.2)
    (h : freeS o.1 size s.heap = .ok t) : Step s ⟨t, s.live.erase o⟩
  | others {t : Heap} (h : Others s.live s.heap t) : Step s ⟨t, s.live⟩

/-- The size of the objects that are given out for a length. -/
def room (len : ℕ) : ℕ := bucketSize (bucketOf len)

/-- **What `malloc` and `free_s` promise**: a live object is as large as it was asked for, inside
one page that was taken for objects, and apart from the others; each bucket knows how many of its
objects are live and which are not; a live object can be given back, and it does not matter
whether its length is told; `malloc` fails only for want of a page; and with no object live,
only pages of descriptors are kept. -/
structure Sound (s : State) : Prop where
  inside : ∀ o ∈ s.live, o.2 ≤ room o.2 ∧ ∃ p ∈ s.heap.held, p ∉ s.heap.descPages ∧
    pageOf p = p ∧ p ≤ o.1 ∧ o.1 + room o.2 ≤ p + 4096
  disjoint : s.live.Pairwise fun o o' => o.1 + room o.2 ≤ o'.1 ∨ o'.1 + room o'.2 ≤ o.1
  buckets : ∃ q : ℕ → List ℕ, ∀ i, Chain s.heap.next (s.heap.chain i) (q i) ∧ ∀ d ∈ q i,
    (s.heap.desc d).refcnt = (inPage s.live (s.heap.desc d).page).length ∧
    ∃ l, Chain s.heap.link (ptr (s.heap.desc d).freeptr) l ∧ l.Nodup ∧
      ∀ a, a ∈ l ↔ a ∈ objects (s.heap.desc d).page (bucketSize i) ∧ ∀ len, (a, len) ∉ s.live
  hint : ∀ o ∈ s.live, freeS o.1 o.2 s.heap = freeS o.1 0 s.heap
  free : ∀ o ∈ s.live, ∃ t, freeS o.1 0 s.heap = .ok t
  malloc : ∀ len ≤ 4096, (∃ a t, malloc len s.heap = .ok (a, t)) ∨
    ∃ msg ∈ outOfMemory, malloc len s.heap = .error (.panic msg)
  done : s.live = [] → s.heap.held = s.heap.descPages ∧ ∀ i, s.heap.chain i = none

end State

theorem State.Start.inv {s : State} (h : s.Start) : Inv s.heap s.live := by
  rw [h.live]
  refine ⟨fun _ => [], [], ?_, ?_, ?_⟩
  · refine ⟨h.main, fun p hp => ?_, h.chain, h.free, fun _ _ hd => ?_, fun _ => List.nodup_nil,
      List.nodup_nil, fun _ _ _ hd => ?_, fun _ _ hd => ?_, fun _ _ hd => ?_, fun _ hd => ?_, ?_,
      fun _ _ hd => ?_, fun _ _ _ _ hd => ?_, fun _ _ hd => ?_, fun _ ho => ?_⟩
    · rw [h.held] at hp
      exact absurd hp (Finset.notMem_empty p)
    · cases hd
    · cases hd
    · cases hd
    · cases hd
    · cases hd
    · rw [h.descPages]
      exact Finset.empty_subset _
    · cases hd
    · cases hd
    · cases hd
    · cases ho
  · intro _ _ hd
    cases hd
  · intro p hp
    rw [h.held] at hp
    exact absurd hp (Finset.notMem_empty p)

/-- What others do is nothing to `malloc`. -/
theorem Inv.others (h : Inv s live) (ho : Others live s t) : Inv t live := by
  obtain ⟨q, f, hok, htight⟩ := h
  obtain ⟨hchain, hfree, hheld, hpages⟩ := ho.rest
  have hok' : Ok t live q f := by
    refine hok.congr ho.main (fun p hp => ?_) ?_ hpages hchain hfree ho.desc ho.word
    · rw [hheld] at hp
      obtain ⟨n, hn, rfl, hone, hhigh⟩ := hok.held p hp
      exact ⟨n, hn, rfl, (ho.map n hp).trans hone, ho.high ▸ hhigh⟩
    · rw [hheld]
  have hdesc : ∀ i d, d ∈ q i → t.desc d = s.desc d := fun i d hd =>
    ho.desc d (hok.descHeld (hok.descs i d hd))
  refine ⟨q, f, hok', ⟨fun i d hd hne => ?_, fun p hp hpd => ?_⟩⟩
  · rw [hdesc i d hd]
    exact htight.busy i d hd hne
  · rw [hheld] at hp
    rw [hpages] at hpd
    obtain ⟨i, d, hd, hpe⟩ := htight.pages p hp hpd
    refine ⟨i, d, hd, ?_⟩
    rw [hdesc i d hd]
    exact hpe

/-- The sizes `free_s` may be told. -/
theorem size_le (h : Inv s live) (ho : o ∈ live) (hsize : size = 0 ∨ size = o.2) :
    size ≤ bucketSize (bucketOf o.2) := by
  obtain ⟨q, f, hok, -⟩ := h
  obtain ⟨d, hd, -⟩ := hok.live o ho
  have hle := le_bucketSize (hok.small _ d hd)
  omega

theorem Inv.step {s s' : State} (h : Inv s.heap s.live) (hs : s.Step s') :
    Inv s'.heap s'.live := by
  rcases hs with ⟨hlen, hm⟩ | ⟨ho, hsize, hf⟩ | ho
  · rcases h.malloc hlen with ⟨msg, -, herr⟩ | ⟨a, t, hok, hinv⟩
    · rw [herr] at hm
      cases hm
    · rw [hok] at hm
      cases hm
      exact hinv
  · obtain ⟨t, hinv, hok⟩ := h.freeS ho
    rw [hok _ (size_le h ho hsize)] at hf
    cases hf
    exact hinv
  · exact h.others ho

/-- No object is live twice. -/
theorem Ok.addresses (h : Ok s live q f) : (live.map Prod.fst).Nodup := by
  refine List.nodup_iff_count_le_one.mpr fun a => ?_
  by_cases ha : a ∈ live.map Prod.fst
  · obtain ⟨o, ho, rfl⟩ := List.mem_map.mp ha
    obtain ⟨d, hd, hpage⟩ := h.live o ho
    obtain ⟨l, -, hperm⟩ := (h.bucket _ d hd).objects
    have hpos := (h.size_pos hd).1
    have hnodup : (objects (s.desc d).page (bucketSize (bucketOf o.2))).Nodup :=
      objects_nodup (by omega)
    have hone := List.nodup_iff_count_le_one.mp (hperm.nodup_iff.mpr hnodup) o.1
    have hcount : (inPage live (s.desc d).page).count o.1 = (live.map Prod.fst).count o.1 :=
      List.count_filter (decide_eq_true hpage.symm)
    rw [List.count_append, hcount] at hone
    omega
  · rw [List.count_eq_zero_of_not_mem ha]
    exact Nat.zero_le 1

/-- Two live objects do not overlap. -/
theorem Ok.live_apart (h : Ok s live q f) {o' : ℕ × ℕ} (ho : o ∈ live) (ho' : o' ∈ live)
    (hne : o ≠ o') :
    o.1 + State.room o.2 ≤ o'.1 ∨ o'.1 + State.room o'.2 ≤ o.1 := by
  obtain ⟨d, hd, hpage, hobj⟩ := h.live_object ho
  obtain ⟨e, he, hpage', hobj'⟩ := h.live_object ho'
  have haddr : o.1 ≠ o'.1 := fun heq => hne (List.inj_on_of_nodup_map h.addresses ho ho' heq)
  unfold State.room
  by_cases hsame : (s.desc d).page = (s.desc e).page
  · obtain rfl := h.pageApart _ _ _ _ hd he hsame
    rw [← h.apart _ _ _ hd he] at hobj' ⊢
    exact objects_apart hobj hobj' haddr
  · have hle := object_le (h.size_pos hd).2 hobj
    have hle' := object_le (h.size_pos he).2 hobj'
    unfold pageOf at hpage hpage'
    omega

/-- **What is promised holds** where what is kept does. -/
theorem Inv.sound {s : State} (h : Inv s.heap s.live) : s.Sound := by
  have hhint : ∀ o ∈ s.live, ∃ t, Malloc.freeS o.1 o.2 s.heap = .ok t ∧
      Malloc.freeS o.1 0 s.heap = .ok t := by
    intro o ho
    obtain ⟨t, -, hok⟩ := h.freeS ho
    exact ⟨t, hok _ (size_le h ho (Or.inr rfl)), hok _ (size_le h ho (Or.inl rfl))⟩
  obtain ⟨q, f, hok, htight⟩ := id h
  refine ⟨fun o ho => ?_, ?_, ⟨q, fun i => ⟨hok.chain i, fun d hd => ?_⟩⟩, fun o ho => ?_,
    fun o ho => ?_, fun len hlen => ?_, fun hnil => ?_⟩
  · obtain ⟨d, hd, hpage, hobj⟩ := hok.live_object ho
    have hle := object_le (hok.size_pos hd).2 hobj
    exact ⟨le_bucketSize (hok.small _ d hd), _, (hok.page _ d hd).1, (hok.page _ d hd).2,
      (hok.page_eq (hok.page _ d hd).1).1, hle.1, hle.2⟩
  · refine hok.addresses.of_map.pairwise_of_forall_ne fun o ho o' ho' hne => ?_
    exact hok.live_apart ho ho' hne
  · obtain ⟨-, ⟨l, hl, hperm⟩, hcount⟩ := hok.bucket i d hd
    have hnodup := hperm.nodup_iff.mpr
      (objects_nodup (show 0 < bucketSize i by have := (hok.size_pos hd).1; omega))
    refine ⟨hcount, l, hl, (List.nodup_append.mp hnodup).1, fun a => ?_⟩
    have hmem := hperm.mem_iff (a := a)
    rw [List.mem_append] at hmem
    constructor
    · intro ha
      have hobj := hmem.mp (Or.inl ha)
      refine ⟨hobj, fun len hlive => ?_⟩
      have hin := mem_inPage.mpr ⟨⟨len, hlive⟩, hok.pageOf_mem hd hobj⟩
      exact (List.nodup_append.mp hnodup).2.2 _ ha _ hin rfl
    · rintro ⟨hobj, hdead⟩
      refine (hmem.mpr hobj).resolve_right fun hin => ?_
      obtain ⟨⟨len, hlive⟩, -⟩ := mem_inPage.mp hin
      exact hdead len hlive
  · obtain ⟨t, hsized, hzero⟩ := hhint o ho
    rw [hsized, hzero]
  · obtain ⟨t, -, hzero⟩ := hhint o ho
    exact ⟨t, hzero⟩
  · rcases h.malloc hlen with herr | ⟨a, t, hret, -⟩
    · exact Or.inr herr
    · exact Or.inl ⟨a, t, hret⟩
  · -- a bucket has a live object, so there is none
    have hempty : ∀ i d, d ∉ q i := by
      intro i d hd
      refine htight.busy i d hd (Option.some_ne_none d) ?_
      rw [(hok.bucket i d hd).refcnt, hnil]
      rfl
    refine ⟨Finset.Subset.antisymm (fun p hp => ?_) hok.descHeld, fun i => ?_⟩
    · by_contra hpd
      obtain ⟨i, d, hd, -⟩ := htight.pages p hp hpd
      exact hempty i d hd
    · have hchain := hok.chain i
      rw [List.eq_nil_iff_forall_not_mem.mpr (hempty i)] at hchain
      exact hchain

/-- Nothing has been asked for, and one page is free. -/
def fresh : State where
  heap :=
    { memMap := fun n => if n = 3000 then 0 else 100
      highMemory := 0x1000000
      word := fun _ => 0
      desc := fun _ => ⟨0, none, 0, 0, 0⟩
      chain := fun _ => none
      freeBucketDesc := none
      held := ∅
      descPages := ∅ }
  live := []

end Linux011.Malloc

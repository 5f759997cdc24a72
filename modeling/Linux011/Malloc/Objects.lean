import Linux011.Malloc.Buckets
import Linux011.Mm.Routines
import Mathlib.Data.List.GetD
import Mathlib.Data.List.Range
import Mathlib.Data.List.Perm.Subperm

/-!
# The objects of a bucket

`Linux011.Malloc.Ok` is what `malloc` and `free_s` keep: the chains and the list of free descriptors
are lists, apart from each other; a page is cut into descriptors or is that of one bucket; and of
each bucket the free objects and the live ones are together the objects of its page
(`Linux011.Malloc.Bucket`). There is one lemma for each thing `malloc` and `free_s` do: a page is
taken (`Ok.taken`) and cut into descriptors (`Ok.initBucketDesc`) or into objects
(`Ok.newBucket`), an object is taken (`Ok.takeObject`) and put back (`Ok.putObject`), a bucket
goes back (`Ok.dropBucket`).
-/

namespace Linux011.Malloc

/-! ### Sizes -/

theorem bucketSize_pos {i : ℕ} (h : i < 9) : 16 ≤ bucketSize i ∧ bucketSize i ∣ 4096 := by
  have hall : ∀ i < 9, 16 ≤ bucketSize i ∧ bucketSize i ∣ 4096 := by decide
  exact hall i h

theorem bucketOf_lt {len : ℕ} (h : len ≤ 4096) : bucketOf len < 9 := by
  refine List.findIdx_lt_length_of_exists ⟨4096, by decide, ?_⟩
  exact decide_eq_true h

/-- The objects of the bucket are large enough. -/
theorem le_bucketSize {len : ℕ} (h : bucketOf len < 9) : len ≤ bucketSize (bucketOf len) := by
  have hfound : decide (len ≤ bucketDir[bucketOf len]) = true := List.findIdx_getElem (w := h)
  unfold bucketSize
  rw [List.getD_eq_getElem _ _ h]
  exact of_decide_eq_true hfound

/-! ### The objects of a page -/

/-- The objects of a page. -/
def objects (page size : ℕ) : List ℕ := List.range' page (4096 / size) size

/-- The live objects in a page. -/
def inPage (live : List (ℕ × ℕ)) (page : ℕ) : List ℕ :=
  (live.map Prod.fst).filter fun a => pageOf a = page

variable {page size a b i : ℕ} {live live' : List (ℕ × ℕ)} {o : ℕ × ℕ}

theorem mem_inPage : a ∈ inPage live page ↔ (∃ len, (a, len) ∈ live) ∧ pageOf a = page := by
  rw [inPage, List.mem_filter, decide_eq_true_iff]
  refine and_congr_left fun _ => ?_
  rw [List.mem_map]
  constructor
  · rintro ⟨⟨a, len⟩, hm, rfl⟩
    exact ⟨len, hm⟩
  · rintro ⟨len, hm⟩
    exact ⟨_, hm, rfl⟩

theorem inPage_cons : inPage (o :: live) page =
    if pageOf o.1 = page then o.1 :: inPage live page else inPage live page := by
  rw [inPage, List.map_cons, List.filter_cons]
  simp only [decide_eq_true_iff]
  rfl

theorem inPage_perm (h : live.Perm live') : (inPage live page).Perm (inPage live' page) :=
  (h.map Prod.fst).filter _

theorem mem_objects : a ∈ objects page size ↔ ∃ k < 4096 / size, a = page + size * k := by
  rw [objects, List.mem_range']

theorem objects_nodup (h : 0 < size) : (objects page size).Nodup :=
  List.nodup_range' size h

/-- An object is inside its page. -/
theorem object_le (hdvd : size ∣ 4096) (ha : a ∈ objects page size) :
    page ≤ a ∧ a + size ≤ page + 4096 := by
  obtain ⟨k, hk, rfl⟩ := mem_objects.mp ha
  have hmul := Nat.mul_le_mul_left size (Nat.succ_le_of_lt hk)
  rw [Nat.mul_div_cancel' hdvd, Nat.mul_succ] at hmul
  omega

theorem pageOf_object (hpos : 0 < size) (hdvd : size ∣ 4096) (hpage : pageOf page = page)
    (ha : a ∈ objects page size) : pageOf a = page := by
  obtain ⟨hle, hend⟩ := object_le hdvd ha
  unfold pageOf at hpage ⊢
  omega

/-- Two objects of a page do not overlap. -/
theorem objects_apart (ha : a ∈ objects page size) (hb : b ∈ objects page size) (hne : a ≠ b) :
    a + size ≤ b ∨ b + size ≤ a := by
  obtain ⟨k, -, rfl⟩ := mem_objects.mp ha
  obtain ⟨l, -, rfl⟩ := mem_objects.mp hb
  have hkl : k ≠ l := fun h => hne (by rw [h])
  rcases Nat.lt_or_gt_of_ne hkl with h | h
  · have hmul := Nat.mul_le_mul_left size (Nat.succ_le_of_lt h)
    rw [Nat.mul_succ] at hmul
    omega
  · have hmul := Nat.mul_le_mul_left size (Nat.succ_le_of_lt h)
    rw [Nat.mul_succ] at hmul
    omega

/-! ### What is kept -/

/-- **A bucket**: its free objects are linked from `freeptr` on; with those that are live they are
the objects of its page; and `refcnt` counts the live ones. -/
structure Bucket (s : Heap) (live : List (ℕ × ℕ)) (i d : ℕ) : Prop where
  size : (s.desc d).bucketSize = bucketSize i
  objects : ∃ l, Chain s.link (ptr (s.desc d).freeptr) l ∧
    (l ++ inPage live (s.desc d).page).Perm (objects (s.desc d).page (bucketSize i))
  refcnt : (s.desc d).refcnt = (inPage live (s.desc d).page).length

/-- **What is kept**, of the live objects `live` (with the lengths asked for), the chains `q` and
the free descriptors `f`. -/
structure Ok (s : Heap) (live : List (ℕ × ℕ)) (q : ℕ → List ℕ) (f : List ℕ) : Prop where
  high : ∀ n < Mm.pagingPages, s.memMap n = 0 → 4096 * (Mm.lowFrame + n) < s.highMemory
  held : ∀ p ∈ s.held, ∃ n < Mm.pagingPages, p = 4096 * (Mm.lowFrame + n) ∧ s.memMap n = 1 ∧
    p < s.highMemory
  chain : ∀ i, Chain s.next (s.chain i) (q i)
  free : Chain s.next s.freeBucketDesc f
  small : ∀ i d, d ∈ q i → i < 9
  nodup : ∀ i, (q i).Nodup
  freeNodup : f.Nodup
  apart : ∀ i j d, d ∈ q i → d ∈ q j → i = j
  freeApart : ∀ i d, d ∈ q i → d ∉ f
  descs : ∀ i d, d ∈ q i → pageOf d ∈ s.descPages
  freeDescs : ∀ d ∈ f, pageOf d ∈ s.descPages
  descHeld : s.descPages ⊆ s.held
  page : ∀ i d, d ∈ q i → (s.desc d).page ∈ s.held ∧ (s.desc d).page ∉ s.descPages
  pageApart : ∀ i j d e, d ∈ q i → e ∈ q j → (s.desc d).page = (s.desc e).page → d = e
  bucket : ∀ i d, d ∈ q i → Bucket s live i d
  live : ∀ o ∈ live, ∃ d ∈ q (bucketOf o.2), (s.desc d).page = pageOf o.1

/-- **Nothing is left over**: but for the descriptor `x`, a bucket has a live object; and a page
is one of descriptors or that of a bucket. -/
structure Tight (s : Heap) (q : ℕ → List ℕ) (x : Option ℕ) : Prop where
  busy : ∀ i d, d ∈ q i → some d ≠ x → (s.desc d).refcnt ≠ 0
  pages : ∀ p ∈ s.held, p ∉ s.descPages → ∃ i d, d ∈ q i ∧ (s.desc d).page = p

variable {s s' : Heap} {q : ℕ → List ℕ} {f l : List ℕ} {d e p : ℕ} {x : Option ℕ}

theorem desc_takeObject (h : e ≠ d) : (takeObject d s).2.desc e = s.desc e :=
  Function.update_of_ne h _ _

theorem page_takeObject (d e : ℕ) (s : Heap) :
    ((takeObject d s).2.desc e).page = (s.desc e).page := by
  by_cases h : e = d
  · have hself : (takeObject d s).2.desc d = { s.desc d with
        freeptr := s.word (s.desc d).freeptr, refcnt := ((s.desc d).refcnt + 1) % 65536 } :=
      Function.update_self ..
    rw [h, hself]
  · rw [desc_takeObject h]

theorem desc_putObject (h : e ≠ d) : (putObject a d s).desc e = s.desc e :=
  Function.update_of_ne h _ _

theorem page_putObject (a d e : ℕ) (s : Heap) :
    ((putObject a d s).desc e).page = (s.desc e).page := by
  by_cases h : e = d
  · have hself : (putObject a d s).desc d = { s.desc d with
        freeptr := a, refcnt := ((s.desc d).refcnt + 65535) % 65536 } :=
      Function.update_self ..
    rw [h, hself]
  · rw [desc_putObject h]

namespace Ok

/-! ### Places -/

/-- A page that is held is one of main memory. -/
theorem page_eq (h : Ok s live q f) (hp : p ∈ s.held) :
    pageOf p = p ∧ 0x100000 ≤ p ∧ p < 0x1000000 := by
  obtain ⟨n, hn, rfl, -, -⟩ := h.held p hp
  change n < 3840 at hn
  unfold pageOf Mm.lowFrame
  omega

theorem desc_lt (h : Ok s live q f) (hd : pageOf d ∈ s.descPages) : d < 0x1000000 := by
  obtain ⟨-, -, hlt⟩ := h.page_eq (h.descHeld hd)
  unfold pageOf at hlt
  omega

/-- A list of descriptors is not longer than there are addresses. -/
theorem length_lt (h : Ok s live q f) (hl : l.Nodup) (hd : ∀ d ∈ l, pageOf d ∈ s.descPages) :
    l.length < rounds := by
  have hsub : l ⊆ List.range 0x1000000 := fun d hm => List.mem_range.mpr (h.desc_lt (hd d hm))
  have hle := (List.subperm_of_subset hl hsub).length_le
  rw [List.length_range] at hle
  exact Nat.lt_of_le_of_lt hle (by decide)

theorem chain_length (h : Ok s live q f) (i : ℕ) : (q i).length < rounds :=
  h.length_lt (h.nodup i) fun d hd => h.descs i d hd

/-- The page of a bucket, and its objects. -/
theorem size_pos (h : Ok s live q f) (hd : d ∈ q i) :
    16 ≤ bucketSize i ∧ bucketSize i ∣ 4096 := bucketSize_pos (h.small i d hd)

theorem pageOf_mem (h : Ok s live q f) (hd : d ∈ q i)
    (ha : a ∈ objects (s.desc d).page (bucketSize i)) : pageOf a = (s.desc d).page := by
  obtain ⟨hpos, hdvd⟩ := h.size_pos hd
  exact pageOf_object (by omega) hdvd (h.page_eq (h.page i d hd).1).1 ha

theorem object_ne_zero (h : Ok s live q f) (hd : d ∈ q i)
    (ha : a ∈ objects (s.desc d).page (bucketSize i)) : a ≠ 0 := by
  have hle := (object_le (h.size_pos hd).2 ha).1
  have hpage := (h.page_eq (h.page i d hd).1).2.1
  omega

/-- A bucket has at most 256 objects. -/
theorem inPage_length (h : Ok s live q f) (hd : d ∈ q i) :
    (inPage live (s.desc d).page).length ≤ 256 := by
  obtain ⟨l, -, hperm⟩ := (h.bucket i d hd).objects
  have hlen := hperm.length_eq
  rw [List.length_append, objects, List.length_range'] at hlen
  have hdiv := Nat.div_le_div_left (h.size_pos hd).1 (show 0 < 16 by decide) (a := 4096)
  omega

/-- **A live object is an object of its bucket.** -/
theorem live_object (h : Ok s live q f) (ho : o ∈ live) : ∃ d ∈ q (bucketOf o.2),
    (s.desc d).page = pageOf o.1 ∧ o.1 ∈ objects (s.desc d).page (bucketSize (bucketOf o.2)) := by
  obtain ⟨d, hd, hpage⟩ := h.live o ho
  obtain ⟨l, -, hperm⟩ := (h.bucket _ d hd).objects
  refine ⟨d, hd, hpage, hperm.subset (List.mem_append_right l ?_)⟩
  exact mem_inPage.mpr ⟨⟨o.2, ho⟩, hpage.symm⟩

/-- No free object is inside a live one. -/
theorem free_apart (h : Ok s live q f) (hd : d ∈ q i)
    (hperm : (l ++ inPage live (s.desc d).page).Perm (objects (s.desc d).page (bucketSize i)))
    (ha : a ∈ l) (ho : o ∈ live) : a < o.1 ∨ o.1 + o.2 ≤ a := by
  obtain ⟨e, he, hpage, hobj⟩ := h.live_object ho
  have hlen := le_bucketSize (h.small _ e he)
  have hobja := hperm.subset (List.mem_append_left _ ha)
  have hea := (object_le (h.size_pos he).2 hobj)
  have hpa := h.pageOf_mem hd hobja
  by_cases hsame : (s.desc d).page = (s.desc e).page
  · obtain rfl := h.pageApart _ _ _ _ hd he hsame
    obtain rfl := h.apart _ _ _ hd he
    -- the live object is another one of the same page
    have hne : a ≠ o.1 := by
      rintro rfl
      have hnodup := hperm.nodup_iff.mpr
        (objects_nodup (by have := (h.size_pos hd).1; omega))
      refine (List.nodup_append.mp hnodup).2.2 _ ha _ (mem_inPage.mpr ⟨⟨o.2, ho⟩, hpa⟩) rfl
    rcases objects_apart hobja hobj hne with hlt | hlt
    · have hpos := (h.size_pos hd).1
      omega
    · omega
  · have hpaged := (h.page_eq (h.page _ d hd).1).1
    have hpagee := (h.page_eq (h.page _ e he).1).1
    have hda := object_le (h.size_pos hd).2 hobja
    have hpos := (h.size_pos hd).1
    unfold pageOf at hpaged hpagee
    omega

/-- **What else happens in memory**, outside the pages held and inside live objects. -/
theorem congr (h : Ok s live q f)
    (hhigh : ∀ n < Mm.pagingPages, s'.memMap n = 0 → 4096 * (Mm.lowFrame + n) < s'.highMemory)
    (hheld : ∀ p ∈ s'.held, ∃ n < Mm.pagingPages, p = 4096 * (Mm.lowFrame + n) ∧
      s'.memMap n = 1 ∧ p < s'.highMemory)
    (hsub : s.held ⊆ s'.held) (hpages : s'.descPages = s.descPages) (hchain : s'.chain = s.chain)
    (hfree : s'.freeBucketDesc = s.freeBucketDesc)
    (hdesc : ∀ d, pageOf d ∈ s.held → s'.desc d = s.desc d)
    (hword : ∀ a, pageOf a ∈ s.held → (∀ o ∈ live, a < o.1 ∨ o.1 + o.2 ≤ a) →
      s'.word a = s.word a) : Ok s' live q f := by
  have hq : ∀ i d, d ∈ q i → s'.desc d = s.desc d := fun i d hd =>
    hdesc d (h.descHeld (h.descs i d hd))
  refine ⟨hhigh, hheld, fun i => ?_, ?_, h.small, h.nodup, h.freeNodup, h.apart, h.freeApart,
    fun i d hd => ?_, fun d hd => ?_, ?_, fun i d hd => ?_, fun i j d e hd he hp => ?_,
    fun i d hd => ?_, fun o ho => ?_⟩
  · rw [hchain]
    refine (h.chain i).congr fun d hd => ?_
    rw [Heap.next, hq i d hd]
    rfl
  · rw [hfree]
    refine h.free.congr fun d hd => ?_
    rw [Heap.next, hdesc d (h.descHeld (h.freeDescs d hd))]
    rfl
  · rw [hpages]
    exact h.descs i d hd
  · rw [hpages]
    exact h.freeDescs d hd
  · rw [hpages]
    exact h.descHeld.trans hsub
  · rw [hpages, hq i d hd]
    exact ⟨hsub (h.page i d hd).1, (h.page i d hd).2⟩
  · rw [hq i d hd, hq j e he] at hp
    exact h.pageApart i j d e hd he hp
  · obtain ⟨hsize, ⟨l, hl, hperm⟩, hcount⟩ := h.bucket i d hd
    refine ⟨?_, ⟨l, ?_, ?_⟩, ?_⟩
    · rw [hq i d hd]
      exact hsize
    · rw [hq i d hd]
      refine hl.congr fun a ha => congrArg ptr (hword a ?_ fun o ho => ?_)
      · rw [h.pageOf_mem hd (hperm.subset (List.mem_append_left _ ha))]
        exact (h.page i d hd).1
      · exact h.free_apart hd hperm ha ho
    · rw [hq i d hd]
      exact hperm
    · rw [hq i d hd]
      exact hcount
  · obtain ⟨d, hd, hpage⟩ := h.live o ho
    refine ⟨d, hd, ?_⟩
    rw [hq _ d hd]
    exact hpage

/-! ### Objects are taken and put back -/

/-- **One bucket changes**, in its objects only. -/
theorem object (h : Ok s live q f) (hd : d ∈ q i)
    (hs : s' = { s with word := s'.word, desc := s'.desc })
    (hdesc : ∀ e, e ≠ d → s'.desc e = s.desc e)
    (hnext : (s'.desc d).next = (s.desc d).next) (hpage : (s'.desc d).page = (s.desc d).page)
    (hword : ∀ a, pageOf a ≠ (s.desc d).page → s'.word a = s.word a)
    (hin : ∀ p, p ≠ (s.desc d).page → (inPage live' p).Perm (inPage live p))
    (hbucket : Bucket s' live' i d)
    (hlive : ∀ o ∈ live', o ∈ live ∨ bucketOf o.2 = i ∧ pageOf o.1 = (s.desc d).page) :
    Ok s' live' q f := by
  have hnexts : s'.next = s.next := by
    ext1 e
    unfold Heap.next
    by_cases he : e = d
    · rw [he, hnext]
    · rw [hdesc e he]
  have hpages : ∀ e, (s'.desc e).page = (s.desc e).page := by
    intro e
    by_cases he : e = d
    · rw [he, hpage]
    · rw [hdesc e he]
  have hheap : s'.memMap = s.memMap ∧ s'.highMemory = s.highMemory ∧ s'.chain = s.chain ∧
      s'.freeBucketDesc = s.freeBucketDesc ∧ s'.held = s.held ∧ s'.descPages = s.descPages := by
    rw [hs]
    exact ⟨rfl, rfl, rfl, rfl, rfl, rfl⟩
  obtain ⟨hmap, hhigh, hchain, hfree, hheld, hdescs⟩ := hheap
  refine ⟨?_, ?_, fun j => ?_, ?_, h.small, h.nodup, h.freeNodup, h.apart, h.freeApart, ?_, ?_, ?_,
    fun j e he => ?_, fun j k e g he hg hp => ?_, fun j e he => ?_, fun o ho => ?_⟩
  · rw [hmap, hhigh]
    exact h.high
  · rw [hmap, hhigh, hheld]
    exact h.held
  · rw [hnexts, hchain]
    exact h.chain j
  · rw [hnexts, hfree]
    exact h.free
  · rw [hdescs]
    exact h.descs
  · rw [hdescs]
    exact h.freeDescs
  · rw [hdescs, hheld]
    exact h.descHeld
  · rw [hpages, hheld, hdescs]
    exact h.page j e he
  · rw [hpages, hpages] at hp
    exact h.pageApart j k e g he hg hp
  · by_cases hed : e = d
    · obtain rfl := hed
      obtain rfl := h.apart _ _ _ hd he
      exact hbucket
    · obtain ⟨hsize, ⟨l, hl, hperm⟩, hcount⟩ := h.bucket j e he
      have hne : (s.desc e).page ≠ (s.desc d).page := fun hp =>
        hed (h.pageApart j i e d he hd hp)
      refine ⟨?_, ⟨l, ?_, ?_⟩, ?_⟩
      · rw [hdesc e hed]
        exact hsize
      · rw [hdesc e hed]
        refine hl.congr fun a ha => congrArg ptr (hword a ?_)
        rw [h.pageOf_mem he (hperm.subset (List.mem_append_left _ ha))]
        exact hne
      · rw [hdesc e hed]
        exact ((hin _ hne).append_left l).trans hperm
      · rw [hdesc e hed, (hin _ hne).length_eq]
        exact hcount
  · rcases hlive o ho with hold | ⟨hi, hp⟩
    · obtain ⟨e, he, hpe⟩ := h.live o hold
      exact ⟨e, he, (hpages e).trans hpe⟩
    · exact ⟨d, hi ▸ hd, (hpages d).trans hp.symm⟩

/-- **An object is taken.** -/
theorem takeObject (h : Ok s live q f) {len : ℕ} (hd : d ∈ q (bucketOf len))
    (hfree : (s.desc d).freeptr ≠ 0) :
    Ok (Malloc.takeObject d s).2 (((Malloc.takeObject d s).1, len) :: live) q f ∧
      ((Malloc.takeObject d s).2.desc d).refcnt ≠ 0 := by
  obtain ⟨hsize, ⟨l, hl, hperm⟩, hcount⟩ := h.bucket _ d hd
  have hlen := h.inPage_length hd
  unfold Malloc.takeObject
  dsimp only
  obtain ⟨a, ha⟩ : ∃ a, a = (s.desc d).freeptr := ⟨_, rfl⟩
  obtain ⟨t, ht⟩ : ∃ t, t = s.setDesc d fun b =>
    { b with freeptr := s.word a, refcnt := (b.refcnt + 1) % 65536 } := ⟨_, rfl⟩
  rw [← ha] at hl hfree ⊢
  rw [← ht]
  obtain ⟨l, rfl⟩ : ∃ l', l = a :: l' := by
    have hhead := hl.head_eq
    rw [ptr, if_neg hfree] at hhead
    cases l with
    | nil => cases hhead
    | cons b l => exact ⟨l, by rw [Option.some.inj hhead]⟩
  have hpage : pageOf a = (s.desc d).page :=
    h.pageOf_mem hd (hperm.subset (List.mem_append_left _ List.mem_cons_self))
  have hself : t.desc d = { s.desc d with
      freeptr := s.word a, refcnt := ((s.desc d).refcnt + 1) % 65536 } := by
    rw [ht]
    exact Function.update_self ..
  have hin : inPage ((a, len) :: live) (s.desc d).page = a :: inPage live (s.desc d).page := by
    rw [inPage_cons, if_pos hpage]
  have hrefcnt : (t.desc d).refcnt = (inPage live (s.desc d).page).length + 1 := by
    rw [hself]
    change ((s.desc d).refcnt + 1) % 65536 = _
    omega
  refine ⟨h.object hd ?_ (fun e he => ?_) ?_ ?_ (fun _ _ => ?_) (fun p hp => ?_)
    ⟨?_, ⟨l, ?_, ?_⟩, ?_⟩ fun o ho => ?_, ?_⟩
  · rw [ht]
    rfl
  · rw [ht]
    exact Function.update_of_ne he _ _
  · rw [hself]
  · rw [hself]
  · rw [ht]
    rfl
  · rw [inPage_cons, if_neg fun hap => hp (hap.symm.trans hpage)]
  · rw [hself]
    exact hsize
  · rw [hself]
    have hlink : t.link = s.link := by
      rw [ht]
      rfl
    rw [hlink]
    exact hl.2
  · rw [hself]
    change (l ++ inPage ((a, len) :: live) (s.desc d).page).Perm _
    rw [hin]
    exact List.perm_middle.trans hperm
  · rw [hrefcnt, hself]
    change _ = (inPage ((a, len) :: live) (s.desc d).page).length
    rw [hin, List.length_cons]
  · rcases List.mem_cons.mp ho with rfl | ho
    · exact Or.inr ⟨rfl, hpage⟩
    · exact Or.inl ho
  · omega

/-- **An object is put back.** -/
theorem putObject (h : Ok s live q f) (ho : o ∈ live) (hd : d ∈ q (bucketOf o.2))
    (hp : (s.desc d).page = pageOf o.1) : Ok (Malloc.putObject o.1 d s) (live.erase o) q f := by
  obtain ⟨hsize, ⟨l, hl, hperm⟩, hcount⟩ := h.bucket _ d hd
  have hlen := h.inPage_length hd
  have hrest : (inPage live (s.desc d).page).Perm
      (o.1 :: inPage (live.erase o) (s.desc d).page) := by
    refine (inPage_perm (List.perm_cons_erase ho)).trans ?_
    rw [inPage_cons, if_pos hp.symm]
  have hobj : o.1 ∈ inPage live (s.desc d).page := hrest.symm.subset List.mem_cons_self
  have hne : o.1 ≠ 0 := h.object_ne_zero hd (hperm.subset (List.mem_append_right l hobj))
  have hnotin : o.1 ∉ l := by
    intro hm
    have hnodup := hperm.nodup_iff.mpr (objects_nodup (by have := (h.size_pos hd).1; omega))
    exact (List.nodup_append.mp hnodup).2.2 _ hm _ hobj rfl
  obtain ⟨t, ht⟩ : ∃ t, t = Malloc.putObject o.1 d s := ⟨_, rfl⟩
  have hword : t.word = Function.update s.word o.1 (s.desc d).freeptr := by
    rw [ht]
    rfl
  have hself : t.desc d = { s.desc d with
      freeptr := o.1, refcnt := ((s.desc d).refcnt + 65535) % 65536 } := by
    rw [ht]
    exact Function.update_self ..
  rw [← ht]
  refine h.object hd ?_ (fun e he => ?_) ?_ ?_ (fun a ha => ?_) (fun p hpne => ?_)
    ⟨?_, ⟨o.1 :: l, ?_, ?_⟩, ?_⟩ fun o' ho' => Or.inl (List.mem_of_mem_erase ho')
  · rw [ht]
    rfl
  · rw [ht]
    exact Function.update_of_ne he _ _
  · rw [hself]
  · rw [hself]
  · rw [hword]
    refine Function.update_of_ne ?_ _ _
    rintro rfl
    exact ha hp.symm
  · have hperm' : (inPage live p).Perm _ := inPage_perm (List.perm_cons_erase ho)
    rw [inPage_cons, if_neg fun hop => hpne (hop.symm.trans hp.symm)] at hperm'
    exact hperm'.symm
  · rw [hself]
    exact hsize
  · rw [hself]
    have hlink : t.link = Function.update s.link o.1 (ptr (s.desc d).freeptr) := by
      ext1 a
      rw [Heap.link, hword, Function.update_apply, Function.update_apply]
      split
      · rfl
      · rfl
    have hptr : ptr o.1 = some o.1 := if_neg hne
    change Chain t.link (ptr o.1) _
    rw [hlink, hptr]
    exact hl.push hnotin
  · rw [hself]
    change (o.1 :: l ++ inPage (live.erase o) (s.desc d).page).Perm _
    rw [List.cons_append]
    exact (List.perm_middle.symm.trans (hrest.symm.append_left l)).trans hperm
  · rw [hself]
    change ((s.desc d).refcnt + 65535) % 65536 = (inPage (live.erase o) (s.desc d).page).length
    have hcons := hrest.length_eq
    rw [List.length_cons] at hcons
    omega

/-! ### A bucket goes back -/

/-- The chains without the descriptor. -/
theorem mem_without {l₁ l₂ : List ℕ} {j : ℕ} (h : Ok s live q f) (hq : q i = l₁ ++ d :: l₂) :
    e ∈ Function.update q i (l₁ ++ l₂) j ↔ e ∈ q j ∧ e ≠ d := by
  have hd : d ∈ q i := hq ▸ List.mem_append_right l₁ List.mem_cons_self
  have hnodup := h.nodup i
  rw [hq] at hnodup
  have hdl : d ∉ l₁ ++ l₂ := (List.nodup_middle.mp hnodup).notMem
  by_cases hj : j = i
  · obtain rfl := hj
    rw [Function.update_self, hq]
    constructor
    · intro he
      exact ⟨List.perm_middle.symm.subset (List.mem_cons_of_mem d he), ne_of_mem_of_not_mem he hdl⟩
    · rintro ⟨he, hne⟩
      exact (List.mem_cons.mp (List.perm_middle.subset he)).resolve_left hne
  · rw [Function.update_of_ne hj]
    refine ⟨fun he => ⟨he, ?_⟩, And.left⟩
    rintro rfl
    exact hj (h.apart _ _ _ he hd)

/-- What `prev` should be. -/
theorem prev_eq {l₁ l₂ : List ℕ} (h : Ok s live q f) (hq : q i = l₁ ++ d :: l₂) :
    l₁.getLast?.elim (s.chain i) s.next = some d := by
  have hchain := h.chain i
  rw [hq] at hchain
  rcases List.eq_nil_or_concat l₁ with rfl | ⟨l, b, rfl⟩
  · exact hchain.1
  · rw [List.concat_eq_append] at hchain ⊢
    rw [List.append_assoc, List.singleton_append] at hchain
    rw [List.getLast?_concat]
    exact hchain.next_eq

/-- The chain without the descriptor. -/
theorem unlinkDesc {l₁ l₂ : List ℕ} (h : Ok s live q f) (hq : q i = l₁ ++ d :: l₂) :
    ∃ t, Malloc.unlinkDesc i d s l₁.getLast? = .ok t ∧
      t = { s with chain := t.chain, desc := t.desc } ∧
      (∀ e, t.desc e = { s.desc e with next := t.next e }) ∧
      (∀ e, e ∉ l₁ → t.next e = s.next e) ∧
      (∀ j, j ≠ i → t.chain j = s.chain j) ∧ Chain t.next (t.chain i) (l₁ ++ l₂) := by
  have hchain := h.chain i
  have hnodup := h.nodup i
  have hprev := h.prev_eq hq
  rw [hq] at hchain hnodup
  rcases List.eq_nil_or_concat l₁ with rfl | ⟨l, b, rfl⟩
  · have hhead : ¬ s.chain i ≠ some d := fun hne => hne hprev
    refine ⟨s.setChain i (s.next d), if_neg hhead, rfl, fun e => rfl, fun e _ => rfl,
      fun j hj => Function.update_of_ne hj _ _, ?_⟩
    change Chain s.next (Function.update s.chain i (s.next d) i) l₂
    rw [Function.update_self]
    exact hchain.rest
  · rw [List.concat_eq_append] at hchain hnodup ⊢
    rw [List.append_assoc, List.singleton_append] at hchain hnodup
    obtain ⟨t, ht⟩ : ∃ t, t = s.setDesc b fun c => { c with next := s.next d } := ⟨_, rfl⟩
    have hdesc : ∀ e, t.desc e =
        if e = b then { s.desc b with next := s.next d } else s.desc e := by
      intro e
      rw [ht]
      exact Function.update_apply ..
    have hnext : t.next = Function.update s.next b (s.next d) := by
      ext1 e
      rw [Heap.next, hdesc, Function.update_apply]
      split
      · rfl
      · rfl
    refine ⟨t, ?_, ?_, fun e => ?_, fun e he => ?_, fun j _ => ?_, ?_⟩
    · rw [List.getLast?_concat, ht]
      rfl
    · rw [ht]
      rfl
    · rw [Heap.next, hdesc]
      split
      · next he => rw [he]
      · rfl
    · rw [hnext, Function.update_of_ne]
      rintro rfl
      exact he (List.mem_append_right l List.mem_cons_self)
    · rw [ht]
      rfl
    · rw [hnext, ht]
      rw [List.append_assoc, List.singleton_append]
      exact hchain.unlink hnodup

/-- **A bucket with no live object goes back**: its page is not held any more, and its descriptor
is free. -/
theorem dropBucket {l₁ l₂ : List ℕ} (h : Ok s live q f) (hq : q i = l₁ ++ d :: l₂)
    (hcount : (s.desc d).refcnt = 0) :
    ∃ s', Malloc.dropBucket i l₁.getLast? d s = .ok s' ∧
      Ok s' live (Function.update q i (l₁ ++ l₂)) (d :: f) ∧
      s'.held = s.held.erase (s.desc d).page ∧ s'.descPages = s.descPages ∧
      ∀ e, s'.desc e = { s.desc e with next := s'.next e } := by
  have hd : d ∈ q i := hq ▸ List.mem_append_right l₁ List.mem_cons_self
  have hnodup := h.nodup i
  rw [hq] at hnodup
  have hdl : d ∉ l₁ ++ l₂ := (List.nodup_middle.mp hnodup).notMem
  have hdf : d ∉ f := h.freeApart i d hd
  obtain ⟨t, hunlink, ht, hdesc, hnext, hother, hself⟩ := h.unlinkDesc hq
  obtain ⟨n, hn, hpn, hmap, hhigh⟩ := h.held _ (h.page i d hd).1
  have hnr : Mm.mapNr ((s.desc d).page / 4096) = n := by
    rw [hpn, Nat.mul_div_cancel_left _ (by decide), Mm.mapNr, Nat.add_sub_cancel_left]
  have hpage : (t.desc d).page = (s.desc d).page := by rw [hdesc]
  obtain ⟨u, hu⟩ : ∃ u : Heap, u = { t with
    memMap := Function.update s.memMap n 0, held := s.held.erase (s.desc d).page } := ⟨_, rfl⟩
  have hfreed : freePage (t.desc d).page t = .ok u := by
    have hheap : t.memMap = s.memMap ∧ t.highMemory = s.highMemory ∧ t.held = s.held := by
      rw [ht]
      exact ⟨rfl, rfl, rfl⟩
    have hne : s.memMap n ≠ 0 := by omega
    unfold freePage
    rw [hpage, hheap.1, hheap.2.1, hheap.2.2, hnr, if_neg (by omega), if_neg (by omega),
      if_pos hne, hmap, hu, hheap.2.1]
  -- the descriptor is put in front of the free ones
  obtain ⟨v, hv⟩ : ∃ v : Heap, v = { u.setDesc d fun b => { b with next := u.freeBucketDesc } with
    freeBucketDesc := some d } := ⟨_, rfl⟩
  have hdrop : Malloc.dropBucket i l₁.getLast? d s = .ok v := by
    unfold Malloc.dropBucket checkPrev
    rw [if_pos (h.prev_eq hq)]
    dsimp only
    rw [hunlink]
    dsimp only
    rw [hfreed, hv]
  have hvheap : v.memMap = Function.update s.memMap n 0 ∧ v.highMemory = s.highMemory ∧
      v.held = s.held.erase (s.desc d).page ∧ v.descPages = s.descPages ∧ v.chain = t.chain ∧
      v.word = s.word ∧ v.freeBucketDesc = some d := by
    rw [hv, hu, ht]
    exact ⟨rfl, rfl, rfl, rfl, rfl, rfl, rfl⟩
  obtain ⟨hvmap, hvhigh, hvheld, hvpages, hvchain, hvword, hvfree⟩ := hvheap
  have hvd : ∀ e, v.desc e =
      if e = d then { t.desc d with next := t.freeBucketDesc } else t.desc e := by
    intro e
    rw [hv, hu]
    exact Function.update_apply ..
  have hvnext : v.next = Function.update t.next d s.freeBucketDesc := by
    have hfree : t.freeBucketDesc = s.freeBucketDesc := by
      rw [ht]
    ext1 e
    rw [Heap.next, hvd, Function.update_apply, ← hfree]
    split
    · rfl
    · rfl
  have hvdesc : ∀ e, v.desc e = { s.desc e with next := v.next e } := by
    intro e
    have he : v.desc e = { t.desc e with next := v.next e } := by
      rw [Heap.next, hvd]
      split
      · next hed => rw [hed]
      · rfl
    rw [he, hdesc]
  have hsub : ∀ j e, e ∈ Function.update q i (l₁ ++ l₂) j → e ∈ q j ∧ e ≠ d := fun j e he =>
    (h.mem_without hq).mp he
  have hvp : ∀ e, (v.desc e).page = (s.desc e).page := fun e => by rw [hvdesc]
  refine ⟨v, hdrop, ?_, hvheld, hvpages, hvdesc⟩
  refine ⟨fun m hm hzero => ?_, fun p hp => ?_, fun j => ?_, ?_, fun j e he => ?_, fun j => ?_, ?_,
    fun j k e he hk => ?_, fun j e he => ?_, fun j e he => ?_, fun e he => ?_, ?_, fun j e he => ?_,
    fun j k e g he hg hp => ?_, fun j e he => ?_, fun o ho => ?_⟩
  · rw [hvhigh]
    rw [hvmap, Function.update_apply] at hzero
    split at hzero
    · next hmn =>
      rw [hmn, ← hpn]
      exact hhigh
    · exact h.high m hm hzero
  · rw [hvheld] at hp
    obtain ⟨hpne, hps⟩ := Finset.mem_erase.mp hp
    obtain ⟨m, hm, hpm, hmapm, hhighm⟩ := h.held p hps
    refine ⟨m, hm, hpm, ?_, hvhigh ▸ hhighm⟩
    rw [hvmap, Function.update_of_ne _ _ _, hmapm]
    rintro rfl
    exact hpne (hpm.trans hpn.symm)
  · rw [hvchain]
    have hskip : ∀ l : List ℕ, d ∉ l → Chain t.next (t.chain j) l → Chain v.next (t.chain j) l := by
      intro l hdl hl
      rw [hvnext]
      exact hl.congr fun e he => Function.update_of_ne (ne_of_mem_of_not_mem he hdl) _ _
    by_cases hj : j = i
    · obtain rfl := hj
      rw [Function.update_self]
      exact hskip _ hdl hself
    · rw [Function.update_of_ne hj]
      refine hskip _ (fun hm => hj (h.apart _ _ _ hm hd)) ?_
      rw [hother j hj]
      refine (h.chain j).congr fun e he => hnext e fun hl => hj (h.apart j i e he ?_)
      rw [hq]
      exact List.mem_append_left _ hl
  · rw [hvfree, hvnext]
    refine Chain.push (h.free.congr fun e he => hnext e fun hl => ?_) hdf
    refine h.freeApart i e ?_ he
    rw [hq]
    exact List.mem_append_left _ hl
  · exact h.small j e (hsub j e he).1
  · by_cases hj : j = i
    · obtain rfl := hj
      rw [Function.update_self]
      exact (List.nodup_cons.mp (List.nodup_middle.mp hnodup)).2
    · rw [Function.update_of_ne hj]
      exact h.nodup j
  · exact List.nodup_cons.mpr ⟨hdf, h.freeNodup⟩
  · exact h.apart j k e (hsub j e he).1 (hsub k e hk).1
  · rw [List.mem_cons, not_or]
    exact ⟨(hsub j e he).2, h.freeApart j e (hsub j e he).1⟩
  · rw [hvpages]
    exact h.descs j e (hsub j e he).1
  · rw [hvpages]
    rcases List.mem_cons.mp he with rfl | he
    · exact h.descs i _ hd
    · exact h.freeDescs e he
  · rw [hvpages, hvheld]
    intro p hp
    refine Finset.mem_erase.mpr ⟨?_, h.descHeld hp⟩
    rintro rfl
    exact (h.page i d hd).2 hp
  · rw [hvp, hvheld, hvpages, Finset.mem_erase]
    obtain ⟨he, hne⟩ := hsub j e he
    exact ⟨⟨fun hp => hne (h.pageApart j i e d he hd hp), (h.page j e he).1⟩, (h.page j e he).2⟩
  · rw [hvp, hvp] at hp
    exact h.pageApart j k e g (hsub j e he).1 (hsub k g hg).1 hp
  · obtain ⟨hsize, ⟨l, hl, hperm⟩, hcnt⟩ := h.bucket j e (hsub j e he).1
    have hlink : v.link = s.link := by
      ext1 a
      rw [Heap.link, hvword]
      rfl
    refine ⟨?_, ⟨l, ?_, ?_⟩, ?_⟩
    · rw [hvdesc]
      exact hsize
    · rw [hvdesc, hlink]
      exact hl
    · rw [hvp]
      exact hperm
    · rw [hvdesc]
      exact hcnt
  · obtain ⟨e, he, hpe⟩ := h.live o ho
    -- the bucket that goes back has no live object
    have hed : e ≠ d := by
      rintro rfl
      have hobj : o.1 ∈ inPage live (s.desc e).page := mem_inPage.mpr ⟨⟨o.2, ho⟩, hpe.symm⟩
      rw [(h.bucket i e hd).refcnt] at hcount
      rw [List.eq_nil_of_length_eq_zero hcount] at hobj
      cases hobj
    exact ⟨e, (h.mem_without hq).mpr ⟨he, hed⟩, (hvp e).trans hpe⟩

end Ok

/-! ### Pages are taken -/

/-- The descriptors are linked, and nothing else is changed. -/
theorem linkDescs_spec (n b : ℕ) (s : Heap) : ∃ t, linkDescs n b s = (b + 16 * n, t) ∧
    t = { s with desc := t.desc } ∧ (∀ k < n, t.next (b + 16 * k) = some (b + 16 * (k + 1))) ∧
    ∀ d, (∀ k < n, d ≠ b + 16 * k) → t.desc d = s.desc d := by
  induction n generalizing b s with
  | zero => exact ⟨s, rfl, rfl, fun k hk => absurd hk (Nat.not_lt_zero k), fun _ _ => rfl⟩
  | succ n ih =>
    obtain ⟨t, hlink, ht, hnext, hdesc⟩ :=
      ih (b + 16) (s.setDesc b fun c => { c with next := some (b + 16) })
    refine ⟨t, ?_, ?_, fun k hk => ?_, fun d hd => ?_⟩
    · rw [linkDescs, hlink, show b + 16 + 16 * n = b + 16 * (n + 1) by omega]
    · rw [ht]
      rfl
    · cases k with
      | zero =>
        have hself : t.desc (b + 16 * 0) = { s.desc b with next := some (b + 16) } := by
          rw [hdesc _ fun k _ => by omega]
          exact Function.update_self ..
        rw [Heap.next, hself]
      | succ k =>
        rw [show b + 16 * (k + 1) = b + 16 + 16 * k by omega, hnext k (by omega)]
        exact congrArg some (by omega)
    · have hdb : d ≠ b := hd 0 (Nat.succ_pos n)
      rw [hdesc d fun k hk => by have := hd (k + 1) (by omega); omega]
      exact Function.update_of_ne hdb _ _

/-- The objects are linked, and nothing else is changed. -/
theorem threadObjects_spec {size : ℕ} (hpos : 0 < size) (n cp : ℕ) (s : Heap) :
    ∃ t, threadObjects size n cp s = t ∧ t = { s with word := t.word } ∧
      (∀ k < n, t.word (cp + size * k) = cp + size * (k + 1)) ∧ t.word (cp + size * n) = 0 ∧
      ∀ a, (∀ k < n + 1, a ≠ cp + size * k) → t.word a = s.word a := by
  induction n generalizing cp s with
  | zero =>
    refine ⟨_, rfl, rfl, fun k hk => absurd hk (Nat.not_lt_zero k), ?_, fun a ha => ?_⟩
    · exact Function.update_self ..
    · have hne : a ≠ cp := ha 0 (Nat.succ_pos 0)
      exact Function.update_of_ne hne _ _
  | succ n ih =>
    obtain ⟨t, hthread, ht, hword, hlast, hoff⟩ := ih (cp + size) (s.setWord cp (cp + size))
    have hshift : ∀ k, cp + size + size * k = cp + size * (k + 1) := fun k => by
      rw [Nat.mul_succ]
      omega
    refine ⟨t, hthread, ?_, fun k hk => ?_, ?_, fun a ha => ?_⟩
    · rw [ht]
      rfl
    · cases k with
      | zero =>
        rw [Nat.mul_zero, Nat.add_zero, Nat.zero_add, Nat.mul_one,
          hoff cp fun k _ => by omega]
        exact Function.update_self ..
      | succ k =>
        rw [← hshift, hword k (by omega), hshift]
    · rw [← hshift]
      exact hlast
    · have hne : a ≠ cp := ha 0 (Nat.succ_pos _)
      rw [hoff a fun k hk => ?_]
      · exact Function.update_of_ne hne _ _
      · rw [hshift]
        exact ha (k + 1) (by omega)

namespace Ok

/-- **A page is taken**, which was not held before. -/
theorem taken (h : Ok s live q f) (hg : getFreePage s = some (p, s')) :
    Ok s' live q f ∧ p ∉ s.held ∧ pageOf p = p ∧ s'.held = insert p s.held ∧
      s' = { s with memMap := s'.memMap, word := s'.word, desc := s'.desc, held := s'.held } ∧
      ∀ d, pageOf d ≠ p → s'.desc d = s.desc d := by
  obtain ⟨n, hn, heq⟩ := Option.map_eq_some_iff.mp hg
  obtain ⟨hlt, hzero⟩ := Mm.scasb_eq_some hn
  obtain ⟨rfl, rfl⟩ := Prod.mk.inj heq
  have hnew : 4096 * (Mm.lowFrame + n) ∉ s.held := by
    intro hm
    obtain ⟨m, -, hmn, hone, -⟩ := h.held _ hm
    obtain rfl : n = m := by omega
    omega
  have hdesc : ∀ d, pageOf d ≠ 4096 * (Mm.lowFrame + n) →
      (if pageOf d = 4096 * (Mm.lowFrame + n) then ⟨0, none, 0, 0, 0⟩ else s.desc d) = s.desc d :=
    fun d hd => if_neg hd
  have hpage : pageOf (4096 * (Mm.lowFrame + n)) = 4096 * (Mm.lowFrame + n) := by
    unfold pageOf
    omega
  refine ⟨?_, hnew, hpage, rfl, rfl, hdesc⟩
  refine h.congr (fun m hm hz => ?_) (fun p hp => ?_) (Finset.subset_insert _ _) rfl rfl rfl
    (fun d hd => ?_) fun a ha _ => ?_
  · change Function.update s.memMap n 1 m = 0 at hz
    rw [Function.update_apply] at hz
    split at hz
    · cases hz
    · exact h.high m hm hz
  · rcases Finset.mem_insert.mp hp with rfl | hp
    · exact ⟨n, hlt, rfl, Function.update_self .., h.high n hlt hzero⟩
    · obtain ⟨m, hm, hpm, hone, hhigh⟩ := h.held p hp
      refine ⟨m, hm, hpm, ?_, hhigh⟩
      have hne : m ≠ n := by
        rintro rfl
        omega
      exact (Function.update_of_ne hne _ _).trans hone
  · exact hdesc d fun hdp => hnew (hdp ▸ hd)
  · exact if_neg fun hap : pageOf a = 4096 * (Mm.lowFrame + n) => hnew (hap ▸ ha)

/-- The free descriptors, or what is in one of them, change. -/
theorem freeChanged {f' : List ℕ} (h : Ok s live q f)
    (hs : s' = { s with
      desc := s'.desc, freeBucketDesc := s'.freeBucketDesc, descPages := s'.descPages })
    (hsub : s.descPages ⊆ s'.descPages) (hheld : s'.descPages ⊆ s.held)
    (hpage : ∀ i d, d ∈ q i → (s.desc d).page ∉ s'.descPages)
    (hdesc : ∀ i d, d ∈ q i → s'.desc d = s.desc d)
    (hfree : Chain s'.next s'.freeBucketDesc f') (hnodup : f'.Nodup)
    (hapart : ∀ i d, d ∈ q i → d ∉ f') (hpages : ∀ d ∈ f', pageOf d ∈ s'.descPages) :
    Ok s' live q f' := by
  have hheap : s'.memMap = s.memMap ∧ s'.highMemory = s.highMemory ∧ s'.word = s.word ∧
      s'.chain = s.chain ∧ s'.held = s.held := by
    rw [hs]
    exact ⟨rfl, rfl, rfl, rfl, rfl⟩
  obtain ⟨hmap, hhigh, hword, hchain, hsheld⟩ := hheap
  refine ⟨?_, ?_, fun i => ?_, hfree, h.small, h.nodup, hnodup, h.apart, hapart,
    fun i d hd => hsub (h.descs i d hd), hpages, ?_, fun i d hd => ?_,
    fun i j d e hd he hp => ?_, fun i d hd => ?_, fun o ho => ?_⟩
  · rw [hmap, hhigh]
    exact h.high
  · rw [hsheld, hmap, hhigh]
    exact h.held
  · rw [hchain]
    refine (h.chain i).congr fun d hd => ?_
    rw [Heap.next, hdesc i d hd]
    rfl
  · rw [hsheld]
    exact hheld
  · rw [hsheld, hdesc i d hd]
    exact ⟨(h.page i d hd).1, hpage i d hd⟩
  · rw [hdesc i d hd, hdesc j e he] at hp
    exact h.pageApart i j d e hd he hp
  · obtain ⟨hsize, ⟨l, hl, hperm⟩, hcount⟩ := h.bucket i d hd
    have hlink : s'.link = s.link := by
      ext1 a
      rw [Heap.link, hword]
      rfl
    refine ⟨?_, ⟨l, ?_, ?_⟩, ?_⟩
    · rw [hdesc i d hd]
      exact hsize
    · rw [hdesc i d hd, hlink]
      exact hl
    · rw [hdesc i d hd]
      exact hperm
    · rw [hdesc i d hd]
      exact hcount
  · obtain ⟨d, hd, hp⟩ := h.live o ho
    refine ⟨d, hd, ?_⟩
    rw [hdesc _ d hd]
    exact hp

/-- **A page is cut into descriptors.** -/
theorem initBucketDesc (h : Ok s live q []) :
    Malloc.initBucketDesc s = .error (.panic "Out of memory in init_bucket_desc()") ∨
    ∃ p t d f, Malloc.initBucketDesc s = .ok t ∧ Ok t live q (d :: f) ∧
      (∀ i d, d ∈ q i → t.desc d = s.desc d) ∧ t.held = insert p s.held ∧
      t.descPages = insert p s.descPages := by
  rcases hg : getFreePage s with _ | ⟨p, u⟩
  · left
    unfold Malloc.initBucketDesc
    rw [hg]
  right
  obtain ⟨hu, hnew, hpage, hheld, hequ, hdescu⟩ := h.taken hg
  obtain ⟨v, hlink, hv, hnext, hdescv⟩ := linkDescs_spec 255 p u
  obtain ⟨t, ht⟩ : ∃ t : Heap, t = { v.setDesc (p + 16 * 255) fun b =>
    { b with next := v.freeBucketDesc } with
    freeBucketDesc := some p, descPages := insert p v.descPages } := ⟨_, rfl⟩
  have hinit : Malloc.initBucketDesc s = .ok t := by
    unfold Malloc.initBucketDesc
    rw [hg]
    dsimp only
    rw [hlink, ht]
    rfl
  have hfree : v.freeBucketDesc = none := by
    rw [hv]
    exact hu.free
  have hnextt : t.next = Function.update v.next (p + 16 * 255) none := by
    have hdesct : ∀ d, t.desc d = if d = p + 16 * 255 then
        { v.desc (p + 16 * 255) with next := v.freeBucketDesc } else v.desc d := by
      intro d
      rw [ht]
      exact Function.update_apply ..
    ext1 d
    rw [Heap.next, hdesct, Function.update_apply, hfree]
    split
    · rfl
    · rfl
  have hchain : Chain t.next (some p) (List.range' p 256 16) := by
    rw [hnextt]
    refine Chain.of_range' (fun k hk => ?_) (Function.update_self ..)
    rw [Function.update_of_ne (by omega)]
    exact hnext k hk
  have hpages : ∀ d ∈ List.range' p 256 16, pageOf d = p := by
    intro d hd
    obtain ⟨k, hk, rfl⟩ := List.mem_range'.mp hd
    unfold pageOf at hpage ⊢
    omega
  -- the descriptors in use are in other pages
  have hother : ∀ i d, d ∈ q i → pageOf d ≠ p := fun i d hd hp =>
    hnew (hp ▸ h.descHeld (h.descs i d hd))
  have hkeep : ∀ i d, d ∈ q i → t.desc d = u.desc d := by
    intro i d hd
    have hne : ∀ k < 256, d ≠ p + 16 * k := by
      intro k hk hdk
      refine hother i d hd ?_
      unfold pageOf at hpage ⊢
      omega
    rw [ht]
    refine (Function.update_of_ne (hne 255 (by decide)) _ _).trans (hdescv d fun k hk => ?_)
    exact hne k (by omega)
  have hpagest : t.descPages = insert p s.descPages := by
    rw [ht, hv, hequ]
  refine ⟨p, t, p, List.range' (p + 16) 255 16, hinit, ?_, fun i d hd => ?_, ?_, hpagest⟩
  · refine hu.freeChanged ?_ ?_ ?_ (fun i d hd => ?_) hkeep ?_
      (List.nodup_range' 16 (by decide) : (List.range' p 256 16).Nodup)
      (fun i d hd hm => hother i d hd (hpages d hm))
      fun d hd => ?_
    · rw [ht, hv]
      rfl
    · rw [hpagest, hequ]
      exact Finset.subset_insert _ _
    · rw [hpagest, hheld]
      exact Finset.insert_subset_insert p h.descHeld
    · rw [hpagest, Finset.mem_insert, not_or, hdescu d (hother i d hd)]
      refine ⟨?_, (h.page i d hd).2⟩
      rintro rfl
      exact hnew (h.page i d hd).1
    · have hfirst : t.freeBucketDesc = some p := by rw [ht]
      rw [hfirst]
      exact hchain
    · rw [hpagest, hpages d hd]
      exact Finset.mem_insert_self _ _
  · rw [hkeep i d hd, hdescu d (hother i d hd)]
  · rw [← hheld, ht, hv]
    rfl

/-- **A bucket is linked in**, of a page all of whose objects are free. -/
theorem addBucket (h : Ok s live q f) (hi : i < 9) (hd : pageOf d ∈ s.descPages)
    (hdq : ∀ j, d ∉ q j) (hdf : d ∉ f) (hp : p ∈ s.held) (hpd : p ∉ s.descPages)
    (hfresh : ∀ j e, e ∈ q j → (s.desc e).page ≠ p)
    (hs : s' = { s with
      word := s'.word, desc := s'.desc, chain := Function.update s.chain i (some d) })
    (hdesc : ∀ e, e ≠ d → s'.desc e = s.desc e)
    (hself : s'.desc d = ⟨p, s.chain i, p, 0, bucketSize i⟩)
    (hword : ∀ a, pageOf a ≠ p → s'.word a = s.word a)
    (hobj : Chain s'.link (some p) (objects p (bucketSize i))) :
    Ok s' live (Function.update q i (d :: q i)) f := by
  have hheap : s'.memMap = s.memMap ∧ s'.highMemory = s.highMemory ∧ s'.held = s.held ∧
      s'.chain = Function.update s.chain i (some d) ∧ s'.freeBucketDesc = s.freeBucketDesc ∧
      s'.descPages = s.descPages := by
    rw [hs]
    exact ⟨rfl, rfl, rfl, rfl, rfl, rfl⟩
  obtain ⟨hmap, hhigh, hheld, hchain, hfree, hpages⟩ := hheap
  have hcases : ∀ j e, e ∈ Function.update q i (d :: q i) j →
      (j = i ∧ e = d) ∨ (e ∈ q j ∧ e ≠ d) := by
    intro j e he
    by_cases hj : j = i
    · obtain rfl := hj
      rw [Function.update_self] at he
      rcases List.mem_cons.mp he with rfl | he
      · exact Or.inl ⟨rfl, rfl⟩
      · exact Or.inr ⟨he, ne_of_mem_of_not_mem he (hdq j)⟩
    · rw [Function.update_of_ne hj] at he
      exact Or.inr ⟨he, ne_of_mem_of_not_mem he (hdq j)⟩
  have hold : ∀ j e, e ∈ q j → s'.desc e = s.desc e := fun j e he =>
    hdesc e (ne_of_mem_of_not_mem he (hdq j))
  have holdnext : ∀ j e, e ∈ q j → s'.next e = s.next e := fun j e he =>
    congrArg BucketDesc.next (hold j e he)
  have hpage : (s'.desc d).page = p := by rw [hself]
  -- no live object is in the new page
  have hlive : inPage live p = [] := by
    refine List.eq_nil_iff_forall_not_mem.mpr fun a ha => ?_
    obtain ⟨⟨len, hm⟩, hap⟩ := mem_inPage.mp ha
    obtain ⟨e, he, hpe⟩ := h.live _ hm
    exact hfresh _ e he (hpe.trans hap)
  refine ⟨?_, ?_, fun j => ?_, ?_, fun j e he => ?_, fun j => ?_, h.freeNodup,
    fun j k e he hk => ?_, fun j e he => ?_, fun j e he => ?_, ?_, ?_, fun j e he => ?_,
    fun j k e g he hg hpe => ?_, fun j e he => ?_, fun o ho => ?_⟩
  · rw [hmap, hhigh]
    exact h.high
  · rw [hmap, hhigh, hheld]
    exact h.held
  · rw [hchain]
    by_cases hj : j = i
    · obtain rfl := hj
      rw [Function.update_self, Function.update_self]
      refine ⟨rfl, ?_⟩
      rw [Heap.next, hself]
      exact (h.chain j).congr (holdnext j)
    · rw [Function.update_of_ne hj, Function.update_of_ne hj]
      exact (h.chain j).congr (holdnext j)
  · rw [hfree]
    refine h.free.congr fun e he => ?_
    rw [Heap.next, hdesc e (ne_of_mem_of_not_mem he hdf)]
    rfl
  · rcases hcases j e he with ⟨rfl, -⟩ | ⟨he, -⟩
    · exact hi
    · exact h.small j e he
  · by_cases hj : j = i
    · obtain rfl := hj
      rw [Function.update_self]
      exact List.nodup_cons.mpr ⟨hdq j, h.nodup j⟩
    · rw [Function.update_of_ne hj]
      exact h.nodup j
  · rcases hcases j e he with ⟨rfl, rfl⟩ | ⟨he, hne⟩
    · rcases hcases k _ hk with ⟨rfl, -⟩ | ⟨hk, -⟩
      · rfl
      · exact absurd hk (hdq k)
    · rcases hcases k e hk with ⟨-, hed⟩ | ⟨hk, -⟩
      · exact absurd hed hne
      · exact h.apart j k e he hk
  · rcases hcases j e he with ⟨-, rfl⟩ | ⟨he, -⟩
    · exact hdf
    · exact h.freeApart j e he
  · rw [hpages]
    rcases hcases j e he with ⟨-, rfl⟩ | ⟨he, -⟩
    · exact hd
    · exact h.descs j e he
  · rw [hpages]
    exact h.freeDescs
  · rw [hpages, hheld]
    exact h.descHeld
  · rw [hpages, hheld]
    rcases hcases j e he with ⟨-, rfl⟩ | ⟨he, -⟩
    · rw [hpage]
      exact ⟨hp, hpd⟩
    · rw [hold j e he]
      exact h.page j e he
  · rcases hcases j e he with ⟨-, hed⟩ | ⟨hej, -⟩
    · rcases hcases k g hg with ⟨-, hgd⟩ | ⟨hgk, -⟩
      · exact hed.trans hgd.symm
      · rw [hed, hpage, hold k g hgk] at hpe
        exact absurd hpe.symm (hfresh k g hgk)
    · rcases hcases k g hg with ⟨-, hgd⟩ | ⟨hgk, -⟩
      · rw [hgd, hpage, hold j e hej] at hpe
        exact absurd hpe (hfresh j e hej)
      · rw [hold j e hej, hold k g hgk] at hpe
        exact h.pageApart j k e g hej hgk hpe
  · rcases hcases j e he with ⟨rfl, rfl⟩ | ⟨he, -⟩
    · have hne : p ≠ 0 := by
        have := (h.page_eq hp).2.1
        omega
      refine ⟨?_, ⟨objects p (bucketSize j), ?_, ?_⟩, ?_⟩
      · rw [hself]
      · rw [hself]
        change Chain s'.link (ptr p) _
        rw [ptr, if_neg hne]
        exact hobj
      · rw [hpage, hlive, List.append_nil]
      · rw [hpage, hlive, hself]
        rfl
    · obtain ⟨hsize, ⟨l, hl, hperm⟩, hcount⟩ := h.bucket j e he
      refine ⟨?_, ⟨l, ?_, ?_⟩, ?_⟩
      · rw [hold j e he]
        exact hsize
      · rw [hold j e he]
        refine hl.congr fun a ha => congrArg ptr (hword a ?_)
        rw [h.pageOf_mem he (hperm.subset (List.mem_append_left _ ha))]
        exact hfresh j e he
      · rw [hold j e he]
        exact hperm
      · rw [hold j e he]
        exact hcount
  · obtain ⟨e, he, hpe⟩ := h.live o ho
    refine ⟨e, ?_, ?_⟩
    · by_cases hj : bucketOf o.2 = i
      · rw [hj] at he ⊢
        rw [Function.update_self]
        exact List.mem_cons_of_mem d he
      · rw [Function.update_of_ne hj]
        exact he
    · rw [hold _ e he]
      exact hpe

/-- **A page is cut into objects.** -/
theorem newBucket (h : Ok s live q (d :: f)) (hi : i < 9) :
    Malloc.newBucket i s = .error (.panic "Out of memory in kernel malloc()") ∨
    ∃ p t, Malloc.newBucket i s = .ok (d, t) ∧ Ok t live (Function.update q i (d :: q i)) f ∧
      t.desc d = ⟨p, s.chain i, p, 0, bucketSize i⟩ ∧ p ≠ 0 ∧
      (∀ j e, e ∈ q j → t.desc e = s.desc e) ∧ t.held = insert p s.held ∧
      t.descPages = s.descPages := by
  have hfirst : s.freeBucketDesc = some d := h.free.1
  obtain ⟨hdf, hfnodup⟩ := List.nodup_cons.mp h.freeNodup
  have hdq : ∀ j, d ∉ q j := fun j hm => h.freeApart j d hm List.mem_cons_self
  obtain ⟨r, hr⟩ : ∃ r : Heap, r = { s with freeBucketDesc := s.next d }.setDesc d fun b =>
    { b with refcnt := 0, bucketSize := bucketSize i } := ⟨_, rfl⟩
  have hrdesc : ∀ e, e ≠ d → r.desc e = s.desc e := by
    intro e he
    rw [hr]
    exact Function.update_of_ne he _ _
  have hrq : ∀ j e, e ∈ q j → r.desc e = s.desc e := fun j e he =>
    hrdesc e (ne_of_mem_of_not_mem he (hdq j))
  have hrself : r.desc d = { s.desc d with refcnt := 0, bucketSize := bucketSize i } := by
    rw [hr]
    exact Function.update_self ..
  have hrok : Ok r live q f := by
    refine h.freeChanged ?_ ?_ ?_ (fun j e he => ?_) hrq ?_ hfnodup
      (fun j e he hm => h.freeApart j e he (List.mem_cons_of_mem d hm)) fun e he => ?_
    · rw [hr]
      rfl
    · rw [hr]
      exact Finset.Subset.refl _
    · rw [hr]
      exact h.descHeld
    · rw [hr]
      exact (h.page j e he).2
    · have hrfree : r.freeBucketDesc = s.next d := by
        rw [hr]
        rfl
      rw [hrfree]
      refine h.free.2.congr fun e he => ?_
      rw [Heap.next, hrdesc e (ne_of_mem_of_not_mem he hdf)]
      rfl
    · rw [hr]
      exact h.freeDescs e (List.mem_cons_of_mem d he)
  rcases hg : getFreePage r with _ | ⟨p, u⟩
  · left
    unfold Malloc.newBucket
    rw [hfirst]
    dsimp only
    rw [← hr, hg]
  right
  obtain ⟨hu, hnew, hpage, hheld, hequ, hdescu⟩ := hrok.taken hg
  obtain ⟨hsize, hdvd⟩ := bucketSize_pos hi
  have hrheap : r.held = s.held ∧ r.descPages = s.descPages ∧ r.chain = s.chain := by
    rw [hr]
    exact ⟨rfl, rfl, rfl⟩
  obtain ⟨hrheld, hrpages, hrchain⟩ := hrheap
  have huheap : u.descPages = s.descPages ∧ u.chain = s.chain := by
    rw [hequ]
    exact ⟨hrpages, hrchain⟩
  have hdpage : pageOf d ≠ p := fun hp =>
    hnew (hp ▸ hrok.descHeld (hrpages ▸ h.freeDescs d List.mem_cons_self))
  have huself : u.desc d = { s.desc d with refcnt := 0, bucketSize := bucketSize i } :=
    (hdescu d hdpage).trans hrself
  -- the objects are linked, and the descriptor put in front of its chain
  obtain ⟨w, hw⟩ : ∃ w : Heap, w = u.setDesc d fun b => { b with page := p, freeptr := p } :=
    ⟨_, rfl⟩
  obtain ⟨x, hthread, hx, hword, hlast, hoff⟩ := threadObjects_spec
    (show 0 < bucketSize i by omega) (4096 / bucketSize i - 1) p w
  obtain ⟨t, ht⟩ : ∃ t : Heap, t = (x.setDesc d fun b => { b with next := x.chain i }).setChain i
    (some d) := ⟨_, rfl⟩
  have hbucket : Malloc.newBucket i s = .ok (d, t) := by
    unfold Malloc.newBucket
    rw [hfirst]
    dsimp only
    rw [← hr, hg]
    dsimp only
    rw [← hw, hthread, ht]
  have hxchain : x.chain = s.chain := by
    rw [hx, hw]
    exact huheap.2
  have hxdesc : ∀ e, x.desc e = w.desc e := fun e => by rw [hx]
  have htdesc : ∀ e, e ≠ d → t.desc e = u.desc e := by
    intro e he
    have hte : t.desc e = x.desc e := by
      rw [ht]
      exact Function.update_of_ne he _ _
    rw [hte, hxdesc, hw]
    exact Function.update_of_ne he _ _
  have htself : t.desc d = ⟨p, s.chain i, p, 0, bucketSize i⟩ := by
    have hwself : w.desc d = { u.desc d with page := p, freeptr := p } := by
      rw [hw]
      exact Function.update_self ..
    have hte : t.desc d = { x.desc d with next := x.chain i } := by
      rw [ht]
      exact Function.update_self ..
    rw [hte, hxdesc, hwself, huself, hxchain]
  have hchain : Chain t.link (some p) (objects p (bucketSize i)) := by
    have hlink : t.link = x.link := by
      rw [ht]
      rfl
    have hcount : 4096 / bucketSize i = 4096 / bucketSize i - 1 + 1 := by
      have := Nat.div_pos (Nat.le_of_dvd (by decide) hdvd) (show 0 < bucketSize i by omega)
      omega
    rw [hlink, objects, hcount]
    refine Chain.of_range' (fun k hk => ?_) ?_
    · rw [Heap.link, hword k hk, ptr, if_neg]
      have := (hu.page_eq (hheld ▸ Finset.mem_insert_self p r.held)).2.1
      omega
    · rw [Heap.link, hlast]
      rfl
  have htword : ∀ a, pageOf a ≠ p → t.word a = u.word a := by
    intro a ha
    have hta : t.word a = x.word a := by
      rw [ht]
      rfl
    rw [hta, hoff a fun k hk hak => ha ?_]
    · rw [hw]
      rfl
    · refine pageOf_object (by omega) hdvd hpage (mem_objects.mpr ⟨k, ?_, hak⟩)
      have := Nat.div_pos (Nat.le_of_dvd (by decide) hdvd) (show 0 < bucketSize i by omega)
      omega
  refine ⟨p, t, hbucket, ?_, htself, ?_, fun j e he => ?_, ?_, ?_⟩
  · refine hu.addBucket hi ?_ hdq hdf ?_ ?_ (fun j e he hp => ?_) ?_ htdesc ?_ htword hchain
    · rw [huheap.1]
      exact h.freeDescs d List.mem_cons_self
    · rw [hheld]
      exact Finset.mem_insert_self _ _
    · rw [huheap.1]
      exact fun hm => hnew (hrheld ▸ h.descHeld hm)
    · refine hnew ?_
      have hpe := (hrok.page j e he).1
      have hother : pageOf e ≠ p := fun hep => hnew (hep ▸ hrok.descHeld (hrok.descs j e he))
      rw [hdescu e hother] at hp
      rwa [hp] at hpe
    · rw [ht, hx, hw]
      rfl
    · rw [htself, huheap.2]
  · have := (hu.page_eq (hheld ▸ Finset.mem_insert_self p r.held)).2.1
    omega
  · have hne : e ≠ d := ne_of_mem_of_not_mem he (hdq j)
    have hother : pageOf e ≠ p := fun hep => hnew (hep ▸ hrok.descHeld (hrok.descs j e he))
    rw [htdesc e hne, hdescu e hother, hrdesc e hne]
  · rw [← hrheld, ← hheld, ht, hx, hw]
    rfl
  · rw [← huheap.1, ht, hx, hw]
    rfl

end Ok

end Linux011.Malloc

import Linux011.Buffer.Queues
import Linux011.Buffer.Frames

/-!
# What a step of a call does to the queues and the counts

A reference is a pointer to a buffer for which `b_count` has been incremented and not
yet decremented. `Linux011.Buffer.Frame.refs` are the references a call under way has
in its variables, and `Linux011.Buffer.Takes` says what a step may do with them: the
queues stay in order, the counts follow the references, and a head whose count is not
zero keeps the block it carries. One lemma for each function that changes a count, and
the rest do not matter to the queues (`Linux011.Buffer.Sys.Same`), give
`Linux011.Buffer.Frame.step_ok`: every step of every call is of this kind.
-/

namespace Linux011.Buffer

/-! ### Heads up to their data and flags -/

/-- A head without its data and flags. -/
def BufferHead.core (h : BufferHead) : BufferHead :=
  { h with data := fun _ => 0, uptodate := false, dirt := false, lock := false }

/-- **The same queues and counts**; the data and the flags may differ. -/
structure Sys.Same (s s' : Sys) : Prop where
  nrBuffers : s'.cache.nrBuffers = s.cache.nrBuffers
  hashTable : s'.cache.hashTable = s.cache.hashTable
  freeList : s'.cache.freeList = s.cache.freeList
  core : ∀ b, (s'.cache.head b).core = (s.cache.head b).core

section Same

variable {s s' s'' : Sys} {L : Layout} {b : ℕ} {f : BufferHead → BufferHead}

namespace Sys

theorem head_setHead (s : Sys) (b : ℕ) (f : BufferHead → BufferHead) (i : ℕ) :
    (s.setHead b f).cache.head i = if i = b then f (s.cache.head b) else s.cache.head i :=
  Cache.head_setHead b f i

namespace Same

theorem refl (s : Sys) : Same s s := ⟨rfl, rfl, rfl, fun _ => rfl⟩

theorem trans (h : Same s s') (h' : Same s' s'') : Same s s'' :=
  ⟨h'.nrBuffers.trans h.nrBuffers, h'.hashTable.trans h.hashTable, h'.freeList.trans h.freeList,
    fun b => (h'.core b).trans (h.core b)⟩

theorem setHead (hf : ∀ h : BufferHead, (f h).core = h.core) (s : Sys) (b : ℕ) :
    Same s (s.setHead b f) := by
  refine ⟨rfl, rfl, rfl, fun i => ?_⟩
  rw [head_setHead]
  split
  · next hib => rw [hf, hib]
  · rfl

theorem count (h : Same s s') (b : ℕ) : (s'.cache.head b).count = (s.cache.head b).count :=
  (congrArg BufferHead.count (h.core b) :)

theorem tag (h : Same s s') (b : ℕ) : (s'.cache.head b).dev = (s.cache.head b).dev ∧
    (s'.cache.head b).blocknr = (s.cache.head b).blocknr :=
  ⟨(congrArg BufferHead.dev (h.core b) :), (congrArg BufferHead.blocknr (h.core b) :)⟩

theorem laid (h : Same s s') (hl : Laid s.cache L) : Laid s'.cache L :=
  hl.congr h.nrBuffers h.hashTable h.freeList h.tag
    ⟨funext fun b => (congrArg BufferHead.prev (h.core b) :),
      funext fun b => (congrArg BufferHead.next (h.core b) :),
      funext fun b => (congrArg BufferHead.prevFree (h.core b) :),
      funext fun b => (congrArg BufferHead.nextFree (h.core b) :)⟩

end Same

end Sys

/-- A store into a head that leaves its tag and its links alone keeps the queues in order. -/
theorem Laid.setHead {c : Cache} (hl : Laid c L)
    (hf : ∀ h : BufferHead, { f h with count := h.count }.core = h.core) (b : ℕ) :
    Laid (c.setHead b f) L := by
  have key : ∀ i, { (c.setHead b f).head i with count := (c.head i).count }.core =
      (c.head i).core := fun i => by
    rw [Cache.head_setHead]
    split
    · next hib => rw [hib, hf]
    · rfl
  refine hl.congr rfl rfl rfl (fun i => ⟨?_, ?_⟩)
    ⟨funext fun i => ?_, funext fun i => ?_, funext fun i => ?_, funext fun i => ?_⟩
  · exact (congrArg BufferHead.dev (key i) :)
  · exact (congrArg BufferHead.blocknr (key i) :)
  · exact (congrArg BufferHead.prev (key i) :)
  · exact (congrArg BufferHead.next (key i) :)
  · exact (congrArg BufferHead.prevFree (key i) :)
  · exact (congrArg BufferHead.nextFree (key i) :)

end Same

/-! ### References -/

/-- The head carries the block that the holder of the reference takes it to carry. -/
structure Ref.Good (c : Cache) (e : Ref) : Prop where
  lt : e.bh < c.nrBuffers
  dev : (c.head e.bh).dev = e.dev
  block : (c.head e.bh).blocknr = e.block

/-- The references to a head among `es`. -/
def refsTo (b : ℕ) (es : List Ref) : ℕ := es.countP fun e => e.bh = b

@[simp] theorem refsTo_nil (b : ℕ) : refsTo b [] = 0 := rfl

@[simp] theorem refsTo_append (b : ℕ) (es es' : List Ref) :
    refsTo b (es ++ es') = refsTo b es + refsTo b es' := List.countP_append

@[simp] theorem refsTo_cons (b : ℕ) (e : Ref) (es : List Ref) :
    refsTo b (e :: es) = refsTo b es + if e.bh = b then 1 else 0 := by
  rw [refsTo, List.countP_cons]
  simp [refsTo]

theorem refsTo_pos {e : Ref} {es : List Ref} (he : e ∈ es) : 0 < refsTo e.bh es :=
  List.countP_pos_iff.mpr ⟨e, he, by simp⟩

theorem refsTo_erase {e : Ref} {es : List Ref} (he : e ∈ es) (b : ℕ) :
    refsTo b (es.erase e) + (if e.bh = b then 1 else 0) = refsTo b es := by
  have := (List.perm_cons_erase he).countP_eq fun e' => decide (e'.bh = b)
  rw [List.countP_cons] at this
  simpa [refsTo] using this.symm

namespace Frame

/-- **The references a call has in its variables.** -/
def refs : Frame → List Ref
  | .hashWait e => [e]
  | .brelse e => [e]
  | .breadWait e => [e]
  | .breadaNext e _ _ => [e]
  | .breadaAhead e _ _ _ => [e]
  | .breadaDrop e tmp _ _ => [tmp, e]
  | _ => []

/-- The head a call is at work on without a reference to it. -/
def target : Frame → Option ℕ
  | .getblkWait _ _ bh => some bh
  | .syncWait _ _ i => some i
  | .lockBuffer _ _ _ bh => some bh
  | .makeRequest _ _ _ bh => some bh
  | _ => none

/-- The block whose buffer the call returns, if it returns one. -/
def asks : Frame → Option (ℕ × ℕ)
  | .getHashTable dev block => some (dev, block)
  | .hashWait e => some (e.dev, e.block)
  | .getblk dev block => some (dev, block)
  | .getblkHashed dev block => some (dev, block)
  | .getblkAsleep dev block => some (dev, block)
  | .getblkWait dev block _ => some (dev, block)
  | .bread dev block => some (dev, block)
  | .breadGot dev block => some (dev, block)
  | .breadWait e => some (e.dev, e.block)
  | .breada dev first _ => some (dev, first)
  | .breadaGot dev first _ => some (dev, first)
  | .breadaNext e _ _ => some (e.dev, e.block)
  | .breadaAhead e _ _ _ => some (e.dev, e.block)
  | .breadaDrop e _ _ _ => some (e.dev, e.block)
  | _ => none

/-- The block whose buffer the call is waiting to be given. -/
def awaits : Frame → Option (ℕ × ℕ)
  | .getblkHashed dev block => some (dev, block)
  | .breadGot dev block => some (dev, block)
  | .breadaGot dev first _ => some (dev, first)
  | .breadaAhead _ dev block _ => some (dev, block)
  | .caller c => c.bind Call.asked
  | _ => none

end Frame

/-- What the topmost call of a stack is waiting to be given; `below` is what the caller
of them all is waiting for. -/
def awaited (fs : List Frame) (below : Option (ℕ × ℕ)) : Option (ℕ × ℕ) :=
  match fs with
  | [] => below
  | f :: _ => f.awaits

/-- **Every call returns what its caller is waiting for.** -/
def Fits : List Frame → Option (ℕ × ℕ) → Prop
  | [], _ => True
  | f :: fs, below => (∀ q ∈ f.asks, awaited fs below = some q) ∧ Fits fs below

section Fits

variable {fs fs' : List Frame} {q q' : Option (ℕ × ℕ)}

theorem awaited_append : awaited (fs ++ fs') q = awaited fs (awaited fs' q) := by
  cases fs <;> rfl

theorem fits_append : Fits (fs ++ fs') q ↔ Fits fs (awaited fs' q) ∧ Fits fs' q := by
  induction fs with
  | nil => simp [Fits]
  | cons f fs ih => rw [List.cons_append, Fits, Fits, ih, awaited_append, and_assoc]

/-- A caller that is waiting for something may take the place of one that is not. -/
theorem Fits.mono (h : Fits fs q) (hq : ∀ x ∈ q, q' = some x) : Fits fs q' := by
  induction fs with
  | nil => trivial
  | cons f fs ih =>
    obtain ⟨hf, hfs⟩ := h
    refine ⟨fun x hx => ?_, ih hfs⟩
    cases fs with
    | nil => exact hq x (hf x hx)
    | cons g fs => exact hf x hx

end Fits

/-! ### What a step may do -/

/-- **A step that gives up the references `used` and takes `now`.** -/
structure Takes (s : Sys) (used : List Ref) (s' : Sys) (now : List Ref) : Prop where
  laid : ∃ L, Laid s'.cache L
  nrBuffers : s'.cache.nrBuffers = s.cache.nrBuffers
  count_lt : ∀ b, b < s.cache.nrBuffers → (s'.cache.head b).count < 256
  count : ∀ b, b < s.cache.nrBuffers → ((s'.cache.head b).count + refsTo b used) % 256 =
    ((s.cache.head b).count + refsTo b now) % 256
  keeps : ∀ b, (s.cache.head b).count ≠ 0 →
    (s'.cache.head b).dev = (s.cache.head b).dev ∧
      (s'.cache.head b).blocknr = (s.cache.head b).blocknr
  /-- **A head is re-tagged only while it is unused, unlocked and clean.** -/
  retag : ∀ b, ((s'.cache.head b).dev, (s'.cache.head b).blocknr) ≠
      ((s.cache.head b).dev, (s.cache.head b).blocknr) →
    (s.cache.head b).count = 0 ∧ (s.cache.head b).lock = false ∧ (s.cache.head b).dirt = false
  refs : ∀ e ∈ now, e.Good s'.cache

section Takes

variable {s s' : Sys} {L : Layout} {used now : List Ref} {e : Ref}

theorem Ref.Good.same (h : e.Good s.cache) (hs : s.Same s') : e.Good s'.cache :=
  ⟨hs.nrBuffers ▸ h.lt, (hs.tag _).1.trans h.dev, (hs.tag _).2.trans h.block⟩

/-- Counts have room for 256 values. -/
def Sys.CountsLt (s : Sys) : Prop := ∀ b, b < s.cache.nrBuffers → (s.cache.head b).count < 256

/-- A step that does not touch the queues and the counts only passes references on. -/
theorem Takes.of_same (hl : Laid s.cache L) (hc : s.CountsLt) (hs : s.Same s')
    (hg : ∀ e ∈ used, e.Good s.cache) (hperm : used.Perm now) : Takes s used s' now where
  laid := ⟨L, hs.laid hl⟩
  nrBuffers := hs.nrBuffers
  count_lt b hb := by rw [hs.count]; exact hc b hb
  count b _ := by rw [hs.count, refsTo, refsTo, hperm.countP_eq]
  keeps b _ := hs.tag b
  retag b hb := absurd (by rw [(hs.tag b).1, (hs.tag b).2]) hb
  refs e he := (hg e (hperm.mem_iff.mpr he)).same hs

/-- What holds of the heads after a store into one count. -/
theorem Ref.Good.setHead {f : BufferHead → BufferHead} (h : e.Good s.cache)
    (hf : ∀ h : BufferHead, { f h with count := h.count }.core = h.core) (b : ℕ) :
    e.Good (s.setHead b f).cache := by
  refine ⟨h.lt, ?_, ?_⟩
  · rw [Sys.head_setHead]
    split
    · next hb => exact (congrArg BufferHead.dev (hf (s.cache.head b)) :).trans (hb ▸ h.dev)
    · exact h.dev
  · rw [Sys.head_setHead]
    split
    · next hb => exact (congrArg BufferHead.blocknr (hf (s.cache.head b)) :).trans (hb ▸ h.block)
    · exact h.block

/-- A step that changes one count. -/
theorem Takes.setCount {f : BufferHead → BufferHead} {b : ℕ} (hl : Laid s.cache L)
    (hc : s.CountsLt) (hf : ∀ h : BufferHead, { f h with count := h.count }.core = h.core)
    (hlt : (f (s.cache.head b)).count < 256)
    (hb : ((f (s.cache.head b)).count + refsTo b used) % 256 =
      ((s.cache.head b).count + refsTo b now) % 256)
    (hne : ∀ i, i ≠ b → refsTo i used = refsTo i now) (hg : ∀ e ∈ now, e.Good s.cache) :
    Takes s used (s.setHead b f) now := by
  have htag : ∀ i, ((s.setHead b f).cache.head i).dev = (s.cache.head i).dev ∧
      ((s.setHead b f).cache.head i).blocknr = (s.cache.head i).blocknr := fun i => by
    rw [Sys.head_setHead]
    split
    · next hib =>
      rw [hib]
      exact ⟨(congrArg BufferHead.dev (hf (s.cache.head b)) :),
        (congrArg BufferHead.blocknr (hf (s.cache.head b)) :)⟩
    · exact ⟨rfl, rfl⟩
  refine ⟨⟨L, hl.setHead hf b⟩, rfl, fun i hi => ?_, fun i _ => ?_, fun i _ => htag i,
    fun i hi => ?_, fun e he => (hg e he).setHead hf b⟩
  · rw [Sys.head_setHead]
    split
    · exact hlt
    · exact hc i hi
  · rw [Sys.head_setHead]
    split
    · next hib => rw [hib]; exact hb
    · next hib => rw [hne i hib]
  · rw [(htag i).1, (htag i).2] at hi
    exact absurd rfl hi

/-- **A reference is taken**: `bh->b_count++`. -/
theorem Takes.inc (hl : Laid s.cache L) (hc : s.CountsLt) (hg : e.Good s.cache)
    (hused : ∀ e ∈ used, e.Good s.cache) :
    Takes s used (s.setHead e.bh BufferHead.incCount) (e :: used) := by
  refine Takes.setCount hl hc (fun _ => rfl) (Nat.mod_lt _ (by omega)) ?_ (fun i hi => ?_) ?_
  · change (((s.cache.head e.bh).count + 1) % 256 + _) % 256 = _
    rw [refsTo_cons, if_pos rfl]
    omega
  · rw [refsTo_cons, if_neg (Ne.symm hi), Nat.add_zero]
  · intro e' he'
    rcases List.mem_cons.mp he' with rfl | he'
    · exact hg
    · exact hused e' he'

/-- **A reference is given up**: `bh->b_count--`. -/
theorem Takes.dec (hl : Laid s.cache L) (hc : s.CountsLt) (hnow : ∀ e ∈ now, e.Good s.cache) :
    Takes s (e :: now) (s.setHead e.bh BufferHead.decCount) now := by
  refine Takes.setCount hl hc (fun _ => rfl) (Nat.mod_lt _ (by omega)) ?_ (fun i hi => ?_) hnow
  · change (((s.cache.head e.bh).count + 255) % 256 + _) % 256 = _
    rw [refsTo_cons, if_pos rfl]
    omega
  · rw [refsTo_cons, if_neg (Ne.symm hi), Nat.add_zero]

end Takes

/-! ### The calls, one by one -/

/-- What a step of the call `f` has to do: its references, its result, and the head it is
going to take. -/
structure Frame.Ok (f : Frame) (s : Sys) (ret : Option Ref) (s' : Sys) (fs : List Frame)
    (ret' : Option Ref) : Prop where
  takes : Takes s (f.refs ++ ret.toList) s' (fs.flatMap Frame.refs ++ ret'.toList)
  fits : Fits fs f.asks
  result : ∀ e ∈ ret', fs = [] ∧ f.asks = some (e.dev, e.block)
  target : ∀ g ∈ fs, ∀ b ∈ g.target, b < s.cache.nrBuffers

section Steps

variable {s s' : Sys} {L : Layout} {f : Frame} {fs fs' : List Frame} {ret ret' : Option Ref}
  {e : Ref} {cmd : Cmd} {ahead : Bool} {maj bh dev block : ℕ}

/-- A call at work on a head, which has no reference and returns none. -/
structure Frame.Plain (f : Frame) (bh : ℕ) : Prop where
  refs : f.refs = []
  asks : f.asks = none
  target : f.target = some bh

/-- `lock_buffer` and what follows it only lock the buffer. -/
theorem Sys.lockAndTest_go (h : s.lockAndTest cmd ahead maj bh fs = .go s' fs' ret) :
    ret = none ∧ s.Same s' ∧ (fs' = fs ∨ ∃ g : Frame, g.Plain bh ∧ fs' = g :: fs) := by
  unfold lockAndTest at h
  split at h
  · cases h
    exact ⟨rfl, .refl s, Or.inl rfl⟩
  · cases h
    exact ⟨rfl, .setHead (f := fun h => { h with lock := true }) (fun _ => rfl) s bh,
      Or.inr ⟨_, ⟨rfl, rfl, rfl⟩, rfl⟩⟩

/-- `ll_rw_block` does so at most. -/
theorem Sys.llRwBlock_go (h : s.llRwBlock cmd ahead bh fs = .go s' fs' ret) :
    ret = none ∧ s.Same s' ∧ (fs' = fs ∨ ∃ g : Frame, g.Plain bh ∧ fs' = g :: fs) := by
  unfold llRwBlock at h
  dsimp only at h
  split at h
  · cases h
    exact ⟨rfl, .refl s, Or.inl rfl⟩
  · split at h
    · split at h
      · cases h
        exact ⟨rfl, .refl s, Or.inl rfl⟩
      · cases h
        exact ⟨rfl, .refl s, Or.inr ⟨_, ⟨rfl, rfl, rfl⟩, rfl⟩⟩
    · exact lockAndTest_go h

/-- A step that passes its references on to the frames `fs`. -/
theorem Frame.Ok.pass (hl : Laid s.cache L) (hc : s.CountsLt)
    (hg : ∀ e ∈ f.refs ++ ret.toList, e.Good s.cache) (hs : s.Same s')
    (hperm : (f.refs ++ ret.toList).Perm (fs.flatMap Frame.refs)) (hfits : Fits fs f.asks)
    (hv : ∀ g ∈ fs, ∀ b ∈ g.target, b < s.cache.nrBuffers) : f.Ok s ret s' fs none where
  takes := by
    rw [Option.toList_none, List.append_nil]
    exact .of_same hl hc hs hg hperm
  fits := hfits
  result := by simp
  target := hv

/-- A step that goes through `ll_rw_block`. -/
theorem Frame.Ok.transfer (hl : Laid s.cache L) (hc : s.CountsLt) (hbh : bh < s.cache.nrBuffers)
    (hg : ∀ e ∈ f.refs ++ ret.toList, e.Good s.cache)
    (h : s.llRwBlock cmd ahead bh fs = .go s' fs' ret')
    (hperm : (f.refs ++ ret.toList).Perm (fs.flatMap Frame.refs)) (hfits : Fits fs f.asks)
    (hv : ∀ g ∈ fs, ∀ b ∈ g.target, b < s.cache.nrBuffers) : f.Ok s ret s' fs' ret' := by
  obtain ⟨rfl, hs, rfl | ⟨g, hg', rfl⟩⟩ := Sys.llRwBlock_go h
  · exact .pass hl hc hg hs hperm hfits hv
  · refine .pass hl hc hg hs ?_ ⟨?_, hfits⟩ ?_
    · rw [List.flatMap_cons, hg'.refs]
      exact hperm
    · simp [hg'.asks]
    · intro g' hm
      rcases List.mem_cons.mp hm with rfl | hm
      · simpa [hg'.target] using hbh
      · exact hv g' hm

/-- A step that returns a reference it has, or has been given. -/
theorem Frame.Ok.give (hl : Laid s.cache L) (hc : s.CountsLt)
    (hg : ∀ e ∈ f.refs ++ ret.toList, e.Good s.cache) (hs : s.Same s')
    (hperm : (f.refs ++ ret.toList).Perm [e]) (hasks : f.asks = some (e.dev, e.block)) :
    f.Ok s ret s' [] (some e) where
  takes := .of_same hl hc hs hg hperm
  fits := trivial
  result e' he' := by
    obtain rfl := Option.some.inj he'
    exact ⟨rfl, hasks⟩
  target := by simp

/-- **`get_hash_table`** counts the buffer it has found. -/
theorem Frame.ok_getHashTable (hl : Laid s.cache L) (hc : s.CountsLt)
    (h : (Frame.getHashTable dev block).step s none = .go s' fs ret') :
    (Frame.getHashTable dev block).Ok s none s' fs ret' := by
  rw [Frame.step] at h
  cases hf : findBuffer s.cache dev block with
  | none =>
    rw [hf] at h
    cases h
    exact .pass hl hc (by simp [refs]) (.refl s) (List.Perm.refl _) trivial (by simp)
  | some bh =>
    rw [hf] at h
    cases h
    obtain ⟨hlt, -, hdev, hblk⟩ := hl.findBuffer_eq_some.mp hf
    have hgood : Ref.Good s.cache ⟨bh, dev, block⟩ := ⟨hlt, hdev, hblk⟩
    refine ⟨Takes.inc hl hc hgood (by simp [refs]), ⟨?_, trivial⟩, by simp, by simp [Frame.target]⟩
    intro q hq
    exact hq

/-- **`getblk` takes an unused buffer**, and no head carried the block before. -/
theorem Frame.ok_retag (hl : Laid s.cache L) (hc : s.CountsLt) (hbh : bh < s.cache.nrBuffers)
    (hlock : (s.cache.head bh).lock = false) (hcount : (s.cache.head bh).count = 0)
    (hdirt : (s.cache.head bh).dirt = false) (hfind : findBuffer s.cache dev block = none) :
    ∃ c, retag s.cache bh dev block = some c ∧
      (Frame.getblkWait dev block bh).Ok s none { s with cache := c } []
        (some ⟨bh, dev, block⟩) := by
  obtain ⟨c, L', hretag, hl', hnr, hbare⟩ := hl.retag hbh dev block
    fun hd => (hl.findBuffer_eq_none hd).mp hfind
  have hother : ∀ i, i ≠ bh → (c.head i).bare = (s.cache.head i).bare := fun i hi => by
    rw [hbare, if_neg hi]
  have hself := hbare bh
  rw [if_pos rfl] at hself
  have hcount' : ∀ i, (c.head i).count = if i = bh then 1 else (s.cache.head i).count := fun i => by
    by_cases hi : i = bh
    · rw [if_pos hi, hi]
      exact (congrArg BufferHead.count hself :)
    · rw [if_neg hi]
      exact (congrArg BufferHead.count (hother i hi) :)
  refine ⟨c, hretag, ⟨⟨L', hl'⟩, hnr, fun i hi => ?_, fun i _ => ?_, fun i hi => ?_, fun i hi => ?_,
    fun e he => ?_⟩, trivial, fun e he => ?_, by simp⟩
  · change (c.head i).count < 256
    rw [hcount']
    split
    · omega
    · exact hc i hi
  · change ((c.head i).count + 0) % 256 = _
    rw [hcount']
    change _ = ((s.cache.head i).count + refsTo i [⟨bh, dev, block⟩]) % 256
    rw [refsTo_cons, refsTo_nil]
    by_cases hib : i = bh
    · rw [if_pos hib, if_pos hib.symm, hib, hcount]
    · rw [if_neg hib, if_neg (Ne.symm hib)]
  · have hne : i ≠ bh := by
      rintro rfl
      exact hi hcount
    exact ⟨(congrArg BufferHead.dev (hother i hne) :),
      (congrArg BufferHead.blocknr (hother i hne) :)⟩
  · obtain rfl : i = bh := by
      by_contra hne
      refine hi ?_
      rw [Prod.mk.injEq]
      exact ⟨(congrArg BufferHead.dev (hother i hne) :),
        (congrArg BufferHead.blocknr (hother i hne) :)⟩
    exact ⟨hcount, hlock, hdirt⟩
  · obtain rfl := List.mem_singleton.mp he
    exact ⟨hnr ▸ hbh, (congrArg BufferHead.dev hself :), (congrArg BufferHead.blocknr hself :)⟩
  · obtain rfl := Option.some.inj he
    exact ⟨rfl, rfl⟩

/-- **Every step of every call** keeps the queues in order and the counts right. -/
theorem Frame.step_ok (hl : Laid s.cache L) (hc : s.CountsLt)
    (hg : ∀ e ∈ f.refs ++ ret.toList, e.Good s.cache)
    (hv : ∀ b ∈ f.target, b < s.cache.nrBuffers)
    (hr : ∀ e ∈ ret, f.awaits = some (e.dev, e.block))
    (h : f.step s ret = .go s' fs ret') : f.Ok s ret s' fs ret' := by
  -- a call that awaits nothing has been given nothing
  have hnone : f.awaits = none → ret = none := fun ha => by
    cases ret with
    | none => rfl
    | some e => simp [hr e rfl] at ha
  have hgiven : ∀ e ∈ ret, ∀ q, f.awaits = some q → q = (e.dev, e.block) := fun e he q hq =>
    Option.some.inj (hq.symm.trans (hr e he))
  cases f with
  | getHashTable dev block =>
    obtain rfl := hnone rfl
    exact ok_getHashTable hl hc h
  | hashWait e =>
    obtain rfl := hnone rfl
    have hge := hg e (by simp [refs])
    rw [step] at h
    split at h
    · cases h
    · rw [if_pos ⟨hge.dev, hge.block⟩] at h
      cases h
      exact .give hl hc hg (.refl s) (List.Perm.refl _) rfl
  | getblk dev block =>
    obtain rfl := hnone rfl
    cases h
    exact .pass hl hc hg (.refl s) (List.Perm.refl _) (by simp [Fits, awaited, asks, awaits])
      (by simp [target])
  | getblkHashed dev block =>
    cases ret with
    | some e =>
      cases h
      refine .give hl hc hg (.refl s) (List.Perm.refl _) (congrArg some ?_)
      exact hgiven e rfl _ rfl
    | none =>
      dsimp only [step] at h
      cases hs : scanFree s.cache with
      | none =>
        rw [hs] at h
        cases h
        exact .pass hl hc hg (.refl s) (List.Perm.refl _) (by simp [Fits, awaited, asks])
          (by simp [target])
      | some bh =>
        rw [hs] at h
        cases h
        exact .pass hl hc hg (.refl s) (List.Perm.refl _) (by simp [Fits, awaited, asks])
          (by simpa [target] using (hl.scanFree_eq_some hs).1)
  | getblkAsleep dev block =>
    obtain rfl := hnone rfl
    cases h
    exact .pass hl hc hg (.refl s) (List.Perm.refl _) (by simp [Fits, awaited, asks])
      (by simp [target])
  | getblkWait dev block bh =>
    obtain rfl := hnone rfl
    have hbh := hv bh rfl
    rw [step] at h
    split at h
    · cases h
    next hlock =>
    split at h
    · cases h
      exact .pass hl hc hg (.refl s) (List.Perm.refl _) (by simp [Fits, awaited, asks])
        (by simp [target])
    next hcount =>
    split at h
    · cases h
      exact .pass hl hc hg (.refl s) (List.Perm.refl _) (by simp [Fits, awaited, asks])
        (by simpa [target] using hbh)
    next hdirt =>
    split at h
    · cases h
      exact .pass hl hc hg (.refl s) (List.Perm.refl _) (by simp [Fits, awaited, asks])
        (by simp [target])
    next hfind =>
    obtain ⟨c, hretag, hok⟩ := ok_retag hl hc hbh (Bool.eq_false_of_not_eq_true hlock)
      (not_ne_iff.mp hcount) (Bool.eq_false_of_not_eq_true hdirt)
      (Option.not_isSome_iff_eq_none.mp hfind)
    rw [hretag] at h
    cases h
    exact hok
  | sync only again i =>
    obtain rfl := hnone rfl
    rw [step] at h
    split at h
    · split at h
      · cases h
        exact .pass hl hc hg (.refl s) (List.Perm.refl _) trivial (by simp)
      · cases h
        exact .pass hl hc hg (.refl s) (List.Perm.refl _) (by simp [Fits, awaited, asks])
          (by simp [target])
    next hi =>
      split at h
      · cases h
        exact .pass hl hc hg (.refl s) (List.Perm.refl _) (by simp [Fits, awaited, asks])
          (by simpa [target] using hi)
      · cases h
        exact .pass hl hc hg (.refl s) (List.Perm.refl _) (by simp [Fits, awaited, asks])
          (by simp [target])
  | syncWait only again i =>
    obtain rfl := hnone rfl
    rw [step] at h
    split at h
    · cases h
    · split at h
      · exact .transfer hl hc (hv i rfl) hg h (List.Perm.refl _) (by simp [Fits, awaited, asks])
          (by simp [target])
      · cases h
        exact .pass hl hc hg (.refl s) (List.Perm.refl _) (by simp [Fits, awaited, asks])
          (by simp [target])
  | syncInodes only =>
    obtain rfl := hnone rfl
    cases h
    exact .pass hl hc hg (.refl s) (List.Perm.refl _) (by simp [Fits, awaited, asks])
      (by simp [target])
  | lockBuffer cmd ahead maj bh =>
    obtain rfl := hnone rfl
    rw [step] at h
    split at h
    · cases h
    · obtain ⟨rfl, hs, rfl | ⟨g, hplain, rfl⟩⟩ := Sys.lockAndTest_go h
      · exact .pass hl hc hg hs (List.Perm.refl _) trivial (by simp)
      · refine .pass hl hc hg hs ?_ ⟨?_, trivial⟩ ?_
        · rw [List.flatMap_cons, hplain.refs]
          exact List.Perm.refl _
        · simp [hplain.asks]
        · simpa [hplain.target] using hv bh rfl
  | makeRequest cmd ahead maj bh =>
    obtain rfl := hnone rfl
    rw [step] at h
    split at h
    · split at h
      · cases h
        exact .pass hl hc hg (.setHead (f := fun h => { h with lock := false }) (fun _ => rfl) s bh)
          (List.Perm.refl _) trivial (by simp)
      · cases h
    · next i _ =>
      cases h
      have hsame : s.Same (s.addRequest maj i (s.fillRequest cmd bh)) :=
        have hd : s.Same (s.setHead bh fun h => { h with dirt := false }) :=
          .setHead (f := fun h => { h with dirt := false }) (fun _ => rfl) s bh
        ⟨hd.nrBuffers, hd.hashTable, hd.freeList, hd.core⟩
      exact .pass hl hc hg hsame (List.Perm.refl _) trivial (by simp)
  | brelse e =>
    obtain rfl := hnone rfl
    rw [step] at h
    split at h
    · cases h
    · split at h
      · cases h
      · cases h
        exact ⟨.dec hl hc (by simp), trivial, by simp, by simp⟩
  | bread dev block =>
    obtain rfl := hnone rfl
    cases h
    exact .pass hl hc hg (.refl s) (List.Perm.refl _) (by simp [Fits, awaited, asks, awaits])
      (by simp [target])
  | breadGot dev block =>
    cases ret with
    | none => cases h
    | some e =>
      obtain ⟨rfl, rfl⟩ := Prod.mk.inj (hgiven e rfl _ rfl)
      dsimp only [step] at h
      split at h
      · cases h
        exact .give hl hc hg (.refl s) (List.Perm.refl _) rfl
      · exact .transfer hl hc (hg e (by simp)).lt hg h (List.Perm.refl _)
          (by simp [Fits, awaited, asks]) (by simp [target])
  | breadWait e =>
    obtain rfl := hnone rfl
    rw [step] at h
    split at h
    · cases h
    · split at h
      · cases h
        exact .give hl hc hg (.refl s) (List.Perm.refl _) rfl
      · cases h
        exact .pass hl hc hg (.refl s) (List.Perm.refl _) (by simp [Fits, awaited, asks])
          (by simp [target])
  | breada dev first ahead =>
    obtain rfl := hnone rfl
    cases h
    exact .pass hl hc hg (.refl s) (List.Perm.refl _) (by simp [Fits, awaited, asks, awaits])
      (by simp [target])
  | breadaGot dev first ahead =>
    cases ret with
    | none => cases h
    | some e =>
      obtain ⟨rfl, rfl⟩ := Prod.mk.inj (hgiven e rfl _ rfl)
      dsimp only [step] at h
      split at h
      · cases h
        exact .pass hl hc hg (.refl s) (List.Perm.refl _) (by simp [Fits, awaited, asks])
          (by simp [target])
      · exact .transfer hl hc (hg e (by simp)).lt hg h (List.Perm.refl _)
          (by simp [Fits, awaited, asks]) (by simp [target])
  | breadaNext e dev ahead =>
    obtain rfl := hnone rfl
    cases ahead with
    | nil =>
      cases h
      exact .pass hl hc hg (.refl s) (List.Perm.refl _) (by simp [Fits, awaited, asks])
        (by simp [target])
    | cons first ahead =>
      cases h
      exact .pass hl hc hg (.refl s) (List.Perm.refl _) (by simp [Fits, awaited, asks, awaits])
        (by simp [target])
  | breadaAhead e dev block ahead =>
    cases ret with
    | none =>
      cases h
      exact .pass hl hc hg (.refl s) (List.Perm.refl _) (by simp [Fits, awaited, asks])
        (by simp [target])
    | some tmp =>
      dsimp only [step] at h
      split at h
      · cases h
        exact .pass hl hc hg (.refl s) (.swap tmp e []) (by simp [Fits, awaited, asks])
          (by simp [target])
      · exact .transfer hl hc (hg e (by simp [refs])).lt hg h (.swap tmp e [])
          (by simp [Fits, awaited, asks]) (by simp [target])
  | breadaDrop e tmp dev ahead =>
    obtain rfl := hnone rfl
    cases h
    have hge : ∀ e' ∈ [e], e'.Good s.cache := fun e' he' => hg e' (by
      obtain rfl := List.mem_singleton.mp he'
      simp [refs])
    exact ⟨.dec hl hc hge, by simp [Fits, awaited, asks], by simp, by simp [target]⟩
  | caller asked => cases h

end Steps

end Linux011.Buffer

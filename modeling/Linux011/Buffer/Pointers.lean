import Linux011.Buffer.Race
import Linux011.Lib.Logged
import Linux011.Lib.Wp

/-!
# The pointers that the queue operations go through

`remove_from_queues` and `insert_into_queues`, with a record of the pointers that they load or store
through (`Linux011.Buffer.Trail`). Their effect on the heads is that of `Linux011.Buffer.Cache`.

The hash queues end with a null pointer. `remove_from_queues` tests what it goes through;
`insert_into_queues` does not, and stores through `b_next` of a head that has just been put on a
queue that was empty.
-/

namespace Linux011.Buffer

/-! ### The queue operations -/

/-- **The heads, and the pointers gone through**, the last one first. -/
structure Trail where
  cache : Cache
  through : List (Option ℕ)

/-- Code that goes through pointers, or panics. -/
abbrev Linking := EStateM Unit Trail

namespace Linking

/-- A load through a pointer. -/
def load {α : Type} (p : ℕ) (f : BufferHead → α) : Linking α := do
  modify fun s => { s with through := some p :: s.through }
  return f ((← get).cache.head p)

/-- A store through a pointer; one through a null pointer touches no head. -/
def store (p : Option ℕ) (f : BufferHead → BufferHead) : Linking PUnit :=
  modify fun s => ⟨s.cache.setAt p f, p :: s.through⟩

/-- A load from the hash table. -/
def loadHash (hash : ℕ) : Linking (Option ℕ) := return (← get).cache.hashTable hash

/-- A store into the hash table. -/
def storeHash (hash : ℕ) (p : Option ℕ) : Linking PUnit :=
  modify fun s => { s with cache := s.cache.setHash hash p }

/-- The head behind `bh` on its hash queue. -/
def unlinkNext (bh : ℕ) : Linking PUnit := do
  if (← load bh BufferHead.next) ≠ none then
    let prev ← load bh BufferHead.prev
    store (← load bh BufferHead.next) fun h => { h with prev := prev }

/-- The head before it. -/
def unlinkPrev (bh : ℕ) : Linking PUnit := do
  if (← load bh BufferHead.prev) ≠ none then
    let next ← load bh BufferHead.next
    store (← load bh BufferHead.prev) fun h => { h with next := next }

/-- The hash table. -/
def unlinkRoot (bh : ℕ) : Linking PUnit := do
  let hash := hashfn (← load bh BufferHead.dev) (← load bh BufferHead.blocknr)
  if (← loadHash hash) = some bh then
    storeHash hash (← load bh BufferHead.next)

/-- Remove from hash-queue. -/
def removeFromHash (bh : ℕ) : Linking PUnit := do
  unlinkNext bh
  unlinkPrev bh
  unlinkRoot bh

/-- Remove from free list. -/
def removeFromFree (bh : ℕ) : Linking PUnit := do
  if (← load bh BufferHead.prevFree) = none ∨ (← load bh BufferHead.nextFree) = none then
    throw ()
  let nextFree ← load bh BufferHead.nextFree
  store (← load bh BufferHead.prevFree) fun h => { h with nextFree := nextFree }
  let prevFree ← load bh BufferHead.prevFree
  store (← load bh BufferHead.nextFree) fun h => { h with prevFree := prevFree }
  if (← get).cache.freeList = bh then
    let nextFree ← load bh BufferHead.nextFree
    modify fun s => { s with cache := { s.cache with freeList := nextFree.getD bh } }

/-- **`remove_from_queues`** -/
def removeFromQueues (bh : ℕ) : Linking PUnit := do
  removeFromHash bh
  removeFromFree bh

/-- Put at end of free list. -/
def insertIntoFree (bh : ℕ) : Linking PUnit := do
  let freeList := (← get).cache.freeList
  store (some bh) fun h => { h with nextFree := some freeList }
  let prevFree ← load freeList BufferHead.prevFree
  store (some bh) fun h => { h with prevFree := prevFree }
  store (← load freeList BufferHead.prevFree) fun h => { h with nextFree := some bh }
  store (some freeList) fun h => { h with prevFree := some bh }

/-- Put the buffer in new hash-queue if it has a device. -/
def insertIntoHash (bh : ℕ) : Linking PUnit := do
  store (some bh) fun h => { h with prev := none }
  store (some bh) fun h => { h with next := none }
  if (← load bh BufferHead.dev) ≠ 0 then
    let hash := hashfn (← load bh BufferHead.dev) (← load bh BufferHead.blocknr)
    let first ← loadHash hash
    store (some bh) fun h => { h with next := first }
    storeHash hash (some bh)
    store (← load bh BufferHead.next) fun h => { h with prev := some bh }

/-- **`insert_into_queues`** -/
def insertIntoQueues (bh : ℕ) : Linking PUnit := do
  insertIntoFree bh
  insertIntoHash bh

/-- The end of `getblk`; its own stores are not recorded. -/
def retag (bh dev block : ℕ) : Linking PUnit := do
  modify fun s => { s with
    cache := s.cache.setHead bh fun h => { h with count := 1, dirt := false, uptodate := false } }
  removeFromQueues bh
  modify fun s => { s with
    cache := s.cache.setHead bh fun h => { h with dev := dev, blocknr := block } }
  insertIntoQueues bh

/-! ### What they go through -/

/-- **The address of a buffer head.** -/
def IsHead (n : ℕ) (p : Option ℕ) : Prop := ∃ b ∈ p, b < n

/-- **Only heads have been gone through.** -/
def Heads (n : ℕ) (l : List (Option ℕ)) : Prop := ∀ p ∈ l, IsHead n p

/-- **Code that takes the heads from `c` to `c'`**, and goes through heads only just if `P`. -/
def Goes (n : ℕ) (m : Linking PUnit) (c c' : Cache) (P : Prop) : Prop :=
  ∀ l, ∃ l', m ⟨c, l⟩ = .ok ⟨⟩ ⟨c', l'⟩ ∧ (Heads n l' ↔ Heads n l ∧ P)

variable {n bh dev block : ℕ} {c c' c'' : Cache} {l : List (Option ℕ)} {m m' : Linking PUnit}
  {P P' : Prop}

theorem isHead_some {b : ℕ} : IsHead n (some b) ↔ b < n := by
  simp [IsHead]

theorem not_isHead_none : ¬IsHead n none := by
  simp [IsHead]

theorem heads_cons {p : Option ℕ} : Heads n (p :: l) ↔ IsHead n p ∧ Heads n l :=
  List.forall_mem_cons

theorem Goes.bind (h : Goes n m c c' P) (h' : Goes n m' c' c'' P') :
    Goes n (do m; m') c c'' (P ∧ P') := by
  intro l
  obtain ⟨l', hrun, hheads⟩ := h l
  obtain ⟨l'', hrun', hheads'⟩ := h' l'
  refine ⟨l'', (bind_ok hrun).trans hrun', ?_⟩
  rw [hheads', hheads, and_assoc]

theorem Goes.congr (h : Goes n m c c' P) (hP : P ↔ P') : Goes n m c c' P' := by
  rwa [← propext hP]

theorem goes_modify (n : ℕ) (g : Cache → Cache) (c : Cache) :
    Goes n (modify fun s => { s with cache := g s.cache }) c (g c) True :=
  fun l => ⟨l, rfl, (and_iff_left trivial).symm⟩

/-- What comes after a load. -/
theorem load_bind {α : Type} {g : α → Linking PUnit} (p : ℕ) (f : BufferHead → α) :
    (load p f >>= g) ⟨c, l⟩ = g (f (c.head p)) ⟨c, some p :: l⟩ := rfl

theorem loadHash_bind {g : Option ℕ → Linking PUnit} (hash : ℕ) :
    (loadHash hash >>= g) ⟨c, l⟩ = g (c.hashTable hash) ⟨c, l⟩ := rfl

theorem store_bind {g : PUnit → Linking PUnit} (p : Option ℕ) (f : BufferHead → BufferHead) :
    (store p f >>= g) ⟨c, l⟩ = g ⟨⟩ ⟨c.setAt p f, p :: l⟩ := rfl

theorem freeList_setHead (f : BufferHead → BufferHead) :
    (c.setHead bh f).freeList = c.freeList := rfl

theorem storeHash_bind {g : PUnit → Linking PUnit} (hash : ℕ) (p : Option ℕ) :
    (storeHash hash p >>= g) ⟨c, l⟩ = g ⟨⟩ ⟨c.setHash hash p, l⟩ := rfl

/-- What has been stored is there. -/
theorem next_self (hash : ℕ) (p x : Option ℕ) :
    (((c.setHead bh fun h => { h with next := x }).setHash hash p).head bh).next = x := by
  change ((c.setHead bh fun h => { h with next := x }).head bh).next = x
  rw [Cache.head_setHead, if_pos rfl]

theorem goes_unlinkNext (hb : bh < n) (hnext : ∀ x ∈ c.next bh, x < n) :
    Goes n (unlinkNext bh) c
      (c.setAt (c.head bh).next fun h => { h with prev := (c.head bh).prev }) True := by
  intro l
  have hhead : IsHead n (some bh) := isHead_some.mpr hb
  rw [unlinkNext, load_bind]
  cases hn : (c.head bh).next with
  | none => exact ⟨_, rfl, by simp [heads_cons, hhead]⟩
  | some x =>
    have hx : IsHead n (some x) := isHead_some.mpr (hnext x hn)
    refine ⟨some x :: some bh :: some bh :: some bh :: l, ?_, by simp [heads_cons, hhead, hx]⟩
    change EStateM.Result.ok PUnit.unit
      (Trail.mk (c.setAt (c.head bh).next _) ((c.head bh).next :: _)) = _
    rw [hn]

theorem goes_unlinkPrev (hb : bh < n) (hprev : ∀ x ∈ c.prev bh, x < n) :
    Goes n (unlinkPrev bh) c
      (c.setAt (c.head bh).prev fun h => { h with next := (c.head bh).next }) True := by
  intro l
  have hhead : IsHead n (some bh) := isHead_some.mpr hb
  rw [unlinkPrev, load_bind]
  cases hp : (c.head bh).prev with
  | none => exact ⟨_, rfl, by simp [heads_cons, hhead]⟩
  | some x =>
    have hx : IsHead n (some x) := isHead_some.mpr (hprev x hp)
    refine ⟨some x :: some bh :: some bh :: some bh :: l, ?_, by simp [heads_cons, hhead, hx]⟩
    change EStateM.Result.ok PUnit.unit
      (Trail.mk (c.setAt (c.head bh).prev _) ((c.head bh).prev :: _)) = _
    rw [hp]

theorem goes_unlinkRoot (hb : bh < n) : Goes n (unlinkRoot bh) c
    (if c.hashTable (hashfn (c.head bh).dev (c.head bh).blocknr) = some bh then
      c.setHash (hashfn (c.head bh).dev (c.head bh).blocknr) (c.head bh).next else c) True := by
  intro l
  have hhead : IsHead n (some bh) := isHead_some.mpr hb
  rw [unlinkRoot, load_bind, load_bind, loadHash_bind]
  by_cases hroot : c.hashTable (hashfn (c.head bh).dev (c.head bh).blocknr) = some bh
  · rw [if_pos hroot, if_pos hroot]
    exact ⟨_, rfl, by simp [heads_cons, hhead]⟩
  · rw [if_neg hroot, if_neg hroot]
    exact ⟨_, rfl, by simp [heads_cons, hhead]⟩

/-- **Leaving the hash queue** goes through heads only. -/
theorem goes_removeFromHash (hb : bh < n) (hnext : ∀ x ∈ c.next bh, x < n)
    (hprev : ∀ x ∈ c.prev bh, x < n) :
    Goes n (removeFromHash bh) c (Buffer.removeFromHash c bh) True := by
  have hsame : (c.setAt (c.head bh).next fun h => { h with prev := (c.head bh).prev }).prev bh =
      c.prev bh := by
    rw [Cache.setAt_prev, Cache.relink_prev]
    cases hn : (c.head bh).next with
    | none => rfl
    | some x =>
      by_cases hx : bh = x
      · rw [← hx]
        exact setLink_some _ _ _
      · exact setLink_of_notMem (fun a ha => Option.some.inj ha ▸ Ne.symm hx) _ _
  have hlinks := (goes_unlinkNext hb hnext).bind
    ((goes_unlinkPrev hb (hsame.symm ▸ hprev)).bind (goes_unlinkRoot hb))
  exact (and_true True ▸ and_true True ▸ hlinks :)

/-- **Leaving the free list** goes through heads only. -/
theorem goes_removeFromFree {u v : ℕ} (hb : bh < n) (hu : c.prevFree bh = some u) (hun : u < n)
    (hv : c.nextFree bh = some v) (hvn : v < n) (hc : Buffer.removeFromFree c bh = some c') :
    Goes n (removeFromFree bh) c c' True := by
  intro l
  rw [Cache.prevFree] at hu
  rw [Cache.nextFree] at hv
  have hhead : IsHead n (some bh) := isHead_some.mpr hb
  have hu' : IsHead n (some u) := isHead_some.mpr hun
  have hv' : IsHead n (some v) := isHead_some.mpr hvn
  have hsome : ¬((c.head bh).prevFree = none ∨ (c.head bh).nextFree = none) := by simp [hu, hv]
  rw [Buffer.removeFromFree, if_neg hsome] at hc
  rw [removeFromFree, load_bind, load_bind, if_neg hsome]
  beta_reduce
  rw [load_bind, load_bind, store_bind, load_bind, load_bind, store_bind, get_bind]
  have hnext : ((c.setAt (some u) fun h => { h with nextFree := some v }).head bh).nextFree =
      some v := by
    rw [← Cache.setHead_eq, Cache.head_setHead]
    split_ifs
    · rfl
    · exact hv
  have hprev : ((c.setAt (some u) fun h => { h with nextFree := some v }).head bh).prevFree =
      some u := by
    rw [← Cache.setHead_eq, Cache.head_setHead]
    split_ifs with hbu
    · exact hbu ▸ hu
    · exact hu
  simp only [hu, hv, hnext, hprev] at hc ⊢
  obtain rfl := Option.some.inj hc
  by_cases hfree : c.freeList = bh
  · refine ⟨some bh :: some v :: some bh :: some bh :: some u :: some bh :: some bh :: some bh ::
      some bh :: l, (congrFun (if_pos hfree) _).trans ?_, by simp [heads_cons, hhead, hu', hv']⟩
    rw [if_pos (by exact hfree)]
    rfl
  · refine ⟨some v :: some bh :: some bh :: some u :: some bh :: some bh :: some bh ::
      some bh :: l, (congrFun (if_neg hfree) _).trans ?_, by simp [heads_cons, hhead, hu', hv']⟩
    rw [if_neg (by exact hfree)]
    rfl

/-- **Joining the free list** goes through heads only. -/
theorem goes_insertIntoFree {u : ℕ} (hb : bh < n) (hf : c.freeList < n)
    (hu : c.prevFree c.freeList = some u) (hun : u < n) :
    Goes n (insertIntoFree bh) c (Buffer.insertIntoFree c bh) True := by
  intro l
  have hhead : IsHead n (some bh) := isHead_some.mpr hb
  have hfree : IsHead n (some c.freeList) := isHead_some.mpr hf
  have hu' : IsHead n (some u) := isHead_some.mpr hun
  -- the head in front of `free_list`, also if that is `bh` itself
  have hprev : (((c.setHead bh fun h => { h with nextFree := some c.freeList }).setHead bh fun h =>
      { h with prevFree := (((c.setHead bh fun h => { h with nextFree := some c.freeList }).head
        c.freeList).prevFree) }).head c.freeList).prevFree = some u := by
    rw [Cache.prevFree] at hu
    by_cases hfb : c.freeList = bh
    · rw [hfb] at hu
      simp [Cache.head_setHead, hfb, hu]
    · simp [Cache.head_setHead, hfb, hu]
  rw [insertIntoFree, get_bind, store_bind, load_bind, store_bind, load_bind, store_bind]
  refine ⟨some c.freeList :: some u :: some c.freeList :: some bh :: some c.freeList ::
    some bh :: l, ?_, by simp [heads_cons, hhead, hfree, hu']⟩
  simp only [Buffer.insertIntoFree, freeList_setHead]
  rw [← Cache.setHead_eq, ← Cache.setHead_eq, hprev]
  rfl

/-- **Joining a hash queue** goes through heads only, if there is no device or the queue is not
empty. -/
theorem goes_insertIntoHash (hb : bh < n)
    (hroot : ∀ x ∈ c.hashTable (hashfn (c.head bh).dev (c.head bh).blocknr), x < n) :
    Goes n (insertIntoHash bh) c (Buffer.insertIntoHash c bh)
      ((c.head bh).dev = 0 ∨
        c.hashTable (hashfn (c.head bh).dev (c.head bh).blocknr) ≠ none) := by
  intro l
  have hhead : IsHead n (some bh) := isHead_some.mpr hb
  rw [insertIntoHash, store_bind, store_bind, load_bind]
  have hdev : (((c.setHead bh fun h => { h with prev := none }).setHead bh fun h =>
      { h with next := none }).head bh).dev = (c.head bh).dev := by
    simp [Cache.head_setHead]
  have hblk : (((c.setHead bh fun h => { h with prev := none }).setHead bh fun h =>
      { h with next := none }).head bh).blocknr = (c.head bh).blocknr := by
    simp [Cache.head_setHead]
  rw [← Cache.setHead_eq, ← Cache.setHead_eq, hdev, Buffer.insertIntoHash]
  dsimp only
  rw [hdev]
  by_cases hd : (c.head bh).dev = 0
  · rw [if_neg (not_not.mpr hd), if_pos hd]
    exact ⟨_, rfl, by simp [heads_cons, hhead, hd]⟩
  · rw [if_pos hd, if_neg hd, load_bind, load_bind, loadHash_bind, hdev, hblk, store_bind]
    rw [storeHash_bind, load_bind, ← Cache.setHead_eq, next_self]
    refine ⟨_, rfl, ?_⟩
    change Heads n (c.hashTable _ :: _) ↔ _
    cases hr : c.hashTable (hashfn (c.head bh).dev (c.head bh).blocknr) with
    | none => simp [heads_cons, not_isHead_none, hd]
    | some x =>
      have hx : IsHead n (some x) := isHead_some.mpr (hroot x hr)
      simp [heads_cons, hhead, hx]

/-! ### A buffer is taken -/

section Laid

variable {L : Layout} {b : ℕ} {ls : List ℕ}

/-- The links of a hash queue lead to heads. -/
theorem hash_links (h : Laid c L) (hb : b < c.nrBuffers) :
    (∀ x ∈ c.next b, x < c.nrBuffers) ∧ ∀ x ∈ c.prev b, x < c.nrBuffers := by
  rcases h.on_queue hb with hon | ⟨-, hp, hn⟩
  · obtain ⟨l₁, l₂, hl⟩ := List.append_of_mem hon
    have hseg := h.queues.chain (hashfn (c.head b).dev (c.head b).blocknr)
    have hmem := h.chain_mem (hashfn (c.head b).dev (c.head b).blocknr)
    rw [hl] at hseg hmem
    rw [hseg.next_eq, hseg.prev_eq, Option.or_none, Option.or_none]
    constructor
    · intro x hx
      have hx' := List.mem_cons_of_mem b (List.mem_of_head? hx)
      exact ((hmem x).mp (List.mem_append_right _ hx')).1
    · intro x hx
      exact ((hmem x).mp (List.mem_append_left _ (List.mem_of_getLast? hx))).1
  · simp [hp, hn]

/-- The links of the free list lead to heads. -/
theorem free_links (h : FreeList c ls) (hb : b ∈ ls) :
    (∃ u ∈ ls, c.prevFree b = some u) ∧ ∃ v ∈ ls, c.nextFree b = some v := by
  obtain ⟨l₁, l₂, rfl⟩ := List.append_of_mem hb
  have hring : Ring c.nextFree c.prevFree (b :: (l₂ ++ l₁)) := h.ring.rotate
  have hmem : ∀ x ∈ l₂ ++ l₁, x ∈ l₁ ++ b :: l₂ := by
    intro x hx
    rw [List.mem_append] at hx
    rw [List.mem_append, List.mem_cons]
    tauto
  rw [hring.prev_head, hring.next_head]
  constructor
  · cases hlast : (l₂ ++ l₁).getLast? with
    | none => exact ⟨b, hb, rfl⟩
    | some u => exact ⟨u, hmem u (List.mem_of_getLast? hlast), rfl⟩
  · cases hhead : (l₂ ++ l₁).head? with
    | none => exact ⟨b, hb, rfl⟩
    | some v => exact ⟨v, hmem v (List.mem_of_head? hhead), rfl⟩

/-- **`remove_from_queues`** goes through heads only. -/
theorem goes_removeFromQueues (h : Laid c L) (hb : bh < c.nrBuffers) :
    ∃ c' ls, Buffer.removeFromQueues c bh = some c' ∧
      Goes c.nrBuffers (removeFromQueues bh) c c' True ∧ FreeList c' ls ∧
      (∀ b ∈ ls, b < c.nrBuffers) ∧ (HashQueues c' fun q => (L.queue q).erase bh) ∧
      (c'.head bh).bare = (c.head bh).bare := by
  obtain ⟨hpf, hnf, hfl, -, hbare⟩ := removeFromHash_other c bh
  obtain ⟨l₁, l₂, hl⟩ := List.append_of_mem ((h.free_mem bh).mpr hb)
  have hfree : FreeList (Buffer.removeFromHash c bh) (l₁ ++ bh :: l₂) :=
    hl ▸ h.freeList.congr hnf hpf hfl
  have hlt : ∀ b ∈ l₁ ++ bh :: l₂, b < c.nrBuffers := fun b hm => (h.free_mem b).mp (hl ▸ hm)
  obtain ⟨c', hc', hp', hn', hh', -, hbare', hf'⟩ := hfree.remove
  obtain ⟨⟨u, hu, hpu⟩, v, hv, hnv⟩ := free_links hfree
    (List.mem_append_right l₁ (List.mem_cons_self (a := bh) (l := l₂)))
  have hrun := (goes_removeFromHash hb (hash_links h hb).1 (hash_links h hb).2).bind
    (goes_removeFromFree hb hpu (hlt u hu) hnv (hlt v hv) hc')
  have hqueues := (h.removeFromHash hb).congr hn' hp' hh'
  have hsame := (hbare' bh).trans (hbare bh)
  rcases hf' with ⟨-, hf'⟩ | ⟨-, hf'⟩
  · refine ⟨c', l₁ ++ l₂, hc', (and_true True ▸ hrun :), hf', fun b hm => hlt b ?_, hqueues, hsame⟩
    rw [List.mem_append] at hm
    rw [List.mem_append, List.mem_cons]
    tauto
  · refine ⟨c', [bh], hc', (and_true True ▸ hrun :), hf', fun b hm => ?_, hqueues, hsame⟩
    rw [List.mem_singleton.mp hm]
    exact hb

/-- **Another buffer is on the hash queue** of a block. -/
def Shared (c : Cache) (bh dev block : ℕ) : Prop :=
  ∃ b < c.nrBuffers, b ≠ bh ∧ (c.head b).dev ≠ 0 ∧
    hashfn (c.head b).dev (c.head b).blocknr = hashfn dev block

theorem shared_iff (h : Laid c L) :
    ((L.queue (hashfn dev block)).erase bh).head? ≠ none ↔ Shared c bh dev block := by
  constructor
  · intro hne
    obtain ⟨b, hb⟩ := List.exists_mem_of_ne_nil _ (mt List.head?_eq_none_iff.mpr hne)
    rw [(h.queues.nodup _).mem_erase_iff, h.chain_mem] at hb
    exact ⟨b, hb.2.1, hb.1, hb.2.2⟩
  · rintro ⟨b, hlt, hne, hd, hhash⟩ hnone
    have hb := ((h.queues.nodup _).mem_erase_iff).mpr ⟨hne, (h.chain_mem _ b).mpr ⟨hlt, hd, hhash⟩⟩
    rw [List.head?_eq_none_iff.mp hnone] at hb
    exact absurd hb List.not_mem_nil

/-- **A buffer is taken**: the code goes through heads only, if there is no device or another buffer
is on the hash queue. -/
theorem goes_retag (h : Laid c L) (hb : bh < c.nrBuffers)
    (hc : Buffer.retag c bh dev block = some c') :
    Goes c.nrBuffers (retag bh dev block) c c' (dev = 0 ∨ Shared c bh dev block) := by
  have h₀ : Laid (c.setHead bh fun h =>
      { h with count := 1, dirt := false, uptodate := false }) L := by
    refine Laid.setHead h ?_ bh
    exact fun _ => rfl
  obtain ⟨c₂, ls, hc₂, hgoes, hfree, hlt, hqueues, hbare⟩ := goes_removeFromQueues h₀ hb
  rw [Buffer.retag, hc₂, Option.map_some] at hc
  obtain rfl := Option.some.inj hc
  -- the tag
  obtain ⟨hp, hn, hpf, hnf⟩ := @Cache.setHead_links c₂
    (fun h => { h with dev := dev, blocknr := block }) (fun _ => ⟨rfl, rfl, rfl, rfl⟩) bh
  have htag := goes_modify c.nrBuffers
    (fun c => c.setHead bh fun h => { h with dev := dev, blocknr := block }) c₂
  have hself := @Cache.head_setHead c₂ bh (fun h => { h with dev := dev, blocknr := block }) bh
  rw [if_pos rfl] at hself
  have hlist : (c₂.setHead bh fun h => { h with dev := dev, blocknr := block }).freeList =
    c₂.freeList := rfl
  have htable : (c₂.setHead bh fun h => { h with dev := dev, blocknr := block }).hashTable =
    c₂.hashTable := rfl
  generalize (c₂.setHead bh fun h => { h with dev := dev, blocknr := block }) = c₃
    at hp hn hpf hnf htag hself hlist htable ⊢
  have hfree₃ : FreeList c₃ ls := hfree.congr hnf hpf hlist
  have hqueues₃ : HashQueues c₃ fun q => (L.queue q).erase bh := hqueues.congr hn hp htable
  -- the free list
  have hmem : c₃.freeList ∈ ls := List.mem_of_head? hfree₃.head
  obtain ⟨⟨u, hu, hpu⟩, -⟩ := free_links hfree₃ hmem
  have hinsert := @goes_insertIntoFree c.nrBuffers bh c₃ u hb (hlt _ hmem) hpu (hlt u hu)
  -- the hash queue
  obtain ⟨-, -, hhash, -, hsame⟩ := insertIntoFree_other c₃ bh
  have hdev : ((Buffer.insertIntoFree c₃ bh).head bh).dev = dev :=
    (congrArg BufferHead.dev (hsame bh) :).trans (congrArg BufferHead.dev hself :)
  have hblk : ((Buffer.insertIntoFree c₃ bh).head bh).blocknr = block :=
    (congrArg BufferHead.blocknr (hsame bh) :).trans (congrArg BufferHead.blocknr hself :)
  have hroot := hqueues₃.head (hashfn dev block)
  have hjoin := @goes_insertIntoHash c.nrBuffers bh (Buffer.insertIntoFree c₃ bh) hb
  rw [hdev, hblk, hhash, hroot] at hjoin
  have hrun := (goes_modify c.nrBuffers (fun c => c.setHead bh fun h =>
    { h with count := 1, dirt := false, uptodate := false }) c).bind (hgoes.bind (htag.bind
      (hinsert.bind (hjoin ?_))))
  · refine hrun.congr ?_
    rw [true_and, true_and, true_and, true_and, shared_iff h]
  · intro x hx
    exact ((h.chain_mem _ x).mp (List.mem_of_mem_erase (List.mem_of_head? hx))).1

end Laid

end Linking

end Linux011.Buffer

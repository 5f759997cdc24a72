import Linux011.Lib.Bits
import Linux011.Lib.Run

/-!
# The maps of zones and inodes

`fs/bitmap.c`. The maps of a file system are in up to eight blocks of 8192 bits each. The bit of a
zone is its distance from the zone before the first data zone; the bit of an inode is its number.
Bit 0 of either map is set when the file system is mounted.

`new_block` sets the first bit that is clear before it looks whether there is a zone to it, so that
the bits behind the last zone get set one by one when the zones have run out; no zone is any
the worse for it. `free_block` does nothing about a zone whose block is in use.

The buffers are those of the blocks with data. Those of the maps are the super block's own.
-/

namespace Linux011.Fs.Bitmap

/-! ### The state -/

/-- A block of a map, in its buffer. -/
structure MapBlock where
  data : Words
  dirt : Bool

/-- `struct super_block`. -/
structure SuperBlock where
  ninodes : ℕ
  nzones : ℕ
  firstdatazone : ℕ
  imap : ℕ → Option MapBlock
  zmap : ℕ → Option MapBlock

/-- `struct buffer_head`, with its data. -/
structure Buffer where
  data : Words
  uptodate : Bool
  dirt : Bool
  count : ℕ

/-- `struct m_inode`, as far as `new_inode` and `free_inode` are about it. -/
structure Inode where
  dev : ℕ
  num : ℕ
  count : ℕ
  nlinks : ℕ
  uid : ℕ
  gid : ℕ
  mtime : ℕ
  atime : ℕ
  ctime : ℕ
  dirt : Bool

/-- **The super blocks and the cache.** -/
structure State where
  super : ℕ → Option SuperBlock
  buffer : ℕ × ℕ → Option Buffer

/-- What `current` has, and the time. -/
structure Env where
  euid : ℕ
  egid : ℕ
  time : ℕ

/-- `find_first_zero`. -/
def findFirstZero (data : Words) : ℕ := data.firstZero 256

/-- All bytes are zero. -/
def Inode.zero : Inode := ⟨0, 0, 0, 0, 0, 0, 0, 0, 0, false⟩

namespace State

variable (s : State)

/-- A store into the super block of a device. -/
def setSuper (dev : ℕ) (sb : SuperBlock) : State :=
  { s with super := Function.update s.super dev (some sb) }

/-- A store into the cache. -/
def setBuffer (k : ℕ × ℕ) (b : Option Buffer) : State :=
  { s with buffer := Function.update s.buffer k b }

/-- `getblk`: the buffer of the block, or one that nobody uses; `io` is what such a buffer had, and
the block it was for. -/
def getblk (k : ℕ × ℕ) (io : Words × Option (ℕ × ℕ)) : State × Buffer :=
  match s.buffer k with
  | some b =>
    (s.setBuffer k (some { b with count := b.count + 1 }), { b with count := b.count + 1 })
  | none =>
    let s := match io.2 with
      | none => s
      | some k' => match s.buffer k' with
        | some b => if b.count = 0 then s.setBuffer k' none else s
        | none => s
    (s.setBuffer k (some ⟨io.1, false, false, 1⟩), ⟨io.1, false, false, 1⟩)

end State

/-! ### The zones -/

/-- `free_block`. -/
def freeBlock (dev block : ℕ) (s : State) : Except String State :=
  match s.super dev with
  | none => .error "trying to free block on nonexistent device"
  | some sb =>
    if block < sb.firstdatazone ∨ sb.nzones ≤ block then
      .error "trying to free block not in datazone"
    else
      match s.buffer (dev, block) with
      | some b =>
        -- the count that `get_hash_table` has taken is not given back here
        if b.count + 1 ≠ 1 then
          .ok (s.setBuffer (dev, block) (some { b with count := b.count + 1 }))
        else clear sb (block - (sb.firstdatazone - 1))
          (s.setBuffer (dev, block) (some { b with dirt := false, uptodate := false }))
      | none => clear sb (block - (sb.firstdatazone - 1)) s
where
  /-- The rest of it, from `clear_bit` on. -/
  clear (sb : SuperBlock) (block : ℕ) (s : State) : Except String State :=
    match sb.zmap (block / 8192) with
    | none => .error "null pointer"
    | some m =>
      if m.data.bit (block % 8192) then
        .ok (s.setSuper dev { sb with
          zmap := Function.update sb.zmap (block / 8192)
            (some ⟨m.data.clearBit (block % 8192), true⟩) })
      else .error "free_block: bit already cleared"

/-- **The loop over the blocks of a map**, with `n` to go: the slot, its block, and the first bit
of it that is clear. -/
def findMap (map : ℕ → Option MapBlock) : ℕ → ℕ → Option MapBlock → ℕ → ℕ × Option MapBlock × ℕ
  | 0, i, bh, j => (i, bh, j)
  | n + 1, i, _, j =>
    match map i with
    | none => findMap map n (i + 1) none j
    | some m =>
      if findFirstZero m.data < 8192 then (i, some m, findFirstZero m.data)
      else findMap map n (i + 1) (some m) (findFirstZero m.data)

/-- `new_block`. -/
def newBlock (dev : ℕ) (io : Words × Option (ℕ × ℕ)) (s : State) : Except String (State × ℕ) :=
  match s.super dev with
  | none => .error "trying to get new block from nonexistant device"
  | some sb =>
    match findMap sb.zmap 8 0 none 8192 with
    | (_, none, _) => .ok (s, 0)
    | (i, some m, j) =>
      if 8 ≤ i ∨ 8192 ≤ j then .ok (s, 0)
      else if m.data.bit j then .error "new_block: bit already set"
      else
        let s := s.setSuper dev { sb with
          zmap := Function.update sb.zmap i (some ⟨m.data.setBit j, true⟩) }
        let j := j + i * 8192 + sb.firstdatazone - 1
        if sb.nzones ≤ j then .ok (s, 0)
        else if (s.getblk (dev, j) io).2.count ≠ 1 then .error "new block: count is != 1"
        else .ok ((s.getblk (dev, j) io).1.setBuffer (dev, j) (some ⟨.zero, true, true, 0⟩), j)

/-! ### The inodes -/

/-- `free_inode`, of an inode in the table. -/
def freeInode (inode : Inode) (s : State) : Except String (State × Inode) :=
  if inode.dev = 0 then .ok (s, .zero)
  else if 1 < inode.count then .error "free_inode"
  else if inode.nlinks ≠ 0 then .error "trying to free inode with links"
  else match s.super inode.dev with
    | none => .error "trying to free inode on nonexistent device"
    | some sb =>
      if inode.num < 1 ∨ sb.ninodes < inode.num then
        .error "trying to free inode 0 or nonexistant inode"
      else match sb.imap (inode.num / 8192) with
        | none => .error "nonexistent imap in superblock"
        | some m =>
          -- nothing but a message, when the bit is clear
          .ok (s.setSuper inode.dev { sb with
            imap := Function.update sb.imap (inode.num / 8192)
              (some ⟨m.data.clearBit (inode.num % 8192), true⟩) }, .zero)

/-- `new_inode`, when `get_empty_inode` has found a slot. -/
def newInode (dev : ℕ) (env : Env) (s : State) : Except String (State × Option Inode) :=
  match s.super dev with
  | none => .error "new_inode with unknown device"
  | some sb =>
    match findMap sb.imap 8 0 none 8192 with
    | (_, none, _) => .ok (s, none)
    | (i, some m, j) =>
      if 8192 ≤ j ∨ sb.ninodes < j + i * 8192 then .ok (s, none)
      else if m.data.bit j then .error "new_inode: bit already set"
      else
        .ok (s.setSuper dev { sb with
            imap := Function.update sb.imap i (some ⟨m.data.setBit j, true⟩) },
          some ⟨dev, j + i * 8192, 1, 1, env.euid, env.egid, env.time, env.time, env.time, true⟩)

/-! ### What is allocated -/

variable {s s' : State} {sb sb' : SuperBlock} {m : MapBlock} {map : ℕ → Option MapBlock}
  {dev z n i j k : ℕ} {io : Words × Option (ℕ × ℕ)} {env : Env}

/-- **A map as one row of bits**; where it has no block, there is nothing to be had. -/
def mapBit (map : ℕ → Option MapBlock) (n : ℕ) : Bool :=
  match map (n / 8192) with
  | none => true
  | some m => m.data.bit (n % 8192)

/-- The zone is one for data. -/
def SuperBlock.HasZone (sb : SuperBlock) (z : ℕ) : Prop := sb.firstdatazone ≤ z ∧ z < sb.nzones

/-- There is such an inode. -/
def SuperBlock.HasInode (sb : SuperBlock) (n : ℕ) : Prop := 1 ≤ n ∧ n ≤ sb.ninodes

/-- The bit of a zone. -/
def SuperBlock.zoneBit (sb : SuperBlock) (z : ℕ) : Bool :=
  mapBit sb.zmap (z - (sb.firstdatazone - 1))

/-- What has a number on some device, by what the super block says about it. -/
def State.such (s : State) (P : SuperBlock → ℕ → Prop) : Set (ℕ × ℕ) :=
  {p | ∃ sb, s.super p.1 = some sb ∧ P sb p.2}

/-- All zones there are. -/
def State.allZones (s : State) : Set (ℕ × ℕ) := s.such SuperBlock.HasZone

/-- **The zones that are allocated.** -/
def State.zones (s : State) : Set (ℕ × ℕ) := s.such fun sb z => sb.HasZone z ∧ sb.zoneBit z = true

/-- **The inodes that are allocated.** -/
def State.inodes (s : State) : Set (ℕ × ℕ) :=
  s.such fun sb n => sb.HasInode n ∧ mapBit sb.imap n = true

/-- **The maps are consistent**: at most eight blocks, enough of them, and bit 0 is set. -/
structure SuperBlock.Ok (sb : SuperBlock) : Prop where
  first : 1 ≤ sb.firstdatazone
  zslots : ∀ i, 8 ≤ i → sb.zmap i = none
  islots : ∀ i, 8 ≤ i → sb.imap i = none
  zcover : ∀ z, sb.HasZone z → (sb.zmap ((z - (sb.firstdatazone - 1)) / 8192)).isSome
  icover : ∀ n, sb.HasInode n → (sb.imap (n / 8192)).isSome
  zbit : mapBit sb.zmap 0 = true
  ibit : mapBit sb.imap 0 = true

/-- **Consistent**: the maps of all super blocks are, none of which is for device 0, and nobody uses
the block of a zone that is free. -/
structure Consistent (s : State) : Prop where
  nodev : s.super 0 = none
  ok : ∀ dev sb, s.super dev = some sb → sb.Ok
  unused : ∀ k b, k ∈ s.allZones → k ∉ s.zones → s.buffer k = some b → b.count = 0

theorem mem_such {P : SuperBlock → ℕ → Prop} (h : s.super dev = some sb) :
    (dev, n) ∈ s.such P ↔ P sb n := by
  constructor
  · rintro ⟨sb', hsb', hn⟩
    exact Option.some.inj (h.symm.trans hsb') ▸ hn
  · intro hn
    exact ⟨sb, h, hn⟩

/-! ### One bit of a map -/

theorem mapBit_block (h : map i = some m) (hj : j < 8192) :
    mapBit map (i * 8192 + j) = m.data.bit j := by
  rw [mapBit, show (i * 8192 + j) / 8192 = i by omega, h,
    show (i * 8192 + j) % 8192 = j by omega]

/-- What a store into one block does to the row. -/
theorem mapBit_update {data : Words} {b : Bool} (hm : map i = some m) (hj : j < 8192)
    (hdata : ∀ k, k < 8192 → data.bit k = if k = j then b else m.data.bit k) (n : ℕ) :
    mapBit (Function.update map i (some ⟨data, true⟩)) n =
      if n = i * 8192 + j then b else mapBit map n := by
  rw [mapBit, mapBit]
  by_cases hi : n / 8192 = i
  · rw [hi, Function.update_self, hm]
    dsimp only
    rw [hdata _ (Nat.mod_lt _ (by decide))]
    refine if_congr ?_ rfl rfl
    omega
  · rw [Function.update_of_ne hi, if_neg (by omega)]

theorem mapBit_setBit (hm : map i = some m) (hj : j < 8192) (n : ℕ) :
    mapBit (Function.update map i (some ⟨m.data.setBit j, true⟩)) n =
      if n = i * 8192 + j then true else mapBit map n := by
  refine mapBit_update hm hj (fun k _ => ?_) n
  rw [Words.bit_setBit]
  split_ifs with hk
  · rw [decide_eq_true hk, Bool.true_or]
  · rw [decide_eq_false hk, Bool.false_or]

theorem mapBit_clearBit (hm : map i = some m) (hj : j < 8192) (n : ℕ) :
    mapBit (Function.update map i (some ⟨m.data.clearBit j, true⟩)) n =
      if n = i * 8192 + j then false else mapBit map n := by
  refine mapBit_update hm hj (fun k _ => ?_) n
  rw [Words.bit_clearBit]
  split_ifs with hk
  · rw [decide_eq_true hk, Bool.not_true, Bool.false_and]
  · rw [decide_eq_false hk, Bool.not_false, Bool.true_and]

theorem isSome_update (hm : map i = some m) (m' : MapBlock) (n : ℕ) :
    (Function.update map i (some m') n).isSome = (map n).isSome := by
  by_cases hn : n = i
  · rw [hn, Function.update_self, hm]
    rfl
  · rw [Function.update_of_ne hn]

/-! ### The search -/

/-- **What a search through a map comes to**: the first bit that is clear, or nothing. -/
inductive Search (map : ℕ → Option MapBlock) : ℕ × Option MapBlock × ℕ → Prop
  | found {i j : ℕ} {m : MapBlock} (hi : i < 8) (hm : map i = some m) (hj : j < 8192)
    (hbit : m.data.bit j = false) (hfull : ∀ k < i * 8192 + j, mapBit map k = true) :
    Search map (i, some m, j)
  | full {bh : Option MapBlock} {j : ℕ} (h : bh = none ∨ 8192 ≤ j)
    (hfull : ∀ k < 8 * 8192, mapBit map k = true) : Search map (8, bh, j)

theorem findMap_search {bh : Option MapBlock} (hn : i + n = 8) (h : bh = none ∨ 8192 ≤ j)
    (hfull : ∀ k < i * 8192, mapBit map k = true) : Search map (findMap map n i bh j) := by
  induction n generalizing i bh j with
  | zero =>
    obtain rfl : i = 8 := by omega
    exact .full h hfull
  | succ n ih =>
    rw [findMap]
    cases hm : map i with
    | none =>
      refine ih (by omega) (Or.inl rfl) fun k hk => ?_
      rcases Nat.lt_or_ge k (i * 8192) with hki | hki
      · exact hfull k hki
      · rw [mapBit, show k / 8192 = i by omega, hm]
    | some m =>
      obtain ⟨-, hset, hclear⟩ := m.data.firstZero_spec 256
      have hblock : ∀ k < i * 8192 + findFirstZero m.data, k < i * 8192 + 8192 →
          mapBit map k = true := by
        intro k hk hk'
        rcases Nat.lt_or_ge k (i * 8192) with hki | hki
        · exact hfull k hki
        · obtain ⟨d, rfl⟩ := Nat.exists_eq_add_of_le hki
          rw [mapBit_block hm (by omega)]
          exact hset d (by rw [findFirstZero] at hk; omega)
      dsimp only
      split
      · next hlt =>
        exact .found (by omega) hm hlt (hclear hlt) fun k hk => hblock k hk (by omega)
      · next hge =>
        exact ih (by omega) (Or.inr (by omega)) fun k hk => hblock k (by omega) (by omega)

theorem search_map (map : ℕ → Option MapBlock) : Search map (findMap map 8 0 none 8192) :=
  findMap_search (by omega) (Or.inl rfl) fun k hk => absurd hk (by omega)

/-! ### Stores into a map -/

theorem mem_such_setSuper {P : SuperBlock → ℕ → Prop} (d n : ℕ) :
    (d, n) ∈ (s.setSuper dev sb').such P ↔ if d = dev then P sb' n else (d, n) ∈ s.such P := by
  have hsuper : (s.setSuper dev sb').super d = if d = dev then some sb' else s.super d :=
    Function.update_apply ..
  by_cases hd : d = dev
  · rw [if_pos hd] at hsuper ⊢
    exact mem_such hsuper
  · rw [if_neg hd] at hsuper ⊢
    constructor
    · rintro ⟨sb, hsb, hn⟩
      exact ⟨sb, hsuper.symm.trans hsb, hn⟩
    · rintro ⟨sb, hsb, hn⟩
      exact ⟨sb, hsuper.trans hsb, hn⟩

/-- A store that makes no difference. -/
theorem such_setSuper_of_iff {P : SuperBlock → ℕ → Prop} (hs : s.super dev = some sb)
    (h : ∀ n, P sb' n ↔ P sb n) : (s.setSuper dev sb').such P = s.such P := by
  ext ⟨d, n⟩
  rw [mem_such_setSuper]
  split_ifs with hd
  · rw [hd, mem_such hs]
    exact h n
  · rfl

/-- A store that adds one. -/
theorem such_setSuper_insert {P : SuperBlock → ℕ → Prop} (hs : s.super dev = some sb)
    (h : ∀ n, P sb' n ↔ n = k ∨ P sb n) :
    (s.setSuper dev sb').such P = insert (dev, k) (s.such P) := by
  ext ⟨d, n⟩
  rw [mem_such_setSuper, Set.mem_insert_iff, Prod.mk.injEq]
  split_ifs with hd
  · rw [h n, hd, mem_such hs]
    simp
  · simp [hd]

/-- A store that takes one away. -/
theorem such_setSuper_diff {P : SuperBlock → ℕ → Prop} (hs : s.super dev = some sb)
    (h : ∀ n, P sb' n ↔ n ≠ k ∧ P sb n) :
    (s.setSuper dev sb').such P = s.such P \ {(dev, k)} := by
  ext ⟨d, n⟩
  rw [mem_such_setSuper, Set.mem_sdiff, Set.mem_singleton_iff, Prod.mk.injEq]
  split_ifs with hd
  · rw [h n, hd, mem_such hs]
    simp [and_comm]
  · simp [hd]

theorem SuperBlock.Ok.setZmap (h : sb.Ok) (hm : sb.zmap i = some m) {m' : MapBlock}
    (h0 : mapBit (Function.update sb.zmap i (some m')) 0 = true) :
    ({ sb with zmap := Function.update sb.zmap i (some m') } : SuperBlock).Ok := by
  refine { h with zslots := fun j hj => ?_, zcover := fun z hz => ?_, zbit := h0 }
  · have hji : j ≠ i := by
      rintro rfl
      cases hm.symm.trans (h.zslots j hj)
    exact (Function.update_of_ne hji ..).trans (h.zslots j hj)
  · exact (isSome_update hm m' _).trans (h.zcover z hz)

theorem SuperBlock.Ok.setImap (h : sb.Ok) (hm : sb.imap i = some m) {m' : MapBlock}
    (h0 : mapBit (Function.update sb.imap i (some m')) 0 = true) :
    ({ sb with imap := Function.update sb.imap i (some m') } : SuperBlock).Ok := by
  refine { h with islots := fun j hj => ?_, icover := fun n hn => ?_, ibit := h0 }
  · have hji : j ≠ i := by
      rintro rfl
      cases hm.symm.trans (h.islots j hj)
    exact (Function.update_of_ne hji ..).trans (h.islots j hj)
  · exact (isSome_update hm m' _).trans (h.icover n hn)

/-- **A store into the super block of a device** keeps all consistent, if the maps are, and no zone
gets free that is in use. -/
theorem Consistent.setSuper (h : Consistent s) (hs : s.super dev = some sb) (hok : sb'.Ok)
    (hhas : ∀ z, sb'.HasZone z ↔ sb.HasZone z)
    (hunused : ∀ z b, (dev, z) ∈ s.zones → (dev, z) ∉ (s.setSuper dev sb').zones →
      s.buffer (dev, z) = some b → b.count = 0) : Consistent (s.setSuper dev sb') := by
  refine ⟨?_, fun d sb₁ hd => ?_, fun p b hp hnot hb => ?_⟩
  · have hdev : (0 : ℕ) ≠ dev := by
      rintro rfl
      cases hs.symm.trans h.nodev
    exact (Function.update_of_ne hdev ..).trans h.nodev
  · have hsuper : (s.setSuper dev sb').super d = if d = dev then some sb' else s.super d :=
      Function.update_apply ..
    rw [hd] at hsuper
    split_ifs at hsuper
    · exact Option.some.inj hsuper ▸ hok
    · exact h.ok d sb₁ hsuper.symm
  · obtain ⟨d, z⟩ := p
    rw [State.allZones, such_setSuper_of_iff hs hhas] at hp
    by_cases hz : (d, z) ∈ s.zones
    · obtain rfl : d = dev := by
        by_contra hd
        exact hnot ((mem_such_setSuper d z).mpr (by rwa [if_neg hd]))
      exact hunused z b hz hnot hb
    · exact h.unused _ b hp hz hb

/-- What the cache holds of allocated zones does not matter. -/
theorem Consistent.cache (h : Consistent s) (hsuper : s'.super = s.super)
    (hb : ∀ k b, k ∈ s.allZones → k ∉ s.zones → s'.buffer k = some b → b.count = 0) :
    Consistent s' := by
  have hsuch : ∀ P, s'.such P = s.such P := fun P => by rw [State.such, State.such, hsuper]
  refine ⟨hsuper ▸ h.nodev, fun d sb hd => h.ok d sb (hsuper ▸ hd), fun k b hk hnot => hb k b ?_ ?_⟩
  · rwa [State.allZones, hsuch] at hk
  · rwa [State.zones, hsuch] at hnot

/-! ### `getblk` -/

theorem getblk_super (k : ℕ × ℕ) : (s.getblk k io).1.super = s.super := by
  rw [State.getblk]
  cases s.buffer k with
  | some b => rfl
  | none =>
    dsimp only
    cases io.2 with
    | none => rfl
    | some k' =>
      dsimp only
      cases s.buffer k' with
      | none => rfl
      | some b =>
        dsimp only
        split <;> rfl

theorem getblk_such {P : SuperBlock → ℕ → Prop} (k : ℕ × ℕ) :
    (s.getblk k io).1.such P = s.such P := by
  rw [State.such, State.such, getblk_super]

theorem setBuffer_of_ne {k k' : ℕ × ℕ} {o : Option Buffer} (h : k' ≠ k) :
    (s.setBuffer k o).buffer k' = s.buffer k' := Function.update_of_ne h ..

theorem setBuffer_self {k : ℕ × ℕ} {o : Option Buffer} :
    (s.setBuffer k o).buffer k = o := Function.update_self ..

/-- The other buffers are there as before, unless one of them was taken. -/
theorem getblk_buffer {k k' : ℕ × ℕ} {b : Buffer} (hk : k' ≠ k)
    (h : (s.getblk k io).1.buffer k' = some b) : s.buffer k' = some b := by
  rw [State.getblk] at h
  cases hk₀ : s.buffer k with
  | some b₀ =>
    rw [hk₀] at h
    exact (setBuffer_of_ne hk).symm.trans h
  | none =>
    rw [hk₀] at h
    dsimp only at h
    rw [setBuffer_of_ne hk] at h
    cases hio : io.2 with
    | none => rwa [hio] at h
    | some k₂ =>
      rw [hio] at h
      dsimp only at h
      cases hb₂ : s.buffer k₂ with
      | none => rwa [hb₂] at h
      | some b₂ =>
        rw [hb₂] at h
        dsimp only at h
        split at h
        · by_cases hk₂ : k' = k₂
          · rw [hk₂, setBuffer_self] at h
            cases h
          · rwa [setBuffer_of_ne hk₂] at h
        · exact h

/-- A buffer that nobody uses has one user then. -/
theorem getblk_count {k : ℕ × ℕ} (h : ∀ b, s.buffer k = some b → b.count = 0) :
    (s.getblk k io).2.count = 1 := by
  rw [State.getblk]
  cases hb : s.buffer k with
  | some b =>
    dsimp only
    rw [h b hb]
  | none => rfl

/-! ### `new_block` and `free_block` -/

/-- **`new_block` has no zone to give.** -/
structure NoZone (s : State) (dev : ℕ) (s' : State) : Prop where
  full : ∀ z, (dev, z) ∈ s.allZones → (dev, z) ∈ s.zones
  zones : s'.zones = s.zones
  inodes : s'.inodes = s.inodes

/-- **`new_block` gives a zone.** -/
structure NewZone (s : State) (dev z : ℕ) (s' : State) : Prop where
  mem : (dev, z) ∈ s.allZones
  fresh : (dev, z) ∉ s.zones
  zones : s'.zones = insert (dev, z) s.zones
  inodes : s'.inodes = s.inodes
  buffer : s'.buffer (dev, z) = some ⟨.zero, true, true, 0⟩

/-- **`free_block` gives a zone back**, unless its block is in use. -/
structure FreedZone (s : State) (dev z : ℕ) (s' : State) : Prop where
  zones : s'.zones = if ∃ b, s.buffer (dev, z) = some b ∧ b.count ≠ 0 then s.zones
    else s.zones \ {(dev, z)}
  inodes : s'.inodes = s.inodes

/-- A bit that is clear is not bit 0. -/
theorem clear_pos (h0 : mapBit map 0 = true) (hm : map i = some m) (hj : j < 8192)
    (hbit : m.data.bit j = false) : 0 < i * 8192 + j := by
  rw [Nat.pos_iff_ne_zero]
  intro hz
  have hb := mapBit_block hm hj
  rw [hz, h0, hbit] at hb
  cases hb

/-- **A bit of the zone map is set**, and what that makes of the zones. -/
theorem Consistent.setZone (h : Consistent s) (hs : s.super dev = some sb)
    (hm : sb.zmap i = some m) (hj : j < 8192) (hbit : m.data.bit j = false)
    (hz : z = j + i * 8192 + sb.firstdatazone - 1) :
    Consistent (s.setSuper dev { sb with
        zmap := Function.update sb.zmap i (some ⟨m.data.setBit j, true⟩) }) ∧
      (s.setSuper dev { sb with
        zmap := Function.update sb.zmap i (some ⟨m.data.setBit j, true⟩) }).zones =
        if z < sb.nzones then insert (dev, z) s.zones else s.zones := by
  have hok := h.ok dev sb hs
  have hfirst := hok.first
  have hpos := clear_pos hok.zbit hm hj hbit
  have hset := mapBit_setBit hm hj
  have hzones : (s.setSuper dev { sb with
      zmap := Function.update sb.zmap i (some ⟨m.data.setBit j, true⟩) }).zones =
      if z < sb.nzones then insert (dev, z) s.zones else s.zones := by
    split
    · next hlt =>
      refine such_setSuper_insert hs fun n => ?_
      simp only [SuperBlock.HasZone, SuperBlock.zoneBit, hset]
      split_ifs with hn
      · have hnz : n = z ↔ sb.firstdatazone ≤ n := by omega
        simp only [hnz]
        constructor
        · rintro ⟨⟨hle, -⟩, -⟩
          exact Or.inl hle
        · rintro (hle | ⟨hhas, -⟩)
          · exact ⟨⟨hle, by omega⟩, trivial⟩
          · exact ⟨hhas, trivial⟩
      · rw [or_iff_right (by omega)]
    · next hge =>
      refine such_setSuper_of_iff hs fun n => ?_
      simp only [SuperBlock.HasZone, SuperBlock.zoneBit, hset]
      refine and_congr_right fun hn => ?_
      rw [if_neg (by omega)]
  refine ⟨h.setSuper hs (hok.setZmap hm ?_) (fun _ => Iff.rfl) fun z' b hz' hnot _ => ?_, hzones⟩
  · rw [hset, if_neg (by omega)]
    exact hok.zbit
  · refine absurd ?_ hnot
    rw [hzones]
    split
    · exact Set.mem_insert_of_mem _ hz'
    · exact hz'

theorem Consistent.newBlock (h : Consistent s) (hs : s.super dev = some sb)
    (io : Words × Option (ℕ × ℕ)) :
    ∃ s' z, Bitmap.newBlock dev io s = .ok (s', z) ∧ Consistent s' ∧
      (z = 0 ∧ NoZone s dev s' ∨ NewZone s dev z s') := by
  have hok := h.ok dev sb hs
  have hfirst := hok.first
  have hsearch := search_map sb.zmap
  rw [Bitmap.newBlock, hs]
  dsimp only
  -- the bits of all zones are set, where the first that is clear has none
  have hfull : ∀ b, (∀ k < b, mapBit sb.zmap k = true) → sb.nzones ≤ b + sb.firstdatazone - 1 →
      ∀ z, (dev, z) ∈ s.allZones → (dev, z) ∈ s.zones := by
    intro b hb hn z hz
    have hz' := (mem_such hs).mp hz
    refine (mem_such hs).mpr ⟨hz', hb _ ?_⟩
    have h1 := hz'.1
    have h2 := hz'.2
    omega
  have hcover : sb.nzones ≤ 8 * 8192 + sb.firstdatazone - 1 := by
    by_contra hgt
    have hz : sb.HasZone (8 * 8192 + sb.firstdatazone - 1) := ⟨by omega, by omega⟩
    have hsome := hok.zcover _ hz
    rw [show (8 * 8192 + sb.firstdatazone - 1 - (sb.firstdatazone - 1)) / 8192 = 8 by omega,
      hok.zslots 8 le_rfl] at hsome
    cases hsome
  generalize findMap sb.zmap 8 0 none 8192 = r at hsearch
  cases hsearch with
  | @full bh j hbh hall =>
    have hno : NoZone s dev s := ⟨hfull _ hall hcover, rfl, rfl⟩
    cases bh with
    | none => exact ⟨s, 0, rfl, h, Or.inl ⟨rfl, hno⟩⟩
    | some m => exact ⟨s, 0, rfl, h, Or.inl ⟨rfl, hno⟩⟩
  | @found i j m hi hm hj hbit hall =>
    obtain ⟨z, hz⟩ : ∃ z, z = j + i * 8192 + sb.firstdatazone - 1 := ⟨_, rfl⟩
    obtain ⟨hcons, hzones⟩ := h.setZone hs hm hj hbit hz
    have hinodes : (s.setSuper dev { sb with
        zmap := Function.update sb.zmap i (some ⟨m.data.setBit j, true⟩) }).inodes = s.inodes :=
      such_setSuper_of_iff hs fun _ => Iff.rfl
    have hpos := clear_pos hok.zbit hm hj hbit
    have hbuffer : (s.setSuper dev { sb with
        zmap := Function.update sb.zmap i (some ⟨m.data.setBit j, true⟩) }).buffer = s.buffer := rfl
    dsimp only
    rw [if_neg (by omega), hbit, if_neg Bool.false_ne_true, ← hz]
    by_cases hlt : sb.nzones ≤ z
    · rw [if_pos hlt]
      rw [if_neg (by omega)] at hzones
      exact ⟨_, 0, rfl, hcons, Or.inl ⟨rfl, hfull _ hall (by omega), hzones, hinodes⟩⟩
    · rw [if_pos (by omega)] at hzones
      have hhas : sb.HasZone z := ⟨by omega, by omega⟩
      have hmem : (dev, z) ∈ s.allZones := (mem_such hs).mpr hhas
      have hfresh : (dev, z) ∉ s.zones := by
        intro hin
        have hb := ((mem_such hs).mp hin).2
        rw [SuperBlock.zoneBit, show z - (sb.firstdatazone - 1) = i * 8192 + j by omega,
          mapBit_block hm hj, hbit] at hb
        cases hb
      generalize s.setSuper dev _ = s₁ at hcons hzones hinodes hbuffer ⊢
      have hcount : (s₁.getblk (dev, z) io).2.count = 1 :=
        getblk_count fun b hb => h.unused _ b hmem hfresh (hbuffer ▸ hb)
      rw [if_neg hlt, if_neg (by rw [hcount]; decide)]
      refine ⟨_, z, rfl, ?_, Or.inr ⟨hmem, hfresh, ?_, ?_, setBuffer_self⟩⟩
      · refine hcons.cache (getblk_super _) fun k b hk hnot hb => ?_
        have hkz : k ≠ (dev, z) := by
          rintro rfl
          exact hnot (hzones ▸ Set.mem_insert _ _)
        rw [setBuffer_of_ne hkz] at hb
        exact hcons.unused k b hk hnot (getblk_buffer hkz hb)
      · exact (getblk_such _).trans hzones
      · exact (getblk_such _).trans hinodes

/-- **The bit of an allocated zone is cleared.** -/
theorem Consistent.clear (h : Consistent s) (hs : s.super dev = some sb) (hz : (dev, z) ∈ s.zones)
    (hunused : ∀ b, s.buffer (dev, z) = some b → b.count = 0) :
    ∃ s', freeBlock.clear dev sb (z - (sb.firstdatazone - 1)) s = .ok s' ∧ Consistent s' ∧
      s'.zones = s.zones \ {(dev, z)} ∧ s'.inodes = s.inodes := by
  have hok := h.ok dev sb hs
  have hfirst := hok.first
  obtain ⟨hhas, hbit⟩ := (mem_such hs).mp hz
  have hle := hhas.1
  obtain ⟨m, hm⟩ := Option.isSome_iff_exists.mp (hok.zcover z hhas)
  rw [SuperBlock.zoneBit, mapBit, hm] at hbit
  dsimp only at hbit
  have hclear := mapBit_clearBit hm
    (Nat.mod_lt (z - (sb.firstdatazone - 1)) (by decide : 0 < 8192))
  rw [Nat.div_add_mod'] at hclear
  have hzones : (s.setSuper dev { sb with
      zmap := Function.update sb.zmap ((z - (sb.firstdatazone - 1)) / 8192)
        (some ⟨m.data.clearBit ((z - (sb.firstdatazone - 1)) % 8192), true⟩) }).zones =
      s.zones \ {(dev, z)} := by
    refine such_setSuper_diff hs fun n => ?_
    simp only [SuperBlock.zoneBit, hclear]
    by_cases hn : n = z
    · simp [hn]
    · refine Iff.trans (and_congr_right fun hhas' => ?_) (and_iff_right hn).symm
      have hle' : sb.firstdatazone ≤ n := And.left hhas'
      rw [if_neg (by omega)]
  refine ⟨_, ?_, h.setSuper hs (hok.setZmap hm ?_) (fun _ => Iff.rfl) ?_, hzones,
    such_setSuper_of_iff hs fun _ => Iff.rfl⟩
  · rw [freeBlock.clear, hm]
    dsimp only
    rw [if_pos hbit]
  · rw [hclear, if_neg (by omega)]
    exact hok.zbit
  · intro z' b hz' hnot hb
    rw [hzones] at hnot
    have hzz : (dev, z') = (dev, z) := by
      by_contra hne
      exact hnot ⟨hz', hne⟩
    exact hunused b (hzz ▸ hb)

theorem Consistent.freeBlock (h : Consistent s) (hz : (dev, z) ∈ s.zones) :
    ∃ s', Bitmap.freeBlock dev z s = .ok s' ∧ Consistent s' ∧ FreedZone s dev z s' := by
  obtain ⟨sb, hs, hhas, -⟩ := id hz
  have hhas' : ¬(z < sb.firstdatazone ∨ sb.nzones ≤ z) := by
    have h1 : sb.firstdatazone ≤ z := And.left hhas
    have h2 : z < sb.nzones := And.right hhas
    omega
  rw [Bitmap.freeBlock, hs]
  dsimp only
  rw [if_neg hhas']
  cases hb : s.buffer (dev, z) with
  | none =>
    have hnone : ∀ b, s.buffer (dev, z) = some b → b.count = 0 := by
      intro b hb'
      cases hb.symm.trans hb'
    obtain ⟨s', heq, hcons, hzones, hinodes⟩ := h.clear hs hz hnone
    refine ⟨s', heq, hcons, ?_, hinodes⟩
    rw [if_neg (by rintro ⟨b, hb', -⟩; cases hb.symm.trans hb')]
    exact hzones
  | some b =>
    dsimp only
    by_cases hc : b.count = 0
    · -- the buffer is given back clean, and what it had is forgotten
      rw [if_neg (by rw [hc]; decide)]
      have hcons : Consistent (s.setBuffer (dev, z)
          (some { b with dirt := false, uptodate := false })) := by
        refine h.cache rfl fun k b' hk hnot hb' => ?_
        have hkz : k ≠ (dev, z) := fun hkz => hnot (hkz ▸ hz)
        rw [setBuffer_of_ne hkz] at hb'
        exact h.unused k b' hk hnot hb'
      obtain ⟨s', heq, hcons', hzones, hinodes⟩ := hcons.clear hs hz fun b' hb' => by
        rw [setBuffer_self] at hb'
        obtain rfl := Option.some.inj hb'
        exact hc
      refine ⟨s', heq, hcons', ?_, hinodes⟩
      rw [if_neg]
      · exact hzones
      · rintro ⟨b', hb', hne⟩
        exact hne (Option.some.inj (hb.symm.trans hb') ▸ hc)
    · rw [if_pos (by omega)]
      refine ⟨_, rfl, h.cache rfl fun k b' hk hnot hb' => ?_, ?_, rfl⟩
      · have hkz : k ≠ (dev, z) := fun hkz => hnot (hkz ▸ hz)
        rw [setBuffer_of_ne hkz] at hb'
        exact h.unused k b' hk hnot hb'
      · rw [if_pos ⟨b, hb, hc⟩]
        rfl

/-! ### `new_inode` and `free_inode` -/

/-- **`new_inode` has no inode to give.** -/
structure NoInode (s : State) (dev : ℕ) (s' : State) : Prop where
  full : ∀ n, (dev, n) ∈ s.such SuperBlock.HasInode → (dev, n) ∈ s.inodes
  zones : s'.zones = s.zones
  inodes : s'.inodes = s.inodes

/-- **`new_inode` gives an inode**, with its number, one link and the user's ids. -/
structure NewInode (s : State) (dev : ℕ) (env : Env) (r : Inode) (s' : State) : Prop where
  mem : (dev, r.num) ∈ s.such SuperBlock.HasInode
  fresh : (dev, r.num) ∉ s.inodes
  inodes : s'.inodes = insert (dev, r.num) s.inodes
  zones : s'.zones = s.zones
  fields : r = ⟨dev, r.num, 1, 1, env.euid, env.egid, env.time, env.time, env.time, true⟩

/-- **`free_inode` gives the inode back**, and its slot in the table is empty. -/
structure FreedInode (s : State) (inode : Inode) (s' : State) (r : Inode) : Prop where
  inodes : s'.inodes = s.inodes \ {(inode.dev, inode.num)}
  zones : s'.zones = s.zones
  empty : r = .zero

theorem Consistent.newInode (h : Consistent s) (hs : s.super dev = some sb) (env : Env) :
    ∃ s' r, Bitmap.newInode dev env s = .ok (s', r) ∧ Consistent s' ∧
      (r = none ∧ NoInode s dev s' ∨ ∃ inode, r = some inode ∧ NewInode s dev env inode s') := by
  have hok := h.ok dev sb hs
  have hsearch := search_map sb.imap
  rw [Bitmap.newInode, hs]
  dsimp only
  have hfull : ∀ b, (∀ k < b, mapBit sb.imap k = true) → sb.ninodes < b →
      ∀ n, (dev, n) ∈ s.such SuperBlock.HasInode → (dev, n) ∈ s.inodes := by
    intro b hb hlt n hn
    have hn' := (mem_such hs).mp hn
    refine (mem_such hs).mpr ⟨hn', hb n ?_⟩
    exact lt_of_le_of_lt hn'.2 hlt
  have hcover : sb.ninodes < 8 * 8192 := by
    by_contra hge
    have hn : sb.HasInode (8 * 8192) := ⟨by omega, by omega⟩
    have hsome := hok.icover _ hn
    rw [show 8 * 8192 / 8192 = 8 by omega, hok.islots 8 le_rfl] at hsome
    cases hsome
  generalize findMap sb.imap 8 0 none 8192 = r at hsearch
  cases hsearch with
  | @full bh j hbh hall =>
    have hno : NoInode s dev s := ⟨hfull _ hall hcover, rfl, rfl⟩
    cases bh with
    | none => exact ⟨s, none, rfl, h, Or.inl ⟨rfl, hno⟩⟩
    | some m =>
      have hj : 8192 ≤ j := hbh.resolve_left (Option.some_ne_none m)
      refine ⟨s, none, ?_, h, Or.inl ⟨rfl, hno⟩⟩
      dsimp only
      rw [if_pos (Or.inl hj)]
  | @found i j m hi hm hj hbit hall =>
    have hpos := clear_pos hok.ibit hm hj hbit
    dsimp only
    by_cases hlt : sb.ninodes < j + i * 8192
    · rw [if_pos (Or.inr hlt)]
      exact ⟨s, none, rfl, h, Or.inl ⟨rfl, hfull _ hall (by omega), rfl, rfl⟩⟩
    · rw [if_neg (by omega), hbit, if_neg Bool.false_ne_true]
      have hset := mapBit_setBit hm hj
      have hhas : sb.HasInode (j + i * 8192) := ⟨by omega, by omega⟩
      have hzones : (s.setSuper dev { sb with
          imap := Function.update sb.imap i (some ⟨m.data.setBit j, true⟩) }).zones = s.zones :=
        such_setSuper_of_iff hs fun _ => Iff.rfl
      refine ⟨_, _, rfl, h.setSuper hs (hok.setImap hm ?_) (fun _ => Iff.rfl)
        (fun z b hz hnot _ => absurd (hzones ▸ hz) hnot),
        Or.inr ⟨_, rfl, (mem_such hs).mpr hhas, ?_, ?_, hzones, rfl⟩⟩
      · rw [hset, if_neg (by omega)]
        exact hok.ibit
      · intro hin
        have hb := ((mem_such hs).mp hin).2
        rw [show j + i * 8192 = i * 8192 + j by omega, mapBit_block hm hj, hbit] at hb
        cases hb
      · refine such_setSuper_insert hs fun n => ?_
        simp only [hset]
        by_cases hn : n = j + i * 8192
        · subst hn
          rw [if_pos (by omega)]
          exact iff_of_true ⟨hhas, rfl⟩ (Or.inl rfl)
        · rw [if_neg (by omega), or_iff_right hn]
          exact Iff.rfl

theorem Consistent.freeInode {inode : Inode} (h : Consistent s)
    (hn : (inode.dev, inode.num) ∈ s.inodes) (hcount : inode.count ≤ 1)
    (hlinks : inode.nlinks = 0) :
    ∃ s' r, Bitmap.freeInode inode s = .ok (s', r) ∧ Consistent s' ∧
      FreedInode s inode s' r := by
  obtain ⟨sb, hs, hhas, hbit⟩ := id hn
  dsimp only at hs hhas hbit
  have hok := h.ok _ sb hs
  have hdev : inode.dev ≠ 0 := by
    intro hzero
    rw [hzero, h.nodev] at hs
    cases hs
  obtain ⟨m, hm⟩ := Option.isSome_iff_exists.mp (hok.icover _ hhas)
  have hclear := mapBit_clearBit hm (Nat.mod_lt inode.num (by decide : 0 < 8192))
  rw [Nat.div_add_mod'] at hclear
  have h1 : 1 ≤ inode.num := And.left hhas
  have h2 : inode.num ≤ sb.ninodes := And.right hhas
  have hzones : (s.setSuper inode.dev { sb with
      imap := Function.update sb.imap (inode.num / 8192)
        (some ⟨m.data.clearBit (inode.num % 8192), true⟩) }).zones = s.zones :=
    such_setSuper_of_iff hs fun _ => Iff.rfl
  refine ⟨_, _, ?_, h.setSuper hs (hok.setImap hm ?_) (fun _ => Iff.rfl)
    (fun z b hz hnot _ => absurd (hzones ▸ hz) hnot), ?_, hzones, rfl⟩
  · rw [Bitmap.freeInode, if_neg hdev, if_neg (by omega), if_neg (by omega), hs]
    dsimp only
    rw [if_neg (by omega), hm]
  · rw [hclear, if_neg (by omega)]
    exact hok.ibit
  · refine such_setSuper_diff hs fun n => ?_
    simp only [hclear]
    by_cases hne : n = inode.num
    · simp [hne]
    · rw [if_neg hne, and_iff_right hne]
      exact Iff.rfl

/-! ### What stays as it is -/

/-- How many inodes and zones there are, and where the zones begin. -/
def SuperBlock.shape (sb : SuperBlock) : ℕ × ℕ × ℕ := (sb.ninodes, sb.nzones, sb.firstdatazone)

/-- How many use the buffer of a block. -/
def State.counts (s : State) (k : ℕ × ℕ) : Option ℕ := (s.buffer k).map Buffer.count

/-- **No file system has another shape.** -/
def SameShape (s t : State) : Prop :=
  ∀ d, (t.super d).map SuperBlock.shape = (s.super d).map SuperBlock.shape

theorem sameShape_setSuper (hs : s.super dev = some sb) (h : sb'.shape = sb.shape) :
    SameShape s (s.setSuper dev sb') := by
  intro d
  rw [State.setSuper]
  dsimp only
  by_cases hd : d = dev
  · rw [hd, Function.update_self, hs, Option.map_some, Option.map_some, h]
  · rw [Function.update_of_ne hd]

theorem SameShape.allZones (h : SameShape s s') : s'.allZones = s.allZones := by
  ext ⟨d, z⟩
  have hd := h d
  constructor
  · rintro ⟨sb, hsb, hz⟩
    rw [hsb, Option.map_some] at hd
    obtain ⟨sb₀, hsb₀, hshape⟩ := Option.map_eq_some_iff.mp hd.symm
    obtain ⟨-, hn, hf⟩ := Prod.mk.inj hshape |>.imp_right Prod.mk.inj
    exact ⟨sb₀, hsb₀, by rwa [SuperBlock.HasZone, hf, hn]⟩
  · rintro ⟨sb, hsb, hz⟩
    rw [hsb, Option.map_some] at hd
    obtain ⟨sb₀, hsb₀, hshape⟩ := Option.map_eq_some_iff.mp hd
    obtain ⟨-, hn, hf⟩ := Prod.mk.inj hshape |>.imp_right Prod.mk.inj
    exact ⟨sb₀, hsb₀, by rwa [SuperBlock.HasZone, hf, hn]⟩

/-- **`new_block`** leaves the shape and the counts, and the zone it gives is the first one. -/
theorem newBlock_same (hall : ∀ k, (s.buffer k).isSome) (h : newBlock dev io s = .ok (s', z)) :
    SameShape s s' ∧ s'.counts = s.counts := by
  rw [newBlock] at h
  cases hs : s.super dev with
  | none =>
    rw [hs] at h
    cases h
  | some sb =>
    rw [hs] at h
    dsimp only at h
    split at h
    · obtain ⟨rfl, -⟩ := Prod.mk.inj (Except.ok.inj h)
      exact ⟨fun _ => rfl, rfl⟩
    · next i m j hfind =>
      split_ifs at h with h1 h2 h3 h4
      · obtain ⟨rfl, -⟩ := Prod.mk.inj (Except.ok.inj h)
        exact ⟨fun _ => rfl, rfl⟩
      · obtain ⟨rfl, -⟩ := Prod.mk.inj (Except.ok.inj h)
        exact ⟨sameShape_setSuper hs rfl, rfl⟩
      · obtain ⟨rfl, -⟩ := Prod.mk.inj (Except.ok.inj h)
        generalize hs₁ : s.setSuper dev _ = s₁ at *
        have hbuffer : s₁.buffer = s.buffer := hs₁ ▸ rfl
        have hshape : SameShape s s₁ := hs₁ ▸ sameShape_setSuper hs rfl
        generalize j + i * 8192 + sb.firstdatazone - 1 = z at *
        obtain ⟨b, hb⟩ := Option.isSome_iff_exists.mp (hall (dev, z))
        rw [← hbuffer] at hb
        rw [State.getblk, hb] at h4 ⊢
        refine ⟨fun d => hshape d, funext fun k => ?_⟩
        rw [State.counts, State.counts, ← hbuffer]
        by_cases hk : k = (dev, z)
        · rw [hk, setBuffer_self, hb]
          dsimp only at h4
          exact congrArg some (by dsimp only; omega)
        · rw [setBuffer_of_ne hk, setBuffer_of_ne hk]

/-- **The zone that `new_block` gives** is the first that is free. -/
theorem newBlock_first (h : Consistent s) (hrun : newBlock dev io s = .ok (s', z)) (hz : z ≠ 0)
    (hlt : k < z) (hk : (dev, k) ∈ s.allZones) : (dev, k) ∈ s.zones := by
  obtain ⟨sb, hs, hhas⟩ := id hk
  have hfirst := (h.ok dev sb hs).first
  have hhas' : sb.firstdatazone ≤ k := And.left hhas
  refine ⟨sb, hs, hhas, ?_⟩
  have hsearch := search_map sb.zmap
  rw [newBlock, hs] at hrun
  dsimp only at hrun
  generalize findMap sb.zmap 8 0 none 8192 = r at hsearch hrun
  cases hsearch with
  | @full bh j hbh hall =>
    cases bh with
    | none => exact absurd (Prod.mk.inj (Except.ok.inj hrun)).2.symm hz
    | some m => exact absurd (Prod.mk.inj (Except.ok.inj hrun)).2.symm hz
  | @found i j m hi hm hj hbit hall =>
    dsimp only at hrun
    split_ifs at hrun
    · exact absurd (Prod.mk.inj (Except.ok.inj hrun)).2.symm hz
    · exact absurd (Prod.mk.inj (Except.ok.inj hrun)).2.symm hz
    · have hz' := (Prod.mk.inj (Except.ok.inj hrun)).2
      refine hall _ ?_
      dsimp only
      omega

/-- **`free_block`** leaves the shape, and the count of a buffer that is in use grows. -/
theorem freeBlock_same (h : freeBlock dev z s = .ok s') : SameShape s s' ∧
    ∀ k, s'.counts k = (s.counts k).map fun c => if k = (dev, z) ∧ c ≠ 0 then c + 1 else c := by
  have hclear : ∀ {sb n s₁ s'}, s₁.super dev = some sb →
      freeBlock.clear dev sb n s₁ = .ok s' → SameShape s₁ s' ∧ s'.buffer = s₁.buffer := by
    intro sb n s₁ s' hs hrun
    rw [freeBlock.clear] at hrun
    split at hrun
    · cases hrun
    · split_ifs at hrun
      obtain rfl := Except.ok.inj hrun
      exact ⟨sameShape_setSuper hs rfl, rfl⟩
  have hother : ∀ (o : Option Buffer) k, k ≠ (dev, z) → o.map Buffer.count =
      (o.map Buffer.count).map fun c => if k = (dev, z) ∧ c ≠ 0 then c + 1 else c := by
    intro o k hk
    cases o with
    | none => rfl
    | some b => exact congrArg some (if_neg fun h => hk h.1).symm
  rw [freeBlock] at h
  cases hs : s.super dev with
  | none =>
    rw [hs] at h
    cases h
  | some sb =>
    rw [hs] at h
    dsimp only at h
    split_ifs at h
    cases hb : s.buffer (dev, z) with
    | none =>
      rw [hb] at h
      obtain ⟨hshape, hbuffer⟩ := hclear hs h
      refine ⟨hshape, fun k => ?_⟩
      rw [State.counts, State.counts, hbuffer]
      by_cases hk : k = (dev, z)
      · rw [hk, hb]
        rfl
      · exact hother _ k hk
    | some b =>
      rw [hb] at h
      dsimp only at h
      split_ifs at h with hc
      · obtain rfl := Except.ok.inj h
        refine ⟨fun _ => rfl, fun k => ?_⟩
        rw [State.counts, State.counts]
        by_cases hk : k = (dev, z)
        · rw [hk, setBuffer_self, hb]
          simp only [Option.map_some]
          rw [if_pos ⟨trivial, by omega⟩]
        · rw [setBuffer_of_ne hk]
          exact hother _ k hk
      · obtain ⟨hshape, hbuffer⟩ := @hclear _ _ (s.setBuffer (dev, z) _) _ hs h
        refine ⟨hshape, fun k => ?_⟩
        rw [State.counts, State.counts, hbuffer]
        by_cases hk : k = (dev, z)
        · rw [hk, setBuffer_self, hb]
          simp only [Option.map_some]
          rw [if_neg fun h => h.2 (by omega)]
        · rw [setBuffer_of_ne hk]
          exact hother _ k hk

theorem newInode_same {r : Option Inode} (h : newInode dev env s = .ok (s', r)) :
    SameShape s s' ∧ s'.buffer = s.buffer := by
  rw [newInode] at h
  cases hs : s.super dev with
  | none =>
    rw [hs] at h
    cases h
  | some sb =>
    rw [hs] at h
    dsimp only at h
    split at h
    · obtain ⟨rfl, -⟩ := Prod.mk.inj (Except.ok.inj h)
      exact ⟨fun _ => rfl, rfl⟩
    · split_ifs at h
      · obtain ⟨rfl, -⟩ := Prod.mk.inj (Except.ok.inj h)
        exact ⟨fun _ => rfl, rfl⟩
      · obtain ⟨rfl, -⟩ := Prod.mk.inj (Except.ok.inj h)
        exact ⟨sameShape_setSuper hs rfl, rfl⟩

theorem freeInode_same {inode r : Inode} (h : freeInode inode s = .ok (s', r)) :
    SameShape s s' ∧ s'.buffer = s.buffer := by
  rw [freeInode] at h
  split_ifs at h
  · obtain ⟨rfl, -⟩ := Prod.mk.inj (Except.ok.inj h)
    exact ⟨fun _ => rfl, rfl⟩
  · cases hs : s.super inode.dev with
    | none =>
      rw [hs] at h
      cases h
    | some sb =>
      rw [hs] at h
      dsimp only at h
      split_ifs at h
      split at h
      · cases h
      · obtain ⟨rfl, -⟩ := Prod.mk.inj (Except.ok.inj h)
        exact ⟨sameShape_setSuper hs rfl, rfl⟩

/-! ### Every run -/

/-- **A step**: one of the four calls, that frees only what is allocated; or others use the cache,
for blocks that are allocated. -/
inductive Step (s : State) : State → Prop
  | newBlock {s' : State} {z : ℕ} (dev : ℕ) (io : Words × Option (ℕ × ℕ))
    (h : Bitmap.newBlock dev io s = .ok (s', z)) : Step s s'
  | freeBlock {s' : State} {dev z : ℕ} (hz : (dev, z) ∈ s.zones)
    (h : Bitmap.freeBlock dev z s = .ok s') : Step s s'
  | newInode {s' : State} {r : Option Inode} (dev : ℕ) (env : Env)
    (h : Bitmap.newInode dev env s = .ok (s', r)) : Step s s'
  | freeInode {s' : State} {inode r : Inode} (hn : (inode.dev, inode.num) ∈ s.inodes)
    (hcount : inode.count ≤ 1) (hlinks : inode.nlinks = 0)
    (h : Bitmap.freeInode inode s = .ok (s', r)) : Step s s'
  | cache {buffer : ℕ × ℕ → Option Buffer}
    (h : ∀ k b, k ∈ s.allZones → k ∉ s.zones → buffer k = some b → b.count = 0) :
    Step s { s with buffer := buffer }

theorem Consistent.step (h : Consistent s) (hstep : Step s s') : Consistent s' := by
  cases hstep with
  | @newBlock _ z dev io hnew =>
    cases hs : s.super dev with
    | none =>
      rw [Bitmap.newBlock, hs] at hnew
      cases hnew
    | some sb =>
      obtain ⟨s₁, z₁, heq, hcons, -⟩ := h.newBlock hs io
      rw [heq] at hnew
      cases hnew
      exact hcons
  | freeBlock hz hfree =>
    obtain ⟨s₁, heq, hcons, -⟩ := h.freeBlock hz
    rw [heq] at hfree
    cases hfree
    exact hcons
  | @newInode _ r dev env hnew =>
    cases hs : s.super dev with
    | none =>
      rw [Bitmap.newInode, hs] at hnew
      cases hnew
    | some sb =>
      obtain ⟨s₁, r₁, heq, hcons, -⟩ := h.newInode hs env
      rw [heq] at hnew
      cases hnew
      exact hcons
  | freeInode hn hcount hlinks hfree =>
    obtain ⟨s₁, r₁, heq, hcons, -⟩ := h.freeInode hn hcount hlinks
    rw [heq] at hfree
    cases hfree
    exact hcons
  | cache hb => exact h.cache rfl hb

/-- A file system with two zones and one inode, all free. -/
def empty : State :=
  ⟨Function.update (fun _ => none) 1
    (some ⟨1, 6, 4, fun i => if i = 0 then some ⟨⟨fun _ => 1#32⟩, false⟩ else none,
      fun i => if i = 0 then some ⟨⟨fun _ => 1#32⟩, false⟩ else none⟩), fun _ => none⟩

end Linux011.Fs.Bitmap

import Linux011.Fs.Bmap
import Linux011.Fs.Confined
import Mathlib.Data.List.Find
import Mathlib.Data.List.GetD

/-!
# The entries of a directory

`match`, `find_entry` and `add_entry` of `fs/namei.c`, on the blocks of a directory: 64 entries are
in a block, each of them the number of an inode and fourteen bytes for a name.

The entry `i` of a directory is in slot `i % 64` of the zone of block `i / 64`. What `find_entry`
finds is the first entry that matches (`Linux011.Fs.Directory.findEntry_eq`), and so a lookup is the
one that is known from paths (`Linux011.Fs.Directory.findEntry_eq_scan`). `add_entry` takes a free
entry or the one behind the last, for which it may have to create a block, and leaves the others as
they are. So a directory is a map from names of fourteen bytes
(`Linux011.Fs.Directory.directory_map`).
-/

namespace Linux011.Fs.Directory

open Bmap

/-! ### `match`, `find_entry` and `add_entry` -/

/-- A pointer to an entry: the zone that it is in, and which one there. -/
abbrev Pointer := ℕ × ℕ

/-- `de->inode` -/
def ino (s : State) (e : Pointer) : ℕ := s.word e.1 (8 * e.2)

/-- `de->name[j]` -/
def nameByte (s : State) (e : Pointer) (j : ℕ) : UInt8 := s.data e.1 (16 * e.2 + 2 + j)

/-- A store to `de->inode`. -/
def setIno (s : State) (e : Pointer) (v : ℕ) : State := s.setWord e.1 (8 * e.2) v

/-- `match`, on the first `len` bytes of the name. -/
def isMatch (len : ℕ) (name : List UInt8) (s : State) (e : Pointer) : Bool :=
  if ino s e = 0 ∨ 14 < len then false
  else if len < 14 ∧ nameByte s e len ≠ 0 then false
  else (List.range len).all fun j => name.getD j 0 == nameByte s e j

/-- **The loop of `find_entry`**, with `n` rounds to go: `de` is entry `o` of zone `b`. -/
def findLoop (entries len : ℕ) (name : List UInt8) (s : State) :
    ℕ → ℕ → ℕ → ℕ → Except String (Option Pointer)
  | 0, _, _, _ => .ok none
  | n + 1, i, b, o =>
    if entries ≤ i then .ok none
    else if 64 ≤ o then
      match bmap (fun _ => none) false (i / 64) s with
      | .error e => .error e
      | .ok (z, _) =>
        if z = 0 ∨ s.readable z = false then findLoop entries len name s n (i + 64) b o
        else if isMatch len name s (z, 0) then .ok (some (z, 0))
        else findLoop entries len name s n (i + 1) z 1
    else if isMatch len name s (b, o) then .ok (some (b, o))
    else findLoop entries len name s n (i + 1) b (o + 1)

/-- **`find_entry`**, for a name that is not `..` -/
def findEntry (name : List UInt8) (s : State) : Except String (Option Pointer) :=
  let len := min name.length 14
  if len = 0 then .ok none
  else if s.zone 0 = 0 ∨ s.readable (s.zone 0) = false then .ok none
  else findLoop (s.size / 16) len name s (s.size / 16) 0 (s.zone 0) 0

/-- The name is stored in an entry, with zeros behind it. -/
def setName (name : List UInt8) (s : State) (e : Pointer) : State :=
  { s with
    data := Function.update s.data e.1 fun x =>
      if x / 16 = e.2 ∧ 2 ≤ x % 16 then (name.take 14).getD (x % 16 - 2) 0 else s.data e.1 x }

/-- Behind the last entry there is one more, which is free. -/
def extend (i : ℕ) (s : State) (e : Pointer) : State :=
  if s.size ≤ 16 * i then { setIno s e 0 with size := 16 * (i + 1) } else s

/-- **The loop of `add_entry`**, with `n` rounds to go. -/
def addLoop (pick : Pick) (name : List UInt8) :
    ℕ → ℕ → ℕ → ℕ → State → Except String (Option Pointer × State)
  | 0, _, _, _, _ => .error "_bmap: block>big"
  | n + 1, i, b, o, s =>
    if 64 ≤ o then
      match bmap pick true (i / 64) s with
      | .error e => .error e
      | .ok (z, s) =>
        if z = 0 then .ok (none, s)
        else if s.readable z = false then addLoop pick name n (i + 64) b o s
        else
          let s := extend i s (z, 0)
          if ino s (z, 0) = 0 then .ok (some (z, 0), setName name s (z, 0))
          else addLoop pick name n (i + 1) z 1 s
    else
      let s := extend i s (b, o)
      if ino s (b, o) = 0 then .ok (some (b, o), setName name s (b, o))
      else addLoop pick name n (i + 1) b (o + 1) s

/-- **`add_entry`.** Each round is for another entry, so that the loop comes to an end. -/
def addEntry (pick : Pick) (name : List UInt8) (s : State) :
    Except String (Option Pointer × State) :=
  if min name.length 14 = 0 then .ok (none, s)
  else if s.zone 0 = 0 ∨ s.readable (s.zone 0) = false then .ok (none, s)
  else addLoop pick name (64 * maxBlock + 1) 0 (s.zone 0) 0 s

/-! ### Directories -/

/-- **A directory**: its size is that of so many entries, and it has no holes. -/
structure Dir (s : State) : Prop extends Sound s where
  size : s.size % 16 = 0
  whole : ∀ k, 1024 * k < s.size → k < maxBlock ∧ s.at (.ofBlock k) ≠ 0

/-- Entry `i`. -/
def slot (s : State) (i : ℕ) : Pointer := (s.at (.ofBlock (i / 64)), i % 64)

/-- **A name**, other than `..` -/
structure Name where
  bytes : List UInt8
  ne_nil : bytes ≠ []
  no_zero : (0 : UInt8) ∉ bytes
  ne_dotdot : bytes ≠ dotdot

/-- The bytes of a name that count. -/
def Name.key (n : Name) : List UInt8 := n.bytes.take 14

/-- **What a name stands for**: its entry, and the number of the inode in it. -/
def lookup (n : Name) (s : State) : Except String (Option (Pointer × ℕ)) :=
  (findEntry n.bytes s).map fun r => r.map fun e => (e, ino s e)

/-- An entry has this name. -/
def Has (s : State) (i : ℕ) (n : Name) : Prop :=
  isMatch (min n.bytes.length 14) n.bytes s (slot s i) = true

instance (s : State) (i : ℕ) (n : Name) : Decidable (Has s i n) :=
  inferInstanceAs (Decidable (_ = _))

/-- **No two entries have the same name.** -/
def Distinct (s : State) : Prop :=
  ∀ n i j, i < s.size / 16 → j < s.size / 16 → Has s i n → Has s j n → i = j

variable {s t : State} {pick : Pick} {n m : Name} {name : List UInt8} {e : Pointer}
  {i j k b o z v len entries : ℕ}

/-! ### The loop of `find_entry` -/

/-- **Where the loop is**: at entry `i`, or behind the last one of a block. -/
structure Cursor (s : State) (i b o : ℕ) : Prop where
  le : o ≤ 64
  inside : o < 64 → slot s i = (b, o)
  there : o < 64 → b ≠ 0
  block : o < 64 → i / 64 < maxBlock
  edge : o = 64 → i % 64 = 0

theorem Cursor.next (h : Cursor s i b o) (ho : o < 64) : Cursor s (i + 1) b (o + 1) := by
  obtain ⟨hzone, hslot⟩ := Prod.mk.inj (h.inside ho)
  have hblock := h.block ho
  refine ⟨ho, fun ho' => ?_, fun _ => h.there ho, fun ho' => by omega, fun ho' => by omega⟩
  rw [slot, ← hzone]
  refine Prod.ext ?_ ?_
  · dsimp only
    rw [show (i + 1) / 64 = i / 64 by omega]
  · dsimp only
    omega

/-- The first entry of a block. -/
theorem cursor_block (hi : i % 64 = 0) (hlt : i / 64 < maxBlock)
    (hne : s.at (.ofBlock (i / 64)) ≠ 0) : Cursor s i (s.at (.ofBlock (i / 64))) 0 :=
  ⟨by decide, fun _ => by rw [slot, hi], fun _ => hne, fun _ => hlt, fun h => by cases h⟩

/-- The block of an entry is there. -/
theorem Dir.block (h : Dir s) (hi : i < s.size / 16) :
    i / 64 < maxBlock ∧ s.at (.ofBlock (i / 64)) ≠ 0 := h.whole (i / 64) (by omega)

theorem Dir.readable_block (h : Dir s) (hi : i < s.size / 16) :
    s.readable (s.at (.ofBlock (i / 64))) = true := by
  obtain ⟨hlt, hne⟩ := h.block hi
  exact h.readable _ (Spot.data_ofBlock hlt).1 hne

/-- **The loop finds the first entry that matches**: the induction is on the rounds. -/
theorem findLoop_eq (h : Dir s) (hcur : Cursor s i b o) (hn : s.size / 16 ≤ i + k) :
    findLoop (s.size / 16) len name s k i b o =
      .ok (((List.range' i (s.size / 16 - i)).find? fun i =>
        isMatch len name s (slot s i)).map (slot s)) := by
  induction k generalizing i b o with
  | zero =>
    rw [findLoop, show s.size / 16 - i = 0 by omega]
    rfl
  | succ k ih =>
    rw [findLoop]
    by_cases hi : s.size / 16 ≤ i
    · rw [if_pos hi, show s.size / 16 - i = 0 by omega]
      rfl
    rw [if_neg hi]
    rw [not_le] at hi
    have hrange : List.range' i (s.size / 16 - i) =
        i :: List.range' (i + 1) (s.size / 16 - (i + 1)) := by
      rw [show s.size / 16 - i = s.size / 16 - (i + 1) + 1 by omega, List.range'_succ]
    -- a round, when the loop is at the entry
    have hround : ∀ b o, o < 64 → Cursor s i b o →
        (if isMatch len name s (b, o) then Except.ok (some (b, o))
          else findLoop (s.size / 16) len name s k (i + 1) b (o + 1)) =
        .ok (((List.range' i (s.size / 16 - i)).find? fun i =>
          isMatch len name s (slot s i)).map (slot s)) := by
      intro b o ho hcur
      rw [hrange, List.find?_cons, hcur.inside ho]
      cases isMatch len name s (b, o) with
      | true =>
        rw [if_pos rfl, Option.map_some, hcur.inside ho]
      | false =>
        rw [if_neg Bool.false_ne_true]
        exact ih (hcur.next ho) (by omega)
    by_cases ho : 64 ≤ o
    · obtain ⟨hlt, hne⟩ := h.block hi
      have hread := h.readable_block hi
      rw [if_pos ho, bmap_spec h.toSound _ hlt]
      dsimp only
      rw [if_neg (not_or_intro hne (ne_false_of_eq_true hread))]
      exact hround _ 0 (by decide) (cursor_block (hcur.edge (le_antisymm hcur.le ho)) hlt hne)
    · rw [if_neg ho]
      exact hround b o (by omega) hcur

/-- **`find_entry` finds the first entry that has the name.** -/
theorem findEntry_eq (h : Dir s) (hname : name ≠ []) : findEntry name s =
    .ok (((List.range (s.size / 16)).find? fun i =>
      isMatch (min name.length 14) name s (slot s i)).map (slot s)) := by
  have hlen : min name.length 14 ≠ 0 := by
    have := List.length_pos_iff.mpr hname
    omega
  rw [findEntry, if_neg hlen]
  by_cases h0 : s.zone 0 = 0
  · have hsize : s.size = 0 := by
      by_contra hne
      exact (h.whole 0 (by omega)).2 h0
    rw [if_pos (Or.inl h0), hsize]
    rfl
  · have hread : s.readable (s.zone 0) = true := h.readable (.top 0) (by omega : 0 < 9) h0
    have hcur : Cursor s 0 (s.zone 0) 0 := cursor_block rfl (by decide) h0
    rw [if_neg (not_or_intro h0 (ne_false_of_eq_true hread)),
      findLoop_eq h hcur (by omega), List.range_eq_range']
    rfl

/-! ### The bytes of a directory -/

/-- **The inode as a lookup of a path sees it**, with the bytes of its blocks one after another. -/
def flat (inode : Inode) (s : State) : Inode :=
  { inode with
    size := s.size
    zone := fun k => if s.at (.ofBlock k) = 0 then .hole else
      if s.readable (s.at (.ofBlock k)) then .good else .bad
    data := fun x => s.data (s.at (.ofBlock (x / 1024))) (x % 1024) }

theorem data_flat (inode : Inode) (s : State) (i : ℕ) {y : ℕ} (hy : y < 16) :
    (flat inode s).data (16 * i + y) = s.data (slot s i).1 (16 * (slot s i).2 + y) := by
  rw [flat, slot]
  dsimp only
  rw [show (16 * i + y) / 1024 = i / 64 by omega,
    show (16 * i + y) % 1024 = 16 * (i % 64) + y by omega]

theorem ino_flat (inode : Inode) (s : State) (i : ℕ) :
    ino s (slot s i) = dirIno (flat inode s) i := by
  have h0 := data_flat inode s i (y := 0) (by decide)
  have h1 := data_flat inode s i (y := 1) (by decide)
  rw [dirIno, h1, ino, State.word]
  rw [Nat.add_zero, Nat.add_zero] at h0
  rw [h0, show 2 * (8 * (slot s i).2) = 16 * (slot s i).2 by omega]

theorem nameByte_flat (inode : Inode) (s : State) (i : ℕ) (hj : j < 14) :
    nameByte s (slot s i) j = dirName (flat inode s) i j := by
  have h2 := data_flat inode s i (y := 2 + j) (by omega)
  rw [nameByte, dirName, Nat.add_assoc, Nat.add_assoc, h2]

/-- **It is the `match` of a lookup.** -/
theorem isMatch_flat (inode : Inode) (hlen : len ≤ 14) :
    isMatch len name s (slot s i) = Fs.isMatch len name (flat inode s) i := by
  have hname : ∀ j, j < 14 → nameByte s (slot s i) j = dirName (flat inode s) i j :=
    fun j hj => nameByte_flat inode s i hj
  rw [isMatch, Fs.isMatch, ino_flat inode]
  have hall : ((List.range len).all fun j => name.getD j 0 == nameByte s (slot s i) j) =
      (List.range len).all fun j => name.getD j 0 == dirName (flat inode s) i j := by
    rw [Bool.eq_iff_iff, List.all_eq_true, List.all_eq_true]
    refine forall₂_congr fun j hj => ?_
    have hj := List.mem_range.mp hj
    rw [hname j (by omega)]
  have hend : len < 14 ∧ nameByte s (slot s i) len ≠ 0 ↔
      len < 14 ∧ dirName (flat inode s) i len ≠ 0 := by
    refine and_congr_right fun hlt => ?_
    rw [hname len hlt]
  rw [hall, if_congr hend rfl rfl]

/-- A directory that is whole is one for a lookup. -/
theorem Dir.good (h : Dir s) (inode : Inode) (hi : i < s.size / 16) :
    (flat inode s).zone (i / 64) = .good := by
  rw [flat]
  dsimp only
  rw [if_neg (h.block hi).2, if_pos (h.readable_block hi)]

/-- **`find_entry` is the search that a lookup of a path makes.** -/
theorem findEntry_eq_scan (h : Dir s) (inode : Inode) (hname : name ≠ []) : findEntry name s =
    .ok ((scan (s.size / 16) (min name.length 14) name (flat inode s)).map (slot s)) := by
  have hcongr : ((List.range (s.size / 16)).find? fun i =>
      isMatch (min name.length 14) name s (slot s i)) =
      scan (s.size / 16) (min name.length 14) name (flat inode s) := by
    rw [scan]
    by_cases h0 : s.size / 16 = 0
    · rw [h0]
      split_ifs <;> rfl
    · have hzero := h.good inode (i := 0) (by omega)
      rw [if_pos hzero]
      refine List.find?_congr fun i hi => ?_
      have hgood := h.good inode (List.mem_range.mp hi)
      rw [isMatch_flat inode (Nat.min_le_right _ _), hgood]
      simp
  rw [findEntry_eq h hname, hcongr]

/-! ### An entry is written -/

/-- **Nothing but an entry** has been written. -/
structure Wrote (s : State) (e : Pointer) (t : State) : Prop where
  zone : t.zone = s.zone
  used : t.used = s.used
  readable : t.readable = s.readable
  data : ∀ x y, x ≠ e.1 ∨ y / 16 ≠ e.2 → t.data x y = s.data x y

theorem Wrote.trans {u : State} (h : Wrote s e t) (h' : Wrote t e u) : Wrote s e u :=
  ⟨h'.zone.trans h.zone, h'.used.trans h.used, h'.readable.trans h.readable,
    fun x y hxy => (h'.data x y hxy).trans (h.data x y hxy)⟩

theorem wrote_setIno (s : State) (e : Pointer) (v : ℕ) : Wrote s e (setIno s e v) := by
  refine ⟨rfl, rfl, rfl, fun x y hxy => ?_⟩
  rw [setIno, State.setWord]
  dsimp only
  by_cases hx : x = e.1
  · have hy := hxy.resolve_left fun h => h hx
    rw [hx, Function.update_self, if_neg (by omega), if_neg (by omega)]
  · rw [Function.update_of_ne hx]

theorem wrote_setName (name : List UInt8) (s : State) (e : Pointer) :
    Wrote s e (setName name s e) := by
  refine ⟨rfl, rfl, rfl, fun x y hxy => ?_⟩
  rw [setName]
  dsimp only
  by_cases hx : x = e.1
  · have hy := hxy.resolve_left fun h => h hx
    rw [hx, Function.update_self, if_neg fun h => hy h.1]
  · rw [Function.update_of_ne hx]

theorem wrote_extend (i : ℕ) (s : State) (e : Pointer) : Wrote s e (extend i s e) := by
  rw [extend]
  split_ifs
  · obtain ⟨hz, hu, hr, hd⟩ := wrote_setIno s e 0
    exact ⟨hz, hu, hr, hd⟩
  · exact ⟨rfl, rfl, rfl, fun _ _ _ => rfl⟩

/-- **No zone is another one**, when what has been written is data: the induction is on the spot. -/
theorem Wrote.at (h : Wrote s e t) (hs : Sound s) {p : Spot} (hp : p.Data) (he : s.at p = e.1)
    (hne : s.at p ≠ 0) (q : Spot) (hq : q.Ok) : t.at q = s.at q := by
  induction q with
  | top k => exact congrFun h.zone k
  | under r j ih =>
    have ih := ih hq.1.ok
    by_cases h0 : s.at r = 0
    · rw [at_under_eq_zero h0, at_under_eq_zero (ih.trans h0)]
    · have hr : s.at r ≠ e.1 := by
        intro heq
        obtain rfl := hs.inj r p hq.1.ok hp.1 h0 (heq.trans he.symm)
        exact hp.2 hq.1
      rw [at_under h0, at_under (ih.symm ▸ h0), ih]
      exact word_congr (funext fun y => h.data _ y (Or.inl hr)) j

theorem Wrote.sound (h : Wrote s e t) (hs : Sound s) {p : Spot} (hp : p.Data) (he : s.at p = e.1)
    (hne : s.at p ≠ 0) : Sound t := by
  have hat := h.at hs hp he hne
  refine ⟨fun q q' hq hq' h0 heq => ?_, fun q hq h0 => ?_, fun q hq h0 => ?_⟩
  · rw [hat q hq] at h0 heq
    rw [hat q' hq'] at heq
    exact hs.inj q q' hq hq' h0 heq
  · rw [hat q hq] at h0 ⊢
    rw [h.used]
    exact hs.used q hq h0
  · rw [hat q hq] at h0 ⊢
    rw [h.readable]
    exact hs.readable q hq h0

/-- **What is written to a directory** is inside of it. -/
theorem Wrote.outside (h : Wrote s e t) (hs : Sound s) {p : Spot} (hp : p.Data)
    (he : s.at p = e.1) (hne : s.at p ≠ 0) : Outside s t :=
  ⟨fun x _ hno => funext fun y => h.data x y (Or.inl fun heq => hno p hp.1 (he.trans heq.symm)),
    fun x _ => congrFun h.readable x, fun x hx => (congrFun h.used x).trans hx,
    fun _ _ hno q hq => (h.at hs hp he hne q hq).symm ▸ hno q hq⟩

/-- **Two entries** are in two places. -/
theorem slot_ne (hs : Sound s) (hi : i / 64 < maxBlock) (hj : j / 64 < maxBlock)
    (hne : s.at (.ofBlock (i / 64)) ≠ 0) (hij : i ≠ j) :
    (slot s j).1 ≠ (slot s i).1 ∨ (slot s j).2 ≠ (slot s i).2 := by
  by_contra h
  rw [not_or, not_not, not_not] at h
  have hspot := hs.inj _ _ (Spot.data_ofBlock hi).1 (Spot.data_ofBlock hj).1 hne h.1.symm
  have hblock := Spot.ofBlock_inj hspot
  have hslot : j % 64 = i % 64 := h.2
  omega

/-! ### The loop of `add_entry` -/

/-- **Entry `i` has got a name**, and the others are what they were. -/
structure Added (name : List UInt8) (s : State) (e : Pointer) (t : State) (i : ℕ) : Prop where
  dir : Dir t
  le : i ≤ s.size / 16
  size : t.size = max s.size (16 * (i + 1))
  pointer : slot t i = e
  free : i < s.size / 16 → ino s (slot s i) = 0
  others : ∀ j < s.size / 16, j ≠ i → slot t j = slot s j ∧
    ∀ y < 16, t.data (slot s j).1 (16 * (slot s j).2 + y) =
      s.data (slot s j).1 (16 * (slot s j).2 + y)
  name : ∀ j < 14, nameByte t e j = (name.take 14).getD j 0

/-- The bytes of a name. -/
theorem nameByte_setName (name : List UInt8) (s : State) (e : Pointer) (hj : j < 14) :
    nameByte (setName name s e) e j = (name.take 14).getD j 0 := by
  rw [nameByte, setName]
  dsimp only
  rw [Function.update_self, if_pos (by omega)]
  congr 1
  omega

/-- **An entry is taken**, in a block that there is or that has just been created. -/
theorem added (h : Dir s) {u : State} (hu : Sound u) (hgrown : Grown s u)
    (hle : i ≤ s.size / 16) (hlt : i / 64 < maxBlock) (hne : u.at (.ofBlock (i / 64)) ≠ 0)
    (hfree : i < s.size / 16 → ino s (slot s i) = 0) :
    Added name s (slot u i) (setName name (extend i u (slot u i)) (slot u i)) i := by
  have hwrote := (wrote_extend i u (slot u i)).trans (wrote_setName name _ (slot u i))
  have hsize : (setName name (extend i u (slot u i)) (slot u i)).size =
      max s.size (16 * (i + 1)) := by
    have hmod := h.size
    rw [setName, extend, hgrown.size]
    dsimp only
    split_ifs with hcase
    · dsimp only
      omega
    · rw [hgrown.size]
      omega
  generalize hcall : setName name (extend i u (slot u i)) (slot u i) = t at hwrote hsize
  have hdata := Spot.data_ofBlock hlt
  have hat := hwrote.at hu hdata rfl hne
  have hkept : ∀ k, 1024 * k < s.size → t.at (.ofBlock k) = s.at (.ofBlock k) := by
    intro k hk
    obtain ⟨hklt, hkne⟩ := h.whole k hk
    have hok := (Spot.data_ofBlock hklt).1
    rw [hat _ hok, hgrown.kept _ hok hkne]
  refine ⟨⟨hwrote.sound hu hdata rfl hne, ?_, fun k hk => ?_⟩, hle, hsize, ?_, hfree,
    fun j hj hji => ?_, fun j hj => ?_⟩
  · have hmod := h.size
    rw [hsize]
    omega
  · by_cases hold : 1024 * k < s.size
    · rw [hkept k hold]
      exact h.whole k hold
    · obtain rfl : k = i / 64 := by
        have hmod := h.size
        omega
      rw [hat _ hdata.1]
      exact ⟨hlt, hne⟩
  · rw [slot, slot, hat _ hdata.1]
  · obtain ⟨hjlt, hjne⟩ := h.block hj
    have hjok := Spot.data_ofBlock hjlt
    have hslot : slot u j = slot s j := by rw [slot, slot, hgrown.kept _ hjok.1 hjne]
    refine ⟨by rw [slot, slot, hkept _ (by omega)], fun y hy => ?_⟩
    have hplace := slot_ne hu hlt hjlt hne (Ne.symm hji)
    rw [hslot] at hplace
    have hgrowndata := congrFun (hgrown.data _ hjok hjne) (16 * (slot s j).2 + y)
    refine (hwrote.data _ _ (hplace.imp_right fun hne heq => hne ?_)).trans hgrowndata
    omega
  · rw [← hcall]
    exact nameByte_setName name _ _ hj

/-- **The loop takes the first entry that is free**, or the one behind the last: the induction is
on the rounds. -/
theorem addLoop_spec (h : Dir s) (hcur : Cursor s i b o) (hle : i ≤ s.size / 16)
    (hrun : addLoop pick name k i b o s = .ok (some e, t)) : ∃ i, Added name s e t i := by
  induction k generalizing i b o with
  | zero => cases hrun
  | succ k ih =>
    have hmod := h.size
    -- a round, when the loop is at an entry, which may be in a block that has just been created
    have hround : ∀ u b o, Sound u → Grown s u → (i < s.size / 16 → u = s) → o < 64 →
        Cursor u i b o → i / 64 < maxBlock →
        (if ino (extend i u (b, o)) (b, o) = 0
          then Except.ok (some (b, o), setName name (extend i u (b, o)) (b, o))
          else addLoop pick name k (i + 1) b (o + 1) (extend i u (b, o))) = .ok (some e, t) →
        ∃ i, Added name s e t i := by
      intro u b o hu hgrown hsame ho hcur' hlt hr
      have hslot := hcur'.inside ho
      have hne : u.at (.ofBlock (i / 64)) ≠ 0 := by
        have hzone := congrArg Prod.fst hslot
        change u.at (.ofBlock (i / 64)) = b at hzone
        rw [hzone]
        exact hcur'.there ho
      have hadded := @added _ name i h u hu hgrown hle hlt hne
      rw [hslot] at hadded
      rcases Nat.lt_or_eq_of_le hle with hi | hi
      · -- an entry of the directory
        have hno : extend i s (b, o) = s := by
          rw [extend, if_neg]
          omega
        rw [hsame hi] at hslot hadded hr hcur'
        rw [hno] at hadded hr
        by_cases h0 : ino s (b, o) = 0
        · rw [if_pos h0] at hr
          obtain ⟨he, rfl⟩ := Prod.mk.inj (Except.ok.inj hr)
          rw [← Option.some.inj he]
          exact ⟨i, hadded fun _ => hslot ▸ h0⟩
        · rw [if_neg h0] at hr
          exact ih (hcur'.next ho) hi hr
      · -- the one behind the last is free
        have h0 : ino (extend i u (b, o)) (b, o) = 0 := by
          rw [extend, hgrown.size, if_pos (by omega)]
          exact word_setWord_self u b (8 * o) (by decide)
        rw [if_pos h0] at hr
        obtain ⟨he, rfl⟩ := Prod.mk.inj (Except.ok.inj hr)
        rw [← Option.some.inj he]
        exact ⟨i, hadded fun hlt => by omega⟩
    rw [addLoop] at hrun
    by_cases ho : 64 ≤ o
    · rw [if_pos ho] at hrun
      have hedge := hcur.edge (le_antisymm hcur.le ho)
      by_cases hlt : i / 64 < maxBlock
      · obtain ⟨u, hbmap, hu, hgrown, hsame⟩ := create_spec h.toSound pick hlt
        rw [hbmap] at hrun
        dsimp only at hrun
        by_cases h0 : u.at (.ofBlock (i / 64)) = 0
        · rw [if_pos h0] at hrun
          cases hrun
        · have hread := hu.readable _ (Spot.data_ofBlock hlt).1 h0
          rw [if_neg h0, if_neg fun h => Bool.noConfusion (hread.symm.trans h)] at hrun
          exact hround u _ 0 hu hgrown (fun hi => hsame (h.block hi).2) (by decide)
            (cursor_block hedge hlt h0) hlt hrun
      · rw [bmap, if_pos (by omega)] at hrun
        cases hrun
    · rw [if_neg ho] at hrun
      rw [not_le] at ho
      exact hround s b o h.toSound (Grown.refl s) (fun _ => rfl) ho hcur (hcur.block ho) hrun

/-- **`add_entry` takes a free entry**, or the one behind the last. -/
theorem addEntry_spec (h : Dir s) (hr : addEntry pick name s = .ok (some e, t)) :
    ∃ i, Added name s e t i := by
  rw [addEntry] at hr
  split_ifs at hr with hlen h0
  · cases hr
  · cases hr
  · have hcur : Cursor s 0 (s.zone 0) 0 :=
      cursor_block rfl (by decide) fun hzero => h0 (Or.inl hzero)
    exact addLoop_spec h hcur (Nat.zero_le _) hr

/-! ### Room for an entry -/

/-- The number of a zone in a table is a short. -/
theorem at_lt (s : State) {block : ℕ} (h : 7 ≤ block) : s.at (.ofBlock block) < 65536 := by
  have hword : ∀ z i, s.word z i < 65536 := by
    intro z i
    have hlow := (s.data z (2 * i)).toNat_lt
    have hhigh := (s.data z (2 * i + 1)).toNat_lt
    rw [State.word]
    omega
  rw [Spot.ofBlock, if_neg (by omega)]
  split_ifs
  · rw [State.at]
    split_ifs
    · decide
    · exact hword _ _
  · rw [State.at]
    split_ifs
    · decide
    · exact hword _ _

/-- **A directory has room for another block**: there are not that many zones. -/
theorem Dir.small (h : Dir s) : s.size / 1024 < maxBlock := by
  have hsub : (Finset.range ((s.size + 1023) / 1024 - 7)).card ≤ (Finset.range 65536).card := by
    refine Finset.card_le_card_of_injOn (fun k => s.at (.ofBlock (k + 7))) (fun k _ => ?_) ?_
    · exact Finset.mem_coe.mpr (Finset.mem_range.mpr (at_lt s (Nat.le_add_left 7 k)))
    · intro k hk j hj heq
      rw [Finset.mem_coe, Finset.mem_range] at hk hj
      obtain ⟨hlt, hne⟩ := h.whole (k + 7) (by omega)
      obtain ⟨hlt', -⟩ := h.whole (j + 7) (by omega)
      have hspot := h.inj _ _ (Spot.data_ofBlock hlt).1 (Spot.data_ofBlock hlt').1 hne heq
      exact Nat.add_right_cancel (Spot.ofBlock_inj hspot)
  rw [Finset.card_range, Finset.card_range] at hsub
  rw [maxBlock]
  omega

/-- **There is no room**: no entry is free, and no block can be had for another one. -/
structure Full (pick : Pick) (s t : State) : Prop where
  entries : ∀ j < s.size / 16, ino s (slot s j) ≠ 0
  edge : s.size % 1024 = 0
  block : Bmap.bmap pick true (s.size / 1024) s = .ok (0, t)

/-- **The loop comes to an end**, and finds an entry if there is room: the induction is on the
rounds. -/
theorem addLoop_total (h : Dir s) (hcur : Cursor s i b o) (hle : i ≤ s.size / 16)
    (hused : ∀ j < i, ino s (slot s j) ≠ 0) (hk : s.size / 16 < i + k) :
    ∃ r t, addLoop pick name k i b o s = .ok (r, t) ∧ (r = none → Full pick s t) ∧
      ∀ u, Full pick s u → r = none := by
  induction k generalizing i b o with
  | zero => omega
  | succ k ih =>
    have hmod := h.size
    -- a round, at an entry that there is or at the one behind the last
    have hround : ∀ u b o, Grown s u → (i < s.size / 16 → u = s) → o < 64 →
        Cursor u i b o → (i = s.size / 16 → ∀ t, ¬Full pick s t) → ∃ r t,
        (if ino (extend i u (b, o)) (b, o) = 0
          then Except.ok (some (b, o), setName name (extend i u (b, o)) (b, o))
          else addLoop pick name k (i + 1) b (o + 1) (extend i u (b, o))) = .ok (r, t) ∧
        (r = none → Full pick s t) ∧ ∀ u, Full pick s u → r = none := by
      intro u b o hgrown hsame ho hcur' hlast
      have hslot := hcur'.inside ho
      rcases Nat.lt_or_eq_of_le hle with hi | hi
      · have hno : extend i s (b, o) = s := by
          rw [extend, if_neg]
          omega
        rw [hsame hi] at hslot hcur' ⊢
        rw [hno]
        by_cases h0 : ino s (b, o) = 0
        · refine ⟨_, _, if_pos h0, (by rintro ⟨⟩), fun u hu => ?_⟩
          exact absurd h0 (hslot ▸ hu.entries i hi)
        · rw [if_neg h0]
          refine ih (hcur'.next ho) hi (fun j hj => ?_) (by omega)
          rcases Nat.lt_succ_iff_lt_or_eq.mp hj with hj | rfl
          · exact hused j hj
          · exact hslot.symm ▸ h0
      · have h0 : ino (extend i u (b, o)) (b, o) = 0 := by
          rw [extend, hgrown.size, if_pos (by omega)]
          exact Bmap.word_setWord_self u b (8 * o) (by decide)
        exact ⟨_, _, if_pos h0, (by rintro ⟨⟩), fun u hu => absurd hu (hlast hi u)⟩
    rw [addLoop]
    by_cases ho : 64 ≤ o
    · rw [if_pos ho]
      have hedge := hcur.edge (le_antisymm hcur.le ho)
      have hsmall := h.small
      obtain ⟨u, hbmap, hu, hgrown, hsame⟩ := Bmap.create_spec h.toSound pick
        (show i / 64 < maxBlock by omega)
      rw [hbmap]
      dsimp only
      have hblock : i = s.size / 16 → i / 64 = s.size / 1024 := by omega
      by_cases h0 : u.at (.ofBlock (i / 64)) = 0
      · have hi : i = s.size / 16 := by
          by_contra hne
          have hi : i < s.size / 16 := by omega
          rw [hsame (h.block hi).2] at h0
          exact (h.block hi).2 h0
        have hfull : Full pick s u := by
          refine ⟨fun j hj => hused j (by omega), by omega, ?_⟩
          rw [← hblock hi, hbmap, h0]
        rw [if_pos h0]
        exact ⟨_, _, rfl, fun _ => hfull, fun _ _ => rfl⟩
      · have hread := hu.readable _ (Spot.data_ofBlock (by omega)).1 h0
        rw [if_neg h0, if_neg fun h => Bool.noConfusion (hread.symm.trans h)]
        refine hround u _ 0 hgrown (fun hi => hsame (h.block hi).2) (by decide)
          (cursor_block hedge (by omega) h0) fun hi t ht => ?_
        have hzero := ht.block
        rw [← hblock hi, hbmap] at hzero
        exact h0 (Prod.mk.inj (Except.ok.inj hzero)).1
    · rw [if_neg ho]
      rw [not_le] at ho
      refine hround s b o (Grown.refl s) (fun _ => rfl) ho hcur fun hi t ht => ?_
      -- the block of the entry is there
      have hzone : s.at (.ofBlock (i / 64)) = b := congrArg Prod.fst (hcur.inside ho)
      have hedge := ht.edge
      obtain ⟨u, hbmap, -, -, hsame⟩ := Bmap.create_spec h.toSound pick (hcur.block ho)
      have hne : s.at (.ofBlock (i / 64)) ≠ 0 := hzone.symm ▸ hcur.there ho
      have hzero := ht.block
      rw [show s.size / 1024 = i / 64 by omega, hbmap, hsame hne] at hzero
      exact hne (Prod.mk.inj (Except.ok.inj hzero)).1

/-- **`add_entry` returns**, and finds an entry if there is room. -/
theorem addEntry_total (h : Dir s) (hname : name ≠ []) (h0 : s.zone 0 ≠ 0) :
    ∃ r t, addEntry pick name s = .ok (r, t) ∧ (r = none → Full pick s t) ∧
      ∀ u, Full pick s u → r = none := by
  have hlen : min name.length 14 ≠ 0 := by
    have hpos := List.length_pos_iff.mpr hname
    omega
  have hread : s.readable (s.zone 0) = true := h.readable (.top 0) (by omega : 0 < 9) h0
  have hcur : Cursor s 0 (s.zone 0) 0 := cursor_block rfl (by decide) h0
  have hsmall := h.small
  rw [addEntry, if_neg hlen, if_neg]
  · exact addLoop_total h hcur (Nat.zero_le _) (fun j hj => absurd hj (Nat.not_lt_zero j))
      (by rw [maxBlock] at hsmall ⊢; omega)
  · rintro (h | h)
    · exact h0 h
    · exact Bool.noConfusion (hread.symm.trans h)

/-! ### Names -/

/-- An inode for a lookup that knows nothing but the blocks. -/
def blank : Inode := ⟨0#16, 0, 0, 0, 0, fun _ => .hole, fun _ => 0, false⟩

theorem Name.length_key (n : Name) : n.key.length = min n.bytes.length 14 := by
  rw [Name.key, List.length_take, Nat.min_comm]

theorem Name.getD_key (n : Name) (hj : j < min n.bytes.length 14) :
    n.key.getD j 0 = n.bytes.getD j 0 := by
  have hkey : j < n.key.length := n.length_key ▸ hj
  rw [List.getD_eq_getElem _ _ hkey, List.getD_eq_getElem _ _ (by omega)]
  exact List.getElem_take

/-- **An entry has a name**: it is in use, and has the bytes of the name, with a zero behind. -/
theorem has_iff : Has s i n ↔ ino s (slot s i) ≠ 0 ∧
    (n.key.length < 14 → nameByte s (slot s i) n.key.length = 0) ∧
    ∀ j < n.key.length, n.key.getD j 0 = nameByte s (slot s i) j := by
  rw [Has, isMatch_flat blank (Nat.min_le_right _ _), isMatch_iff, ← ino_flat, n.length_key]
  refine and_congr_right fun _ => ?_
  rw [and_iff_right (Nat.min_le_right _ _)]
  refine and_congr (forall_congr' fun hlt => ?_) (forall₂_congr fun j hj => ?_)
  · rw [nameByte_flat blank s i hlt]
  · rw [n.getD_key hj, nameByte_flat blank s i (by omega)]

/-- Names with the same bytes are the same to an entry. -/
theorem has_congr_key (h : m.key = n.key) : Has s i m ↔ Has s i n := by
  rw [has_iff, has_iff, h]

theorem Name.key_ne_zero (n : Name) (hj : j < n.key.length) : n.key.getD j 0 ≠ 0 := by
  rw [List.getD_eq_getElem _ _ hj]
  intro h0
  exact n.no_zero (List.mem_of_mem_take (h0 ▸ List.getElem_mem hj))

/-- **An entry has one name.** -/
theorem has_unique (hm : Has s i m) (hn : Has s i n) : m.key = n.key := by
  -- if one is longer, the other one ends where it goes on
  have hle : ∀ m n : Name, Has s i m → Has s i n → m.key.length ≤ n.key.length := by
    intro m n hm hn
    by_contra hlt
    rw [not_le] at hlt
    obtain ⟨-, hend, -⟩ := has_iff.mp hn
    obtain ⟨-, -, hall⟩ := has_iff.mp hm
    have h14 := m.length_key ▸ Nat.min_le_right m.bytes.length 14
    exact m.key_ne_zero hlt ((hall _ hlt).trans (hend (by omega)))
  have hlen := le_antisymm (hle m n hm hn) (hle n m hn hm)
  obtain ⟨-, -, hallm⟩ := has_iff.mp hm
  obtain ⟨-, -, halln⟩ := has_iff.mp hn
  refine List.ext_getElem hlen fun j hj hj' => ?_
  rw [← List.getD_eq_getElem _ 0 hj, ← List.getD_eq_getElem _ 0 hj', hallm j hj, halln j hj']

/-- An entry whose bytes are the same has the same name. -/
theorem has_congr (hslot : slot t i = slot s i) (hino : ino t (slot s i) = ino s (slot s i))
    (hname : ∀ j < 14, nameByte t (slot s i) j = nameByte s (slot s i) j) :
    Has t i n ↔ Has s i n := by
  have h14 := n.length_key ▸ Nat.min_le_right n.bytes.length 14
  rw [has_iff, has_iff, hslot, hino]
  refine and_congr_right fun _ => and_congr (forall_congr' fun hlt => ?_)
    (forall₂_congr fun j hj => ?_)
  · rw [hname _ hlt]
  · rw [hname j (by omega)]

/-! ### Lookups -/

/-- **A lookup finds the first entry that has the name.** -/
theorem lookup_eq (h : Dir s) (n : Name) : lookup n s =
    .ok (((List.range (s.size / 16)).find? fun i => Has s i n).map fun i =>
      (slot s i, ino s (slot s i))) := by
  have hhas : (fun i => isMatch (min n.bytes.length 14) n.bytes s (slot s i)) =
      fun i => decide (Has s i n) := by
    funext i
    exact Bool.decide_eq_true.symm
  rw [lookup, findEntry_eq h n.ne_nil, hhas, Except.map, Option.map_map]
  rfl

theorem lookup_eq_none (h : Dir s) (n : Name) :
    lookup n s = .ok none ↔ ∀ i < s.size / 16, ¬Has s i n := by
  rw [lookup_eq h, Except.ok.injEq, Option.map_eq_none_iff, List.find?_eq_none]
  simp only [List.mem_range, decide_eq_true_eq]

/-- The only entry with a name is found. -/
theorem lookup_eq_some (h : Dir s) (hi : i < s.size / 16) (hhas : Has s i n)
    (hone : ∀ j < s.size / 16, Has s j n → j = i) :
    lookup n s = .ok (some (slot s i, ino s (slot s i))) := by
  have hfind : ((List.range (s.size / 16)).find? fun i => Has s i n) = some i := by
    rw [List.find?_range_eq_some]
    refine ⟨decide_eq_true hhas, List.mem_range.mpr hi, fun j hj => ?_⟩
    rw [Bool.not_eq_true', decide_eq_false_iff_not]
    intro hj'
    have := hone j (by omega) hj'
    omega
  rw [lookup_eq h, hfind]
  rfl

/-- **A lookup that nothing concerns**: the entries that have the name are the same. -/
theorem lookup_congr (hs : Dir s) (ht : Dir t) (hle : s.size / 16 ≤ t.size / 16)
    (hhas : ∀ j < s.size / 16, Has t j n ↔ Has s j n)
    (hmore : ∀ j < t.size / 16, s.size / 16 ≤ j → ¬Has t j n)
    (hsame : ∀ j < s.size / 16, Has s j n →
      slot t j = slot s j ∧ ino t (slot s j) = ino s (slot s j)) : lookup n t = lookup n s := by
  obtain ⟨d, hd⟩ := Nat.exists_eq_add_of_le hle
  have hrest : (((List.range d).map (s.size / 16 + ·)).find? fun i => Has t i n) = none := by
    rw [List.find?_eq_none]
    intro i hi
    obtain ⟨j, hj, rfl⟩ := List.mem_map.mp hi
    have hj := List.mem_range.mp hj
    simpa using hmore (s.size / 16 + j) (by omega) (by omega)
  have hfind : ((List.range (s.size / 16)).find? fun i => Has t i n) =
      (List.range (s.size / 16)).find? fun i => Has s i n := by
    refine List.find?_congr fun i hi => ?_
    rw [decide_eq_decide]
    exact hhas i (List.mem_range.mp hi)
  rw [lookup_eq ht, lookup_eq hs, hd, List.range_add, List.find?_append, hrest, Option.or_none,
    hfind]
  refine congrArg Except.ok (Option.map_congr fun i hi => ?_)
  obtain ⟨hslot, hino⟩ := hsame i (List.mem_range.mp (List.mem_of_find?_eq_some hi))
    (by simpa using List.find?_some hi)
  rw [hslot, hino]

/-! ### A directory is a map -/

/-- The bytes of an entry. -/
theorem ino_congr (h : ∀ y < 16, t.data e.1 (16 * e.2 + y) = s.data e.1 (16 * e.2 + y)) :
    ino t e = ino s e := by
  have h0 := h 0 (by decide)
  have h1 := h 1 (by decide)
  rw [Nat.add_zero] at h0
  rw [ino, ino, State.word, State.word, show 2 * (8 * e.2) = 16 * e.2 by omega, h0, h1]

theorem nameByte_congr (h : ∀ y < 16, t.data e.1 (16 * e.2 + y) = s.data e.1 (16 * e.2 + y))
    (hj : j < 14) : nameByte t e j = nameByte s e j := by
  have h2 := h (2 + j) (by omega)
  rw [nameByte, nameByte, Nat.add_assoc, h2]

/-- **An entry is written**: the directory is as whole as before, and the other entries are the
same. -/
theorem Dir.wrote (h : Dir s) (hi : i < s.size / 16) (hw : Wrote s (slot s i) t)
    (hsize : t.size = s.size) : Dir t ∧ (∀ j < s.size / 16, slot t j = slot s j) ∧
      ∀ j < s.size / 16, j ≠ i → ino t (slot s j) = ino s (slot s j) ∧
        ∀ n, Has t j n ↔ Has s j n := by
  obtain ⟨hlt, hne⟩ := h.block hi
  have hdata := Spot.data_ofBlock hlt
  have hat := hw.at h.toSound hdata rfl hne
  have hslot : ∀ j < s.size / 16, slot t j = slot s j := fun j hj => by
    rw [slot, slot, hat _ (Spot.data_ofBlock (h.block hj).1).1]
  refine ⟨⟨hw.sound h.toSound hdata rfl hne, hsize ▸ h.size, fun k hk => ?_⟩, hslot,
    fun j hj hji => ?_⟩
  · rw [hsize] at hk
    obtain ⟨hklt, hkne⟩ := h.whole k hk
    rw [hat _ (Spot.data_ofBlock hklt).1]
    exact ⟨hklt, hkne⟩
  · have hplace := slot_ne h.toSound hlt (h.block hj).1 hne (Ne.symm hji)
    have hbytes : ∀ y < 16, t.data (slot s j).1 (16 * (slot s j).2 + y) =
        s.data (slot s j).1 (16 * (slot s j).2 + y) := by
      intro y hy
      refine hw.data _ _ (hplace.imp_right fun hne heq => hne ?_)
      omega
    exact ⟨ino_congr hbytes, fun n => has_congr (hslot j hj) (ino_congr hbytes) fun k hk =>
      nameByte_congr hbytes hk⟩

/-- The name of an entry whose number is stored. -/
theorem nameByte_setIno (s : State) (e : Pointer) (v j : ℕ) :
    nameByte (setIno s e v) e j = nameByte s e j := by
  rw [nameByte, setIno, State.setWord]
  dsimp only
  rw [Function.update_self, if_neg (by omega), if_neg (by omega)]
  rfl

/-- **A name is added**: entry `i` has the name, and no other one. -/
theorem has_added (ha : Added n.bytes s e t i) (hv : v ≠ 0) (hlt : v < 65536)
    (hslot : slot (setIno t e v) i = e) : Has (setIno t e v) i m ↔ m.key = n.key := by
  have hino : ino (setIno t e v) e = v := word_setWord_self t e.1 (8 * e.2) hlt
  have hn : Has (setIno t e v) i n := by
    have h14 := n.length_key ▸ Nat.min_le_right n.bytes.length 14
    rw [has_iff, hslot, hino]
    refine ⟨hv, fun hlen => ?_, fun j hj => ?_⟩
    · rw [nameByte_setIno, ha.name _ hlen]
      exact List.getD_eq_default _ _ le_rfl
    · rw [nameByte_setIno, ha.name j (by omega)]
      rfl
  exact ⟨fun hm => has_unique hm hn, fun hkey => (has_congr_key hkey).mpr hn⟩

/-- No other entry has the name. -/
def Only (s : State) (n : Name) (e : Pointer) : Prop :=
  ∀ i < s.size / 16, Has s i n → slot s i = e

/-- **A name is added that is not there.** -/
theorem lookup_added (h : Dir s) (hnone : lookup n s = .ok none) (ha : Added n.bytes s e t i)
    (hv : v ≠ 0) (hlt : v < 65536) :
    Dir (setIno t e v) ∧ (Distinct s → Distinct (setIno t e v)) ∧
      (∀ m : Name, m.key = n.key → lookup m (setIno t e v) = .ok (some (e, v))) ∧
      (∀ m : Name, m.key ≠ n.key → lookup m (setIno t e v) = lookup m s) ∧
      ((setIno t e v).size = s.size ∨ (setIno t e v).size = s.size + 16) := by
  have hmod := h.size
  have hle := ha.le
  have hsize : (setIno t e v).size = max s.size (16 * (i + 1)) := ha.size
  have hi : i < t.size / 16 := by
    rw [ha.size]
    omega
  have hcount : ∀ j, j < (setIno t e v).size / 16 → j ≠ i → j < s.size / 16 := by
    intro j hj hji
    rw [hsize] at hj
    omega
  have hw : Wrote t (slot t i) (setIno t e v) := ha.pointer ▸ wrote_setIno t e v
  obtain ⟨hdir, hslot, hsame⟩ := ha.dir.wrote hi hw rfl
  have hold : ∀ j < s.size / 16, j ≠ i → slot (setIno t e v) j = slot s j ∧
      ino (setIno t e v) (slot s j) = ino s (slot s j) ∧
      ∀ m, Has (setIno t e v) j m ↔ Has s j m := by
    intro j hj hji
    obtain ⟨hslotj, hbytes⟩ := ha.others j hj hji
    have hjt : j < t.size / 16 := by
      rw [ha.size]
      omega
    obtain ⟨hino, hhas⟩ := hsame j hjt hji
    refine ⟨(hslot j hjt).trans hslotj, ?_, fun m => (hhas m).trans ?_⟩
    · rw [hslotj] at hino
      rw [hino, ino_congr hbytes]
    · exact has_congr hslotj (ino_congr hbytes) fun k hk => nameByte_congr hbytes hk
  have hpointer : slot (setIno t e v) i = e := (hslot i hi).trans ha.pointer
  have hnew : ∀ m, Has (setIno t e v) i m ↔ m.key = n.key := fun m => has_added ha hv hlt hpointer
  have hno := (lookup_eq_none h n).mp hnone
  have hnot : ∀ j m, j < (setIno t e v).size / 16 → m.key = n.key → Has (setIno t e v) j m →
      j = i := by
    intro j m hj hkey hhas
    by_contra hji
    have hjs := hcount j hj hji
    exact hno j hjs ((has_congr_key hkey).mp (((hold j hjs hji).2.2 m).mp hhas))
  refine ⟨hdir, fun hdist m j k hj hk hhasj hhask => ?_, fun m hkey => ?_, fun m hkey => ?_, ?_⟩
  · by_cases hji : j = i
    · have hkey := (hnew m).mp (hji ▸ hhasj)
      rw [hji, hnot k m hk hkey hhask]
    · by_cases hki : k = i
      · have hkey := (hnew m).mp (hki ▸ hhask)
        exact absurd (hnot j m hj hkey hhasj) hji
      · have hjs := hcount j hj hji
        have hks := hcount k hk hki
        exact hdist m j k hjs hks (((hold j hjs hji).2.2 m).mp hhasj)
          (((hold k hks hki).2.2 m).mp hhask)
  · have hfound := lookup_eq_some hdir (i := i) hi ((hnew m).mpr hkey) fun j hj hhas =>
      hnot j m hj hkey hhas
    have hino : ino (setIno t e v) e = v := word_setWord_self t e.1 (8 * e.2) hlt
    rw [hfound, hpointer, hino]
  · refine lookup_congr h hdir ?_ (fun j hj => ?_) (fun j hj hjs hhas => ?_) fun j hj hhas => ?_
    · rw [hsize]
      omega
    · by_cases hji : j = i
      · subst hji
        refine iff_of_false (fun hhas => hkey ((hnew m).mp hhas)) fun hhas => ?_
        exact (has_iff.mp hhas).1 (ha.free hj)
      · exact (hold j hj hji).2.2 m
    · obtain rfl : j = i := by
        by_contra hji
        have := hcount j hj hji
        omega
      exact hkey ((hnew m).mp hhas)
    · have hji : j ≠ i := by
        rintro rfl
        exact (has_iff.mp hhas).1 (ha.free hj)
      exact ⟨(hold j hj hji).1, (hold j hj hji).2.1⟩
  · rw [hsize]
    omega

/-- **The entry of a name is cleared.** -/
theorem lookup_cleared (h : Dir s) (hsome : lookup n s = .ok (some (e, v))) :
    Dir (setIno s e 0) ∧ (Distinct s → Distinct (setIno s e 0)) ∧
      (∀ m : Name, m.key = n.key → (lookup m (setIno s e 0) = .ok none ↔ Only s n e)) ∧
      (∀ m : Name, m.key ≠ n.key → lookup m (setIno s e 0) = lookup m s) ∧
      (setIno s e 0).size = s.size := by
  obtain ⟨i, hi, hhas, rfl⟩ : ∃ i < s.size / 16, Has s i n ∧ slot s i = e := by
    rw [lookup_eq h, Except.ok.injEq, Option.map_eq_some_iff] at hsome
    obtain ⟨i, hfind, heq⟩ := hsome
    exact ⟨i, List.mem_range.mp (List.mem_of_find?_eq_some hfind),
      by simpa using List.find?_some hfind, (Prod.mk.inj heq).1⟩
  obtain ⟨hdir, hslot, hsame⟩ := h.wrote hi (wrote_setIno s (slot s i) 0) rfl
  have hsize : (setIno s (slot s i) 0).size = s.size := rfl
  have hgone : ∀ m, ¬Has (setIno s (slot s i) 0) i m := by
    intro m hm
    have hino := (has_iff.mp hm).1
    rw [hslot i hi] at hino
    exact hino (word_setWord_self s _ _ (by decide))
  refine ⟨hdir, fun hdist m j k hj hk hhasj hhask => ?_, fun m hkey => ?_, fun m hkey => ?_, hsize⟩
  · have hji : j ≠ i := by
      rintro rfl
      exact hgone m hhasj
    have hki : k ≠ i := by
      rintro rfl
      exact hgone m hhask
    exact hdist m j k hj hk (((hsame j hj hji).2 m).mp hhasj) (((hsame k hk hki).2 m).mp hhask)
  · rw [lookup_eq_none hdir, hsize]
    constructor
    · intro hnone j hj hhasj
      by_contra hji
      have hne : j ≠ i := by
        rintro rfl
        exact hji rfl
      exact hnone j hj (((hsame j hj hne).2 m).mpr ((has_congr_key hkey).mpr hhasj))
    · intro honly j hj hhasj
      by_cases hji : j = i
      · exact hgone m (hji ▸ hhasj)
      · have hplace := honly j hj ((has_congr_key hkey).mp (((hsame j hj hji).2 m).mp hhasj))
        have hne := slot_ne h.toSound (h.block hi).1 (h.block hj).1 (h.block hi).2 (Ne.symm hji)
        rw [hplace] at hne
        rcases hne with hne | hne
        · exact hne rfl
        · exact hne rfl
  · refine lookup_congr h hdir le_rfl (fun j hj => ?_) (fun j hj hjs => by omega)
      fun j hj hhasj => ?_
    · by_cases hji : j = i
      · subst hji
        exact iff_of_false (hgone m) fun hm => hkey (has_unique hm hhas)
      · exact (hsame j hj hji).2 m
    · have hji : j ≠ i := by
        rintro rfl
        exact hkey (has_unique hhasj hhas)
      exact ⟨hslot j hj, (hsame j hj hji).1⟩

/-- **A directory is a map on names of fourteen bytes.** A name that is not there is added, and is
found, and all others are what they were; when its entry is cleared it is found no more, unless
another entry has it, and all others are what they were. -/
theorem directory_map (pick : Pick) (h : Dir s) :
    (∀ n e t v, lookup n s = .ok none → addEntry pick n.bytes s = .ok (some e, t) →
      v ≠ 0 → v < 65536 →
      Dir (setIno t e v) ∧ (Distinct s → Distinct (setIno t e v)) ∧
        (∀ m : Name, m.key = n.key → lookup m (setIno t e v) = .ok (some (e, v))) ∧
        (∀ m : Name, m.key ≠ n.key → lookup m (setIno t e v) = lookup m s) ∧
        ((setIno t e v).size = s.size ∨ (setIno t e v).size = s.size + 16)) ∧
    ∀ n e v, lookup n s = .ok (some (e, v)) →
      Dir (setIno s e 0) ∧ (Distinct s → Distinct (setIno s e 0)) ∧
        (∀ m : Name, m.key = n.key → (lookup m (setIno s e 0) = .ok none ↔ Only s n e)) ∧
        (∀ m : Name, m.key ≠ n.key → lookup m (setIno s e 0) = lookup m s) ∧
        (setIno s e 0).size = s.size := by
  constructor
  · intro n e t v hnone hadd hv hlt
    obtain ⟨i, ha⟩ := addEntry_spec h hadd
    exact lookup_added h hnone ha hv hlt
  · exact fun n e v hsome => lookup_cleared h hsome

/-! ### Two entries with one name -/

/-- A directory with these entries in its first block, which is zone 5. -/
def listing (es : List (UInt8 × UInt8)) : State where
  data z x :=
    if z = 5 ∧ x / 16 < es.length then
      if x % 16 = 0 then (es.getD (x / 16) (0, 0)).1
      else if x % 16 = 2 then (es.getD (x / 16) (0, 0)).2
      else 0
    else 0
  readable _ := true
  used z := z = 5
  zone k := if k = 0 then 5 else 0
  size := 16 * es.length

theorem at_listing (es : List (UInt8 × UInt8)) (p : Spot) (hp : p.Ok) :
    (listing es).at p = if p = .top 0 then 5 else 0 := by
  have hzone : ∀ k, (listing es).at (.top k) = if k = 0 then 5 else 0 := fun _ => rfl
  cases p with
  | top k =>
    rw [hzone]
    exact if_congr ⟨fun h => h ▸ rfl, Spot.top.inj⟩ rfl rfl
  | under r j =>
    rw [if_neg fun h => Spot.noConfusion h]
    refine at_under_eq_zero ?_ j
    obtain ⟨htable, -⟩ := hp
    cases r with
    | top k =>
      rcases htable with rfl | rfl
      · rfl
      · rfl
    | under r i =>
      obtain ⟨rfl, -⟩ := htable
      exact at_under_eq_zero rfl i

theorem dir_listing (es : List (UInt8 × UInt8)) (hlen : es.length ≤ 64) : Dir (listing es) := by
  have hsize : (listing es).size = 16 * es.length := rfl
  refine ⟨⟨fun p q hp hq hne heq => ?_, fun p hp hne => ?_, fun _ _ _ => rfl⟩, ?_, fun k hk => ?_⟩
  · rw [at_listing es p hp] at hne heq
    rw [at_listing es q hq] at heq
    split_ifs at hne heq with h1 h2
    · rw [h1, h2]
    · exact absurd rfl hne
  · rw [at_listing es p hp] at hne ⊢
    split_ifs at hne ⊢
    · rfl
    · exact absurd rfl hne
  · rw [hsize]
    omega
  · rw [hsize] at hk
    obtain rfl : k = 0 := by omega
    exact ⟨by decide, (by decide : 5 ≠ 0)⟩

/-- A name of one letter. -/
def letter (c : UInt8) (hc : c ≠ 0) : Name :=
  ⟨[c], List.cons_ne_nil _ _, by simpa using hc.symm, by simp [dotdot]⟩

/-- A directory with one name, to which a second one has been added. -/
def second : State := setName [98] (extend 1 (listing [(2, 97)]) (5, 1)) (5, 1)

/-- **A second name** is added. -/
theorem directory_map_second :
    lookup (letter 98 (by decide)) (setIno second (5, 1) 7) = .ok (some ((5, 1), 7)) := by
  have h := (directory_map (fun _ => none) (dir_listing [(2, 97)] (by decide))).1
    (letter 98 (by decide)) (5, 1) second 7 rfl rfl (by decide) (by decide)
  exact h.2.2.1 _ rfl

/-- **Two entries have one name**, and one of them is cleared. -/
theorem not_directory_map : ¬∀ (s : State) (n : Name) (e : Pointer) (v : ℕ), Dir s →
    lookup n s = .ok (some (e, v)) → lookup n (setIno s e 0) = .ok none := by
  intro h
  have hfound := h (listing [(2, 97), (3, 97)]) (letter 97 (by decide)) (5, 0) 2
    (dir_listing _ (by decide)) rfl
  have hother : lookup (letter 97 (by decide)) (setIno (listing [(2, 97), (3, 97)]) (5, 0) 0) =
      .ok (some ((5, 1), 3)) := rfl
  rw [hother] at hfound
  cases hfound

end Linux011.Fs.Directory

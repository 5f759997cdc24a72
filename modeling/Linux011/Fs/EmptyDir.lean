import Linux011.Fs.Lookups

/-!
# What `empty_dir` releases

`empty_dir` has a buffer of the directory at all times, and gives it back on its ways out; but on
three ways it does not. When the first two entries are not `.` and `..`, it keeps the first buffer.
Behind a block that is not there, the pointer into the buffer that has just been released is still
behind its end, and so this buffer is released once more. And a block that no file can have is asked
for where the size says so.

On all other directories, in whatever state they are, it releases what it has read, and nothing
else, and when it returns 1 there is nothing in them (`Linux011.Fs.Names.emptyDir_releases_iff`).
-/

namespace Linux011.Fs.Names

open Bmap (State)

variable {s : Kernel} {id : Id} {n k o i : ℕ} {c : ℕ × ℕ → ℕ}

/-! ### The blocks of the directory -/

/-- **What `bmap` finds for a block**, and 0 for a block that no file can have. -/
def zoneOf (t : State) (k : ℕ) : ℕ :=
  match Bmap.bmap (fun _ => none) false k t with
  | .ok (z, _) => z
  | .error _ => 0

theorem bmap_error (h : Bmap.maxBlock ≤ k) (s : Kernel) :
    bmap false id k s = .error (.panic "_bmap: block>big") s := by
  rw [bmap, if_pos h]
  rfl

theorem zoneOf_big {t : State} (h : Bmap.maxBlock ≤ k) : zoneOf t k = 0 := by
  rw [zoneOf, Bmap.bmap, if_pos h]

theorem bmap_zoneOf (h : k < Bmap.maxBlock) (s : Kernel) :
    bmap false id k s = .ok (zoneOf (s.file id) k) s := by
  rcases hb : Bmap.bmap (fun _ => none) false k (s.file id) with e | ⟨z, t⟩
  · rw [Bmap.bmap, if_neg (not_le.mpr h)] at hb
    dsimp only at hb
    split_ifs at hb
  · have hz : zoneOf (s.file id) k = z := by rw [zoneOf, hb]
    rw [hz]
    exact bmap_false hb

theorem zoneOf_zero (s : Kernel) : zoneOf (s.file id) 0 = (s.inode id).zone 0 := by
  have h : (s.file id).fill (fun _ => none) false (.zone 0) = s.file id := by
    rw [Bmap.State.fill, if_neg fun h => Bool.false_ne_true h.1]
  rw [zoneOf, Bmap.bmap, if_neg (by decide), if_pos (by decide)]
  dsimp only
  rw [h]
  rfl

/-- Other counts. -/
def Kernel.withCounts (s : Kernel) (c : ℕ × ℕ → ℕ) : Kernel := { s with bCount := c }

/-- **Nobody has a buffer**, so that one that is not held cannot be released. -/
def Kernel.alone (s : Kernel) : Kernel := s.withCounts fun _ => 0

theorem brelse_alone (k : ℕ × ℕ) :
    brelse k s.alone = .error (.panic "Trying to free free buffer") s.alone := by
  have hzero : s.alone.bCount k = 0 := rfl
  rw [brelse, get_bind, if_pos hzero]
  rfl

/-- **Nothing is in the entries of a block** of the directory, which can be read; `.` and `..` are
not looked at. -/
structure Clear (s : Kernel) (id : Id) (k : ℕ) : Prop where
  mapped : zoneOf (s.file id) k ≠ 0
  readable : s.readable id.dev (zoneOf (s.file id) k) = true
  free : ∀ o < 64, 2 ≤ 64 * k + o → Directory.ino (s.file id) (zoneOf (s.file id) k, o) = 0

/-- **Nothing is in the directory** but `.` and `..`, as far as it can be read. -/
def AllFree (s : Kernel) (id : Id) : Prop :=
  ∀ i, 2 ≤ i → i < (s.inode id).size / 16 → zoneOf (s.file id) (i / 64) ≠ 0 →
    s.readable id.dev (zoneOf (s.file id) (i / 64)) = true →
    Directory.ino (s.file id) (zoneOf (s.file id) (i / 64), i % 64) = 0

/-- **No hole behind blocks with nothing in them**, from block `k` on. -/
def NoHole (s : Kernel) (id : Id) (k : ℕ) : Prop :=
  ∀ k', k < k' → 64 * k' < (s.inode id).size / 16 →
    (∀ j, k ≤ j → j < k' → Clear s id j) → zoneOf (s.file id) k' ≠ 0

/-! ### The loop -/

/-- What the walk has seen when it comes to entry `o` of block `k`. -/
structure At (s : Kernel) (id : Id) (k o : ℕ) : Prop where
  le : o ≤ 64
  mapped : zoneOf (s.file id) k ≠ 0
  readable : s.readable id.dev (zoneOf (s.file id) k) = true
  block : ∀ i < o, 2 ≤ 64 * k + i → Directory.ino (s.file id) (zoneOf (s.file id) k, i) = 0
  before : ∀ i, 2 ≤ i → i < 64 * k → zoneOf (s.file id) (i / 64) ≠ 0 →
    s.readable id.dev (zoneOf (s.file id) (i / 64)) = true →
    Directory.ino (s.file id) (zoneOf (s.file id) (i / 64), i % 64) = 0

/-- The next entry of the block. -/
theorem At.next (h : At s id k o) (ho : o < 64)
    (hfree : 2 ≤ 64 * k + o → Directory.ino (s.file id) (zoneOf (s.file id) k, o) = 0) :
    At s id k (o + 1) := by
  refine ⟨ho, h.mapped, h.readable, fun i hi htwo => ?_, h.before⟩
  rcases Nat.lt_succ_iff_lt_or_eq.mp hi with hlt | rfl
  · exact h.block i hlt htwo
  · exact hfree htwo

/-- A block is done. -/
theorem At.clear (h : At s id k 64) : Clear s id k := ⟨h.mapped, h.readable, h.block⟩

/-- The next block. -/
theorem At.step (h : At s id k 64) (hmapped : zoneOf (s.file id) (k + 1) ≠ 0)
    (hread : s.readable id.dev (zoneOf (s.file id) (k + 1)) = true) : At s id (k + 1) 0 := by
  refine ⟨Nat.zero_le 64, hmapped, hread, fun i hi => absurd hi (Nat.not_lt_zero i), ?_⟩
  intro i htwo hlt hne hr
  rcases Nat.lt_or_ge i (64 * k) with hlow | hhigh
  · exact h.before i htwo hlow hne hr
  · have hdiv : i / 64 = k := by omega
    have hmod : 64 * k + i % 64 = i := by omega
    rw [hdiv]
    exact h.block (i % 64) (by omega) (by omega)

/-- All entries have been seen. -/
theorem At.allFree (h : At s id k o) (hend : (s.inode id).size / 16 ≤ 64 * k + o) :
    AllFree s id := by
  intro i htwo hlt hne hr
  rcases Nat.lt_or_ge i (64 * k) with hlow | hhigh
  · exact h.before i htwo hlow hne hr
  · have hdiv : i / 64 = k := by
      have := h.le
      omega
    rw [hdiv]
    exact h.block (i % 64) (by omega) (by omega)

/-- **No hole comes**, and the next block is such a block. -/
theorem noHole_step (h : Clear s id k) (hlt : 64 * (k + 1) < (s.inode id).size / 16) :
    NoHole s id k ↔ zoneOf (s.file id) (k + 1) ≠ 0 ∧ NoHole s id (k + 1) := by
  have hone : ∀ j, k ≤ j → j < k + 1 → Clear s id j := fun j hle hj => by
    obtain rfl : j = k := by omega
    exact h
  constructor
  · intro hno
    refine ⟨hno (k + 1) (Nat.lt_succ_self k) hlt hone, fun k' hk' hlen hclear => ?_⟩
    refine hno k' (by omega) hlen fun j hle hj => ?_
    rcases Nat.eq_or_lt_of_le hle with rfl | hlt'
    · exact h
    · exact hclear j hlt' hj
  · rintro ⟨hne, hno⟩ k' hk' hlen hclear
    rcases Nat.eq_or_lt_of_le hk' with heq | hlt'
    · exact heq ▸ hne
    · exact hno k' hlt' hlen fun j hle hj => hclear j (by omega) hj

/-- **Code does what it should** from some counts, with buffers taken: it returns the same from all
of them, and leaves the counts as they were, and it returns 1 only if nothing is in the
directory. -/
def GivesBack (s : Kernel) (id : Id) (C : (ℕ × ℕ → ℕ) → Prop) (take : Kernel → Kernel)
    (m : K Bool) : Prop :=
  ∃ r, (∀ c, C c → m (take (s.withCounts c)) = .ok r (s.withCounts c)) ∧ (r = true → AllFree s id)

variable {C : (ℕ × ℕ → ℕ) → Prop} {take take' : Kernel → Kernel} {m m' : K Bool}

theorem givesBack_congr (h : ∀ c, m (take (s.withCounts c)) = m' (take' (s.withCounts c))) :
    GivesBack s id C take m ↔ GivesBack s id C take' m' := by
  rw [GivesBack, GivesBack]
  simp only [h]

theorem givesBack_false (h : ∀ c, m (take (s.withCounts c)) = .ok false (s.withCounts c)) :
    GivesBack s id C take m :=
  ⟨false, fun c _ => h c, fun hf => absurd hf Bool.false_ne_true⟩

theorem not_givesBack (hc : C c) (h : ∃ e s', m (take (s.withCounts c)) = .error e s') :
    ¬GivesBack s id C take m := by
  obtain ⟨e, s', h⟩ := h
  rintro ⟨r, hrun, -⟩
  have hok := hrun c hc
  rw [h] at hok
  cases hok

/-- The buffer that the walk is in. -/
abbrev holding (s : Kernel) (id : Id) (k : ℕ) (t : Kernel) : Kernel :=
  t.grab (id.dev, zoneOf (s.file id) k)

/-- The way out. -/
theorem out_eq (s : Kernel) (id : Id) (k : ℕ) (r : Bool) (c : ℕ × ℕ → ℕ) :
    (do
      brelse (id.dev, zoneOf (s.file id) k)
      pure r : K Bool) (holding s id k (s.withCounts c)) = .ok r (s.withCounts c) := by
  rw [bind_ok (brelse_grab _ _)]
  rfl

/-- **An entry is looked at**, in a buffer that the walk has. -/
theorem entry_givesBack_iff (rest : K Bool) (ho : o < 64) (htwo : 2 ≤ 64 * k + o)
    (hrest : Directory.ino (s.file id) (zoneOf (s.file id) k, o) = 0 →
      (GivesBack s id C (holding s id k) rest ↔ NoHole s id k)) :
    GivesBack s id C (holding s id k)
      (if Directory.ino (s.file id) (zoneOf (s.file id) k, o) ≠ 0 then do
        brelse (id.dev, zoneOf (s.file id) k)
        pure false
      else rest) ↔ NoHole s id k := by
  by_cases hz : Directory.ino (s.file id) (zoneOf (s.file id) k, o) = 0
  · rw [if_neg fun h => h hz]
    exact hrest hz
  · rw [if_pos hz]
    refine iff_of_true (givesBack_false (out_eq s id k false)) fun k' hk' _ hclear => ?_
    exact absurd ((hclear k le_rfl hk').free o ho htwo) hz

/-- The end of a block: its buffer is released, and the next one is mapped and read. -/
def nextBlock (id : Id) (b k : ℕ) (hole : K Bool) (entry : ℕ → K Bool) : K Bool := do
  brelse (id.dev, b)
  let z ← bmap false id k
  if z = 0 then hole
  else if ← bread id.dev z then entry z
  else pure false

/-- **The next block** is as it should be, if there is no hole where the walk goes on wrongly. -/
theorem nextBlock_givesBack_iff (hole : K Bool) (entry : ℕ → K Bool) (h0 : C fun _ => 0)
    (hat : At s id k 64) (hlt : 64 * (k + 1) < (s.inode id).size / 16)
    (hhole : ∃ e, hole s.alone = .error e s.alone)
    (hentry : At s id (k + 1) 0 →
      (GivesBack s id C (holding s id (k + 1)) (entry (zoneOf (s.file id) (k + 1))) ↔
        NoHole s id (k + 1))) :
    GivesBack s id C (holding s id k)
      (nextBlock id (zoneOf (s.file id) k) (k + 1) hole entry) ↔ NoHole s id k := by
  rw [noHole_step hat.clear hlt]
  have hrun (c : ℕ × ℕ → ℕ) : nextBlock id (zoneOf (s.file id) k) (k + 1) hole entry
      (holding s id k (s.withCounts c)) = (do
        let z ← bmap false id (k + 1)
        if z = 0 then hole
        else if ← bread id.dev z then entry z
        else pure false : K Bool) (s.withCounts c) := bind_ok (brelse_grab _ _)
  by_cases hbig : Bmap.maxBlock ≤ k + 1
  · -- no file has such a block
    have herror := (hrun fun _ => 0).trans (bind_error (bmap_error hbig _))
    exact iff_of_false (not_givesBack h0 ⟨_, _, herror⟩) fun h => h.1 (zoneOf_big hbig)
  have hmap (c : ℕ × ℕ → ℕ) : bmap false id (k + 1) (s.withCounts c) =
      .ok (zoneOf (s.file id) (k + 1)) (s.withCounts c) := bmap_zoneOf (not_le.mp hbig) _
  by_cases hz : zoneOf (s.file id) (k + 1) = 0
  · obtain ⟨e, he⟩ := hhole
    refine iff_of_false (not_givesBack h0 ⟨e, s.alone, (hrun _).trans ?_⟩) fun h => h.1 hz
    rw [bind_ok (hmap _), if_pos hz]
    exact he
  by_cases hread : s.readable id.dev (zoneOf (s.file id) (k + 1)) = true
  · refine Iff.trans (givesBack_congr fun c => ?_) ((hentry (hat.step hz hread)).trans ?_)
    · have hbread : bread id.dev (zoneOf (s.file id) (k + 1)) (s.withCounts c) =
          .ok true (holding s id (k + 1) (s.withCounts c)) := bread_ok hread
      rw [hrun, bind_ok (hmap _), if_neg hz, bind_ok hbread, if_pos rfl]
    · exact ⟨fun h => ⟨hz, h⟩, fun h => h.2⟩
  · refine iff_of_true (givesBack_false fun c => ?_) ⟨hz, fun k' hk' _ hclear => ?_⟩
    · have hbread : bread id.dev (zoneOf (s.file id) (k + 1)) (s.withCounts c) =
          .ok false (s.withCounts c) := bread_error hread
      rw [hrun, bind_ok (hmap _), if_neg hz, bind_ok hbread]
      rfl
    · exact absurd (hclear (k + 1) le_rfl hk').readable hread

/-- A walk whose buffer is released already does not get over the end of it. -/
theorem emptyLoop_stale (b len i : ℕ) (n : ℕ) :
    ∃ e, emptyLoop id len n i b 64 s.alone = .error e s.alone := by
  refine ⟨.panic "Trying to free free buffer", ?_⟩
  cases n with
  | zero =>
    rw [emptyLoop]
    exact bind_error (brelse_alone _)
  | succ n =>
    rw [emptyLoop, get_bind]
    split
    · exact bind_error (brelse_alone _)
    · rw [if_pos le_rfl]
      exact bind_error (brelse_alone _)

/-- **The loop** does what it should, exactly if no hole comes; the induction is on the rounds. -/
theorem emptyLoop_givesBack_iff (h0 : C fun _ => 0) (hat : At s id k o) (htwo : 2 ≤ 64 * k + o)
    (hn : (s.inode id).size / 16 ≤ 64 * k + o + n) :
    GivesBack s id C (holding s id k) (emptyLoop id ((s.inode id).size / 16) n (64 * k + o)
      (zoneOf (s.file id) k) o) ↔ NoHole s id k := by
  have hend {k o : ℕ} (hat : At s id k o) (hle : (s.inode id).size / 16 ≤ 64 * k + o) :
      NoHole s id k := by
    intro k' hk' hlen
    have := hat.le
    omega
  induction n generalizing k o with
  | zero =>
    exact iff_of_true ⟨true, fun c _ => out_eq s id k true c, fun _ => hat.allFree hn⟩
      (hend hat hn)
  | succ n ih =>
    rcases Nat.lt_or_ge (64 * k + o) ((s.inode id).size / 16) with hlt | hle
    · rcases Nat.lt_or_ge o 64 with ho | ho
      · refine Iff.trans (givesBack_congr fun c => ?_)
          (entry_givesBack_iff (emptyLoop id ((s.inode id).size / 16) n (64 * k + (o + 1))
            (zoneOf (s.file id) k) (o + 1)) ho htwo fun hz => ?_)
        · rw [emptyLoop, get_bind, if_neg (not_le.mpr hlt), if_neg (not_le.mpr ho)]
          rfl
        · exact ih (hat.next ho fun _ => hz) (by omega) (by omega)
      · obtain rfl : o = 64 := le_antisymm hat.le ho
        have hdiv : (64 * k + 64) / 64 = k + 1 := by omega
        refine Iff.trans (givesBack_congr fun c => ?_)
          (nextBlock_givesBack_iff
            (emptyLoop id ((s.inode id).size / 16) n (64 * k + 64 + 64) (zoneOf (s.file id) k) 64)
            (fun z => if Directory.ino (s.file id) (z, 0) ≠ 0 then do
                brelse (id.dev, z)
                pure false
              else emptyLoop id ((s.inode id).size / 16) n (64 * (k + 1) + (0 + 1)) z 1)
            h0 hat (by omega) (emptyLoop_stale _ _ _ n) fun hat' => ?_)
        · rw [emptyLoop, get_bind, if_neg (not_le.mpr hlt), if_pos le_rfl, hdiv]
          rfl
        · exact entry_givesBack_iff _ (by decide) (by omega) fun hz =>
            ih (hat'.next (by decide) fun _ => hz) (by omega) (by omega)
    · refine iff_of_true ⟨true, fun c _ => ?_, fun _ => hat.allFree hle⟩ (hend hat hle)
      rw [emptyLoop, get_bind, if_pos hle]
      exact out_eq s id k true c

/-! ### The whole -/

/-- **The first block is read.** -/
structure FirstRead (s : Kernel) (id : Id) : Prop where
  two : 2 ≤ (s.inode id).size / 16
  mapped : (s.inode id).zone 0 ≠ 0
  readable : s.readable id.dev ((s.inode id).zone 0) = true

/-- **`empty_dir` releases what it reads, and nothing else**: it returns with the counts as they
were, also if nobody else has any buffer, when a buffer that is not held could not be released; and
when it returns 1, nothing is in the directory. This is so exactly if, where the first block is
read, the first entries are `.` and `..` and no hole follows blocks with nothing in them. -/
theorem emptyDir_releases_iff (s : Kernel) (id : Id) :
    (∃ r, emptyDir id s = .ok r s ∧ emptyDir id s.alone = .ok r s.alone ∧
      (r = true → AllFree s id)) ↔
      (FirstRead s id → hasDots (s.file id) id.num ((s.inode id).zone 0) = true ∧
        NoHole s id 0) := by
  have hthis : (∃ r, emptyDir id s = .ok r s ∧ emptyDir id s.alone = .ok r s.alone ∧
      (r = true → AllFree s id)) ↔
      GivesBack s id (fun c => c = s.bCount ∨ c = fun _ => 0) (fun t => t) (emptyDir id) := by
    constructor
    · rintro ⟨r, hown, halone, hfree⟩
      refine ⟨r, ?_, hfree⟩
      rintro c (rfl | rfl)
      · exact hown
      · exact halone
    · rintro ⟨r, hrun, hfree⟩
      exact ⟨r, hrun _ (Or.inl rfl), hrun _ (Or.inr rfl), hfree⟩
  rw [hthis]
  by_cases hsize : (s.inode id).size / 16 < 2 ∨ (s.inode id).zone 0 = 0
  · refine iff_of_true (givesBack_false fun c => ?_) fun h => ?_
    · rw [emptyDir, get_bind]
      exact congrFun (if_pos hsize) _
    · rcases hsize with hlt | hz
      · exact absurd h.two (not_le.mpr hlt)
      · exact absurd hz h.mapped
  have hstart (c : ℕ × ℕ → ℕ) : emptyDir id (s.withCounts c) =
      (bread id.dev ((s.inode id).zone 0) >>= fun read =>
        if read = true then
          if hasDots (s.file id) id.num ((s.inode id).zone 0) = false then pure false
          else emptyLoop id ((s.inode id).size / 16) ((s.inode id).size / 16 - 1) 2
            ((s.inode id).zone 0) 2
        else pure false : K Bool) (s.withCounts c) := by
    rw [emptyDir, get_bind]
    exact congrFun (if_neg hsize) _
  rw [not_or, not_lt] at hsize
  by_cases hread : s.readable id.dev ((s.inode id).zone 0) = true
  · have hbread (c : ℕ × ℕ → ℕ) : bread id.dev ((s.inode id).zone 0) (s.withCounts c) =
        .ok true (holding s id 0 (s.withCounts c)) := by
      rw [holding, zoneOf_zero]
      exact bread_ok hread
    have hfirst : FirstRead s id := ⟨hsize.1, hsize.2, hread⟩
    by_cases hdots : hasDots (s.file id) id.num ((s.inode id).zone 0) = true
    · have hat : At s id 0 2 := by
        refine ⟨by decide, ?_, ?_, fun i hi htwo => by omega, fun i _ hi => by omega⟩
        · rw [zoneOf_zero]
          exact hsize.2
        · rw [zoneOf_zero]
          exact hread
      have hloop := emptyLoop_givesBack_iff (C := fun c => c = s.bCount ∨ c = fun _ => 0)
        (Or.inr rfl) hat (by decide) (n := (s.inode id).size / 16 - 1) (by omega)
      refine Iff.trans (givesBack_congr fun c => ?_) (hloop.trans ?_)
      · rw [hstart, bind_ok (hbread c), if_pos rfl, if_neg (by rw [hdots]; exact Bool.noConfusion),
          zoneOf_zero]
      · exact ⟨fun h _ => ⟨hdots, h⟩, fun h => (h hfirst).2⟩
    · -- the first buffer is kept
      refine iff_of_false ?_ fun h => hdots (h hfirst).1
      rintro ⟨r, hrun, -⟩
      have hok := hrun _ (Or.inl rfl)
      rw [hstart, bind_ok (hbread _), if_pos rfl,
        if_pos (Bool.eq_false_of_not_eq_true hdots)] at hok
      have hstate := (EStateM.Result.ok.inj hok).2
      have hcount := congrFun (congrArg Kernel.bCount hstate) (id.dev, zoneOf (s.file id) 0)
      have hself : s.bCount (id.dev, zoneOf (s.file id) 0) + 1 =
          s.bCount (id.dev, zoneOf (s.file id) 0) := (Function.update_self ..).symm.trans hcount
      omega
  · refine iff_of_true (givesBack_false fun c => ?_) fun h => absurd h.readable hread
    rw [hstart, bind_ok (bread_error (s := s.withCounts c) hread)]
    rfl

/-- **A directory with a hole**: 65 entries, of which those of the first block are `.`, `..` and
free ones, and the second block is not there. -/
def holed : Kernel where
  inode _ := ⟨0o40755, 0, 0, 2, 1040, fun i => if i = 0 then 100 else 0, false⟩
  iCount _ := 1
  super _ := ⟨0, none⟩
  maps _ := ⟨0, 0, 0, fun _ => none, fun _ => none⟩
  data _ _ x := if x = 0 ∨ x = 16 then 1 else if x = 2 ∨ x = 18 ∨ x = 19 then 46 else 0
  readable _ _ := true
  bCount _ := 0
  task := ⟨0, 0, ⟨0, 0⟩, ⟨0, 0⟩⟩
  umask := 0

/-- It has not returned. -/
def failed : EStateM.Result Halt Kernel Bool → Bool
  | .ok _ _ => false
  | .error _ _ => true

/-- **`empty_dir` panics** on that directory, when nobody else has its block. -/
theorem not_emptyDir_releases : ¬∀ s id, ∃ r, emptyDir id s = .ok r s ∧
    emptyDir id s.alone = .ok r s.alone ∧ (r = true → AllFree s id) := by
  intro h
  obtain ⟨r, hrun, -⟩ := h holed ⟨0x301, 1⟩
  have hfail : failed (emptyDir ⟨0x301, 1⟩ holed) = true := by decide +kernel
  rw [hrun] at hfail
  exact Bool.false_ne_true hfail

end Linux011.Fs.Names

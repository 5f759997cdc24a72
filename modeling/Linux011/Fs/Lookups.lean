import Linux011.Fs.Names

/-!
# Lookups hold what they return

A lookup of a path in well formed directories (`Linux011.Fs.Names.Tree`) comes to the inode that a
lookup without counts comes to (`Linux011.Fs.namei`), and when it is there it holds that inode, and
nothing else (`Linux011.Fs.Names.dirNamei_spec`, `Linux011.Fs.Names.namei_spec`). So does
`find_entry` with the buffer of the entry it has found, whether or not it has exchanged its
directory.
-/

namespace Linux011.Fs.Names

open Bmap (State Place Spot maxBlock)
open Directory (Pointer Dir slot)

variable {s : Kernel} {id dir up : Id} {k : ℕ × ℕ} {name rest : List UInt8} {α β : Type}
  {f : α → K β} {a : α} {e : Pointer} {i n b o z len entries block : ℕ} {held : Bool}

/-! ### Runs -/

/-! ### Holding and letting go -/

theorem update_back {ι : Type} [DecidableEq ι] (f : ι → ℕ) (k : ι) :
    Function.update (Function.update f k (f k + 1)) k
      (Function.update f k (f k + 1) k - 1) = f := by
  rw [Function.update_self, Function.update_idem, Nat.add_sub_cancel, Function.update_eq_self]

/-- **A buffer that has been taken is given back.** -/
theorem brelse_grab (s : Kernel) (k : ℕ × ℕ) : brelse k (s.grab k) = .ok ⟨⟩ s := by
  have hcount : (s.grab k).bCount k = s.bCount k + 1 := Function.update_self ..
  rw [brelse, get_bind, if_neg (by omega)]
  rw [set_run, Kernel.grab]
  dsimp only
  rw [update_back]

theorem brelseIf_grab (s : Kernel) (held : Bool) (k : ℕ × ℕ) :
    brelseIf held k (if held then s.grab k else s) = .ok ⟨⟩ s := by
  cases held with
  | false => rfl
  | true => exact brelse_grab s k

theorem bread_eq (s : Kernel) (dev block : ℕ) : bread dev block s =
    if s.readable dev block then .ok true (s.grab (dev, block)) else .ok false s := by
  rw [bread, modify_bind, get_bind]
  change (if s.readable dev block then (pure true : K Bool) else _) _ = _
  split
  · rfl
  · rw [bind_ok (brelse_grab s _)]
    rfl

/-- A block that can be read. -/
theorem bread_ok {dev block : ℕ} (h : s.readable dev block = true) :
    bread dev block s = .ok true (s.grab (dev, block)) := by
  rw [bread_eq, if_pos h]

theorem bread_error {dev block : ℕ} (h : ¬s.readable dev block = true) :
    bread dev block s = .ok false s := by
  rw [bread_eq, if_neg h]

/-- **An inode is in use** on its device. -/
def Kernel.Allocated (s : Kernel) (id : Id) : Prop := (id.dev, id.num) ∈ s.bitmap.inodes

/-- **An inode is there for good**: it has a link, or somebody else has it. -/
structure Kernel.Live (s : Kernel) (id : Id) : Prop where
  alloc : s.Allocated id
  stays : (s.inode id).nlinks ≠ 0 ∨ s.iCount id ≠ 0

/-- **An inode that is held is given back.** -/
theorem iput_hold (h : (s.inode id).nlinks ≠ 0 ∨ s.iCount id ≠ 0) :
    iput id (s.hold id) = .ok ⟨⟩ s := by
  have hcount : (s.hold id).iCount id = s.iCount id + 1 := Function.update_self ..
  have hstays : 1 < (s.hold id).iCount id ∨ ((s.hold id).inode id).nlinks ≠ 0 := by
    rcases h with hlinks | hheld
    · exact Or.inr hlinks
    · exact Or.inl (by omega)
  rw [iput, get_bind, if_neg (by omega), if_pos hstays]
  rw [set_run, Kernel.hold]
  dsimp only
  rw [update_back]

theorem hold_comm (s : Kernel) (a b : Id) : (s.hold a).hold b = (s.hold b).hold a := by
  by_cases h : a = b
  · rw [h]
  · rw [Kernel.hold, Kernel.hold, Kernel.hold, Kernel.hold]
    dsimp only
    rw [Function.update_of_ne (Ne.symm h), Function.update_of_ne h, Function.update_comm h]

/-- What is held by somebody stays so. -/
theorem iCount_hold (s : Kernel) (a id : Id) : s.iCount id ≤ (s.hold a).iCount id := by
  rw [Kernel.hold]
  dsimp only
  by_cases h : id = a
  · rw [h, Function.update_self]
    omega
  · rw [Function.update_of_ne h]

theorem Kernel.Live.hold (h : s.Live id) (a : Id) : (s.hold a).Live id :=
  ⟨h.alloc, h.stays.imp_right fun hne => by have := iCount_hold s a id; omega⟩

theorem Kernel.Live.grab (h : s.Live id) (k : ℕ × ℕ) : (s.grab k).Live id := ⟨h.alloc, h.stays⟩

/-! ### `bmap` -/

theorem fill_false (id : Id) (p : Place) (s : Kernel) : fill false id p s = .ok ⟨⟩ s := by
  rw [fill, get_bind, if_neg fun h => Bool.false_ne_true h.1]
  rfl

theorem inTable_false (id : Id) (block i : ℕ) (s : Kernel) : inTable false id block i s =
    .ok (if block = 0 ∨ (s.file id).readable block = false then 0
      else (s.file id).word block i) s := by
  rw [inTable]
  by_cases h0 : block = 0
  · rw [if_pos h0, if_pos (Or.inl h0)]
    rfl
  rw [if_neg h0]
  by_cases hread : s.readable id.dev block = true
  · have hread' : (s.file id).readable block = true := hread
    rw [if_neg (not_or_intro h0 (ne_false_of_eq_true hread')),
      bind_ok (bread_ok hread), if_pos rfl,
      bind_ok (fill_false id _ _), get_bind, bind_ok (brelse_grab s _)]
    rfl
  · rw [if_pos (Or.inr (Bool.not_eq_true _ ▸ hread)),
      bind_ok (bread_error hread),
      if_neg Bool.false_ne_true]
    rfl

/-- **`bmap`** finds the zone of a block, and changes nothing. -/
theorem bmap_false {t : State}
    (h : Bmap.bmap (fun _ => none) false block (s.file id) = .ok (z, t)) :
    bmap false id block s = .ok z s := by
  have hfill : ∀ (t : State) p, t.fill (fun _ => none) false p = t := by
    intro t p
    rw [State.fill, if_neg fun h => Bool.false_ne_true h.1]
  have hzone : (s.inode id).zone = (s.file id).zone := rfl
  rw [Bmap.bmap] at h
  simp only [hfill] at h
  rw [bmap]
  split_ifs at h ⊢ with hbig h7 h512 h0 h0 h1
  · rw [bind_ok (fill_false id _ s), get_bind, ← (Prod.mk.inj (Except.ok.inj h)).1]
    rfl
  · rw [bind_ok (fill_false id _ s), get_bind, inTable_false, hzone, if_pos h0,
      (Prod.mk.inj (Except.ok.inj h)).1]
  · rw [bind_ok (fill_false id _ s), get_bind, inTable_false, hzone, if_neg h0,
      (Prod.mk.inj (Except.ok.inj h)).1]
  · dsimp only
    rw [bind_ok (fill_false id _ s), get_bind, bind_ok (inTable_false id _ _ s), inTable_false,
      hzone, if_pos h0, if_pos (Or.inl rfl), (Prod.mk.inj (Except.ok.inj h)).1]
  · dsimp only
    rw [bind_ok (fill_false id _ s), get_bind, bind_ok (inTable_false id _ _ s), inTable_false,
      hzone, if_neg h0, if_pos h1, (Prod.mk.inj (Except.ok.inj h)).1]
  · dsimp only
    rw [bind_ok (fill_false id _ s), get_bind, bind_ok (inTable_false id _ _ s), inTable_false,
      hzone, if_neg h0, if_neg h1, (Prod.mk.inj (Except.ok.inj h)).1]

/-! ### `find_entry` -/

/-- The buffer of an entry that has been found is held. -/
def Kernel.found (s : Kernel) (dir : Id) : Option Pointer → Kernel
  | none => s
  | some e => s.grab (dir.dev, e.1)

/-- **The loop of `find_entry`** finds what it finds without counts. -/
theorem findLoop_eq {r : Option Pointer} (hheld : o < 64 → held = true)
    (h : Directory.findLoop entries len name (s.file dir) n i b o = .ok r) :
    findLoop dir entries len name n i b held o (if held then s.grab (dir.dev, b) else s) =
      .ok r (s.found dir r) := by
  have hfile : (if held then s.grab (dir.dev, b) else s).file dir = s.file dir := by
    cases held with
    | false => rfl
    | true => rfl
  induction n generalizing i b o held with
  | zero =>
    rw [Directory.findLoop, Except.ok.injEq] at h
    rw [findLoop, bind_ok (brelseIf_grab s held _), ← h]
    rfl
  | succ n ih =>
    rw [Directory.findLoop] at h
    rw [findLoop, get_bind, hfile]
    by_cases hi : entries ≤ i
    · rw [if_pos hi, Except.ok.injEq] at h
      rw [if_pos hi, bind_ok (brelseIf_grab s held _), ← h]
      rfl
    rw [if_neg hi] at h ⊢
    by_cases ho : 64 ≤ o
    · rw [if_pos ho] at h ⊢
      rw [bind_ok (brelseIf_grab s held _)]
      cases hb : Bmap.bmap (fun _ => none) false (i / 64) (s.file dir) with
      | error err =>
        rw [hb] at h
        cases h
      | ok r' =>
        obtain ⟨z, t⟩ := r'
        rw [hb] at h
        dsimp only at h
        rw [bind_ok (bmap_false hb)]
        have hskip : Directory.findLoop entries len name (s.file dir) n (i + 64) b o = .ok r →
            findLoop dir entries len name n (i + 64) b false o s = .ok r (s.found dir r) := by
          intro h
          exact ih (fun hlt => absurd hlt (by omega)) h rfl
        by_cases h0 : z = 0
        · rw [if_pos (Or.inl h0)] at h
          rw [if_pos h0]
          exact hskip h
        rw [if_neg h0]
        by_cases hread : s.readable dir.dev z = true
        · have hread' : (s.file dir).readable z = true := hread
          rw [if_neg (not_or_intro h0 (ne_false_of_eq_true hread'))]
            at h
          rw [bind_ok (bread_ok hread), if_pos rfl]
          split_ifs at h ⊢
          · rw [← Except.ok.inj h]
            rfl
          · exact ih (fun _ => (rfl : true = true)) h rfl
        · rw [if_pos (Or.inr (Bool.not_eq_true _ ▸ hread))] at h
          rw [bind_ok (bread_error hread),
            if_neg Bool.false_ne_true]
          exact hskip h
    · rw [if_neg ho] at h ⊢
      obtain rfl : held = true := hheld (by omega)
      by_cases hmatch : Directory.isMatch len name (s.file dir) (b, o) = true
      · rw [if_pos hmatch] at h ⊢
        rw [← Except.ok.inj h]
        rfl
      · rw [if_neg hmatch] at h ⊢
        exact ih (fun _ => (rfl : true = true)) h rfl

/-- **`find_entry` in one directory.** -/
theorem scan_eq {r : Option Pointer} (h0 : (s.file dir).zone 0 ≠ 0)
    (hread : (s.file dir).readable ((s.file dir).zone 0) = true)
    (h : Directory.findLoop entries len name (s.file dir) entries 0 ((s.file dir).zone 0) 0 =
      .ok r) :
    scan dir entries len name s = .ok r (s.found dir r) := by
  have h0' : (s.inode dir).zone 0 ≠ 0 := h0
  have hread' : s.readable dir.dev ((s.inode dir).zone 0) = true := hread
  rw [scan, get_bind, if_neg h0',
    bind_ok (bread_ok hread'), if_pos rfl]
  exact findLoop_eq (fun _ => (rfl : true = true)) h

/-! ### Well formed directories -/

/-- An inode that an entry may name. -/
structure Kernel.Named (s : Kernel) (id : Id) : Prop where
  alloc : s.Allocated id
  links : (s.inode id).nlinks ≠ 0

theorem Kernel.Named.hold (h : s.Named id) (a : Id) : (s.hold a).Named id := ⟨h.alloc, h.links⟩

theorem Kernel.Named.live (h : s.Named id) : s.Live id := ⟨h.alloc, Or.inl h.links⟩

/-- **A well formed directory**: its blocks can be read, `.` and `..` come first, it is linked to
from where it is and from itself, and what its entries name is there. -/
structure Kernel.GoodDir (s : Kernel) (id : Id) : Prop extends Dir (s.file id) where
  two : 2 ≤ (s.file id).size / 16
  dots : hasDots (s.file id) id.num ((s.file id).zone 0) = true
  links : 2 ≤ (s.inode id).nlinks.toNat
  entry : ∀ i < (s.file id).size / 16, Directory.ino (s.file id) (slot (s.file id) i) ≠ 0 →
    s.Named ⟨id.dev, Directory.ino (s.file id) (slot (s.file id) i)⟩

/-- **All directories are well formed**, and so is what hangs together by mounts. -/
structure Tree (s : Kernel) : Prop where
  dir : ∀ id, s.Allocated id → isDir (s.disk.inode id) = true → s.GoodDir id
  mount : ∀ id i, s.Allocated id → (s.inode id).mount = true → mountedOn s.disk id = some i →
    s.Named ⟨(s.super i).dev, rootIno⟩ ∧ (s.inode ⟨(s.super i).dev, rootIno⟩).mount = false
  up : ∀ dev sb id, s.getSuper dev = some sb → sb.imount = some id →
    s.Allocated id ∧ isDir (s.disk.inode id) = true
  root : s.Allocated s.task.root ∧ s.iCount s.task.root ≠ 0
  pwd : s.Allocated s.task.pwd ∧ s.iCount s.task.pwd ≠ 0

theorem Tree.hold (h : Tree s) (id : Id) : Tree (s.hold id) := by
  have hroot := iCount_hold s id s.task.root
  have hpwd := iCount_hold s id s.task.pwd
  have hroot' := h.root.2
  have hpwd' := h.pwd.2
  refine ⟨fun a ha hd => ?_, fun a i ha hm hi => ?_, h.up, ⟨h.root.1, ?_⟩, ⟨h.pwd.1, ?_⟩⟩
  · obtain ⟨hdir, htwo, hdots, hlinks, hentry⟩ := h.dir a ha hd
    exact ⟨hdir, htwo, hdots, hlinks, fun i hi hne => (hentry i hi hne).hold id⟩
  · exact (h.mount a i ha hm hi).imp_left fun hnamed => hnamed.hold id
  · change (s.hold id).iCount s.task.root ≠ 0
    omega
  · change (s.hold id).iCount s.task.pwd ≠ 0
    omega

theorem Kernel.Allocated.super (h : s.Allocated id) : ∃ sb, s.getSuper id.dev = some sb := by
  obtain ⟨sb, hsb, -⟩ := h
  obtain ⟨sb', hsb', -⟩ := Option.map_eq_some_iff.mp hsb
  exact ⟨sb', hsb'⟩

theorem Kernel.Allocated.dev_ne (h : s.Allocated id) : id.dev ≠ 0 := by
  obtain ⟨sb, hsb⟩ := h.super
  intro h0
  rw [h0] at hsb
  cases hsb

theorem Kernel.Allocated.num_ne (h : s.Allocated id) : id.num ≠ 0 := by
  obtain ⟨sb, -, ⟨hpos, -⟩, -⟩ := h
  have hpos' : 1 ≤ id.num := hpos
  omega

theorem Kernel.GoodDir.links_ne (h : s.GoodDir id) : (s.inode id).nlinks ≠ 0 := by
  intro h0
  have := h.links
  rw [h0] at this
  exact absurd this (by decide)

/-- It has a first block, that can be read. -/
theorem Kernel.GoodDir.first (h : s.GoodDir id) : (s.file id).zone 0 ≠ 0 ∧
    (s.file id).readable ((s.file id).zone 0) = true := by
  have htwo := h.two
  have hne : (s.file id).zone 0 ≠ 0 := (h.whole 0 (by omega)).2
  exact ⟨hne, h.readable (.top 0) (by omega : 0 < 9) hne⟩

/-- The bytes of `.` and `..` -/
theorem hasDots_spec {t : State} {num : ℕ} (h : hasDots t num b = true) :
    Directory.ino t (b, 0) = num ∧ Directory.ino t (b, 1) ≠ 0 ∧
      Directory.nameByte t (b, 0) 0 = 46 ∧ Directory.nameByte t (b, 0) 1 = 0 ∧
      Directory.nameByte t (b, 1) 0 = 46 ∧ Directory.nameByte t (b, 1) 1 = 46 ∧
      Directory.nameByte t (b, 1) 2 = 0 := by
  rw [hasDots] at h
  simp only [Bool.and_eq_true, beq_iff_eq, bne_iff_ne] at h
  obtain ⟨⟨⟨h1, h2⟩, h3, h4⟩, ⟨h5, h6⟩, h7⟩ := h
  exact ⟨h1, h2, h3, h4, h5, h6, h7⟩

/-- `.` matches `..` where that is not to lead out. -/
theorem isMatch_dot (h : s.GoodDir dir) (ha : s.Allocated dir) :
    Directory.isMatch 1 dotdot (s.file dir) ((s.file dir).zone 0, 0) = true := by
  obtain ⟨hino, -, h0, h1, -⟩ := hasDots_spec h.dots
  have hne : Directory.ino (s.file dir) ((s.file dir).zone 0, 0) ≠ 0 := hino ▸ ha.num_ne
  rw [Directory.isMatch, if_neg (by simp [hne]), if_neg (by simp [h1])]
  simp [dotdot, h0, List.range_succ]

/-- The first entry does not match `..`, the second one does. -/
theorem isMatch_dotdot (h : s.GoodDir dir) :
    Directory.isMatch 2 dotdot (s.file dir) ((s.file dir).zone 0, 0) = false ∧
      Directory.isMatch 2 dotdot (s.file dir) ((s.file dir).zone 0, 1) = true := by
  obtain ⟨-, hne, -, h1, h2, h3, h4⟩ := hasDots_spec h.dots
  constructor
  · rw [Directory.isMatch]
    split_ifs
    · rfl
    · rfl
    · simp [dotdot, h1, List.range_succ]
  · rw [Directory.isMatch, if_neg (by simp [hne]), if_neg (by simp [h4])]
    simp [dotdot, h2, h3, List.range_succ]

/-- **The first entries**, as a lookup without counts goes through them. -/
theorem scan_first (h : s.GoodDir dir) (hlen : len ≤ 14) (hi : i < 2) (hn : i < entries)
    (hmatch : Directory.isMatch len name (s.file dir) ((s.file dir).zone 0, i) = true)
    (hless : ∀ j < i, Directory.isMatch len name (s.file dir) ((s.file dir).zone 0, j) = false) :
    Fs.scan entries len name (s.disk.inode dir) = some i := by
  have htwo := h.two
  have hslot : ∀ j < 2, slot (s.file dir) j = ((s.file dir).zone 0, j) := by
    intro j hj
    rw [slot, show j / 64 = 0 by omega, show j % 64 = j by omega]
    rfl
  have hgood : ∀ j < 2, (s.disk.inode dir).zone (j / 64) = .good :=
    fun j hj => h.toDir.good _ (by omega)
  have hflat : ∀ j < 2, Fs.isMatch len name (s.disk.inode dir) j =
      Directory.isMatch len name (s.file dir) ((s.file dir).zone 0, j) :=
    fun j hj => (Directory.isMatch_flat _ hlen).symm.trans (by rw [hslot j hj])
  rw [Fs.scan, if_pos (hgood 0 (by omega)), List.find?_range_eq_some]
  refine ⟨?_, List.mem_range.mpr hn, fun j hj => ?_⟩
  · rw [hgood i hi, hflat i hi, hmatch]
    rfl
  · rw [hflat j (by omega), hless j hj]
    simp

/-- The loop of `find_entry` over the first entries. -/
theorem loop_first (hi : i < 2) (hn : i < entries)
    (hmatch : Directory.isMatch len name (s.file dir) (b, i) = true)
    (hless : ∀ j < i, Directory.isMatch len name (s.file dir) (b, j) = false) :
    Directory.findLoop entries len name (s.file dir) entries 0 b 0 = .ok (some (b, i)) := by
  obtain ⟨n, rfl⟩ := Nat.exists_eq_add_of_lt hn
  obtain rfl | rfl : i = 0 ∨ i = 1 := by omega
  · rw [Nat.zero_add, Directory.findLoop, if_neg (by omega), if_neg (by decide), if_pos hmatch]
  · rw [show 1 + n + 1 = n + 1 + 1 by omega, Directory.findLoop, if_neg (by omega),
      if_neg (by decide), if_neg (by rw [hless 0 (by omega)]; decide), Directory.findLoop,
      if_neg (by omega), if_neg (by decide), if_pos hmatch]

/-- **What `find_entry` does in one directory**, with and without counts. -/
structure Scans (s : Kernel) (dir : Id) (entries len : ℕ) (name : List UInt8) (r : Option ℕ) :
    Prop where
  look : Fs.scan entries len name (s.disk.inode dir) = r
  run : ∀ id, scan dir entries len name (s.hold id) =
    .ok (r.map (slot (s.file dir))) ((s.hold id).found dir (r.map (slot (s.file dir))))
  hit : ∀ i, r = some i → i < (s.file dir).size / 16 ∧
    Directory.ino (s.file dir) (slot (s.file dir) i) ≠ 0

/-- What matches is in use. -/
theorem ino_of_isMatch {t : State} (h : Directory.isMatch len name t e = true) :
    Directory.ino t e ≠ 0 := by
  intro h0
  rw [Directory.isMatch, if_pos (Or.inl h0)] at h
  cases h

theorem scans_first (h : s.GoodDir dir) (hlen : len ≤ 14) (hi : i < 2) (hn : i < entries)
    (hmatch : Directory.isMatch len name (s.file dir) ((s.file dir).zone 0, i) = true)
    (hless : ∀ j < i, Directory.isMatch len name (s.file dir) ((s.file dir).zone 0, j) = false) :
    Scans s dir entries len name (some i) := by
  have htwo := h.two
  have hslot : slot (s.file dir) i = ((s.file dir).zone 0, i) := by
    rw [slot, show i / 64 = 0 by omega, show i % 64 = i by omega]
    rfl
  refine ⟨scan_first h hlen hi hn hmatch hless, fun id => ?_, fun j hj => ?_⟩
  · rw [Option.map_some, hslot]
    exact scan_eq (s := s.hold id) h.first.1 h.first.2 (loop_first hi hn hmatch hless)
  · obtain rfl := Option.some.inj hj
    rw [hslot]
    exact ⟨by omega, ino_of_isMatch hmatch⟩

/-- **A name other than `..`** -/
theorem scans_name (h : s.GoodDir dir) (hname : name ≠ []) :
    ∃ r, Scans s dir ((s.file dir).size / 16) (min name.length 14) name r := by
  obtain ⟨h0, hread⟩ := h.first
  have hcur : Directory.Cursor (s.file dir) 0 ((s.file dir).zone 0) 0 :=
    Directory.cursor_block rfl (by decide) h0
  have hloop := @Directory.findLoop_eq _ name 0 ((s.file dir).size / 16) _ _ (min name.length 14)
    h.toDir hcur (by omega)
  have hscan := Directory.findEntry_eq_scan h.toDir (s.bare dir) hname
  rw [Directory.findEntry_eq h.toDir hname, Except.ok.injEq] at hscan
  rw [Nat.sub_zero, ← List.range_eq_range', hscan] at hloop
  refine ⟨_, rfl, fun id => scan_eq (s := s.hold id) h0 hread hloop, fun i hi => ?_⟩
  rw [Fs.scan] at hi
  split at hi
  · rw [List.find?_range_eq_some] at hi
    obtain ⟨hp, hmem, -⟩ := hi
    have hmatch : Fs.isMatch (min name.length 14) name (s.disk.inode dir) i = true :=
      (of_decide_eq_true hp).2
    rw [Kernel.disk, ← Directory.isMatch_flat (s.bare dir) (Nat.min_le_right _ _)] at hmatch
    exact ⟨List.mem_range.mp hmem, ino_of_isMatch hmatch⟩
  · cases hi

/-- What `find_entry` comes to. -/
structure Finds (s : Kernel) (dir : Id) (name : List UInt8) (dir' : Id) (r : Option ℕ) : Prop where
  look : Fs.findEntry s.disk s.task dir name = .ok (dir', r)
  run : findEntry dir name (s.hold dir) = .ok (dir', r.map (slot (s.file dir')))
    ((s.hold dir').found dir' (r.map (slot (s.file dir'))))
  live : s.Live dir'
  isDir : isDir (s.disk.inode dir') = true
  hit : ∀ i, r = some i → i < (s.file dir').size / 16 ∧
    Directory.ino (s.file dir') (slot (s.file dir') i) ≠ 0

/-- **`find_entry`** finds what it finds without counts, and holds the directory it has been in. -/
theorem findEntry_spec (h : Tree s) (hl : s.Live dir) (hd : isDir (s.disk.inode dir) = true)
    (name : List UInt8) : ∃ dir' r, Finds s dir name dir' r := by
  have hgood := h.dir dir hl.alloc hd
  have htwo := hgood.two
  have hsize : (s.disk.inode dir).size = (s.file dir).size := rfl
  have hsize' : ((s.hold dir).inode dir).size = (s.file dir).size := rfl
  have hroot : (s.hold dir).task.root = s.task.root := rfl
  have hsuper : (s.hold dir).getSuper dir.dev = Fs.getSuper s.disk dir.dev := rfl
  -- the search in the directory itself
  have hscan : ∀ {r : Option ℕ} {len : ℕ}, Scans s dir ((s.file dir).size / 16) len name r →
      (do
        let r ← scan dir ((s.file dir).size / 16) len name
        pure (dir, r) : K (Id × Option Pointer)) (s.hold dir) =
      .ok (dir, r.map (slot (s.file dir)))
        ((s.hold dir).found dir (r.map (slot (s.file dir)))) := by
    intro r len hr
    rw [bind_ok (hr.run dir)]
    rfl
  by_cases hlen : min name.length 14 = 0
  · refine ⟨dir, none, ?_, ?_, hl, hd, (by rintro i ⟨⟩)⟩
    · rw [Fs.findEntry, if_pos hlen]
      rfl
    · rw [findEntry, get_bind, if_pos hlen]
      rfl
  by_cases hname : name = dotdot
  · obtain ⟨hno, hyes⟩ := isMatch_dotdot hgood
    have hone : ∀ {b : ℕ}, Directory.isMatch 2 dotdot (s.file dir) (b, 0) = false →
        ∀ j < 1, Directory.isMatch 2 dotdot (s.file dir) (b, j) = false := by
      intro b hb j hj
      rwa [Nat.lt_one_iff.mp hj]
    have hup : Scans s dir ((s.file dir).size / 16) 2 name (some 1) :=
      scans_first hgood (by decide) (by decide) htwo (hname ▸ hyes) (hname ▸ hone hno)
    by_cases heq : dir = s.task.root
    · have hr : Scans s dir ((s.file dir).size / 16) 1 name (some 0) :=
        scans_first hgood (by decide) (by decide) (by omega) (hname ▸ isMatch_dot hgood hl.alloc)
          fun j hj => absurd hj (Nat.not_lt_zero j)
      refine ⟨dir, some 0, ?_, ?_, hl, hd, hr.hit⟩
      · rw [Fs.findEntry, if_neg hlen, if_pos hname, if_pos heq, hsize, hr.look]
        rfl
      · rw [findEntry, get_bind, if_neg hlen, if_pos hname, hroot, if_pos heq, hsize']
        exact hscan hr
    by_cases hnum : dir.num = rootIno
    · obtain ⟨sb, hsb⟩ := hl.alloc.super
      have hsb' : Fs.getSuper s.disk dir.dev = some sb := hsb
      cases hmount : sb.imount with
      | none =>
        refine ⟨dir, some 1, ?_, ?_, hl, hd, hup.hit⟩
        · rw [Fs.findEntry, if_neg hlen, if_pos hname, if_neg heq, if_pos hnum, hsb']
          dsimp only
          rw [hmount, hsize, Option.getD_none, hup.look]
          rfl
        · rw [findEntry, get_bind, if_neg hlen, if_pos hname, hroot, if_neg heq, if_pos hnum,
            hsuper, hsb']
          dsimp only
          rw [hmount, hsize']
          exact hscan hup
      | some up =>
        -- the directory is exchanged
        obtain ⟨halloc, hisDir⟩ := h.up dir.dev sb up hsb hmount
        have hgood' := h.dir up halloc hisDir
        obtain ⟨hno', hyes'⟩ := isMatch_dotdot hgood'
        have hup' : Scans s up ((s.file dir).size / 16) 2 name (some 1) := by
          refine scans_first hgood' (by decide) (by decide) htwo (hname ▸ hyes') fun j hj => ?_
          rw [Nat.lt_one_iff.mp hj, hname]
          exact hno'
        refine ⟨up, some 1, ?_, ?_, ⟨halloc, Or.inl hgood'.links_ne⟩, hisDir, hup'.hit⟩
        · rw [Fs.findEntry, if_neg hlen, if_pos hname, if_neg heq, if_pos hnum, hsb']
          dsimp only
          rw [hmount, hsize, Option.getD_some, hup'.look]
          rfl
        · rw [findEntry, get_bind, if_neg hlen, if_pos hname, hroot, if_neg heq, if_pos hnum,
            hsuper, hsb']
          dsimp only
          rw [hmount, hsize']
          dsimp only
          rw [bind_ok (iput_hold hl.stays), modify_bind, bind_ok (hup'.run up)]
          rfl
    · refine ⟨dir, some 1, ?_, ?_, hl, hd, hup.hit⟩
      · rw [Fs.findEntry, if_neg hlen, if_pos hname, if_neg heq, if_neg hnum, hsize, hup.look]
        rfl
      · rw [findEntry, get_bind, if_neg hlen, if_pos hname, hroot, if_neg heq, if_neg hnum, hsize']
        exact hscan hup
  · have hne : name ≠ [] := by
      rintro rfl
      exact hlen rfl
    obtain ⟨r, hr⟩ := scans_name hgood hne
    refine ⟨dir, r, ?_, ?_, hl, hd, hr.hit⟩
    · rw [Fs.findEntry, if_neg hlen, if_neg hname, hsize, hr.look]
      rfl
    · rw [findEntry, get_bind, if_neg hlen, if_neg hname, hsize']
      exact hscan hr

/-! ### Paths -/

/-- What a lookup returns is held. -/
def Kernel.holding (s : Kernel) : Option Id → Kernel
  | none => s
  | some id => s.hold id

/-- **`iget`** holds the inode, or the root of what is mounted there. -/
theorem iget_spec (h : Tree s) (hn : s.Named id) : ∃ r, Fs.iget s.disk id = .ok r ∧
    iget id s = .ok r (s.hold r) ∧ s.Named r := by
  have hdev := hn.alloc.dev_ne
  rw [Fs.iget, iget, if_neg hdev, if_neg hdev, Fs.igetFrom, igetFrom, modify_bind, get_bind]
  have hmount : ((s.hold id).inode id).mount = (s.disk.inode id).mount := rfl
  have hon : mountedOn (s.hold id).disk id = mountedOn s.disk id := rfl
  rw [hmount, hon]
  by_cases hm : (s.disk.inode id).mount = true
  · rw [if_pos hm, if_pos hm]
    cases hi : mountedOn s.disk id with
    | none => exact ⟨id, rfl, rfl, hn⟩
    | some i =>
      obtain ⟨hroot, hno⟩ := h.mount id i hn.alloc hm hi
      have hno' : ¬(s.disk.inode ⟨(s.super i).dev, rootIno⟩).mount = true := by
        rw [show (s.disk.inode ⟨(s.super i).dev, rootIno⟩).mount = false from hno]
        exact Bool.false_ne_true
      refine ⟨⟨(s.super i).dev, rootIno⟩, ?_, ?_, hroot⟩
      · dsimp only
        rw [Fs.igetFrom]
        exact if_neg hno'
      · dsimp only
        rw [bind_ok (iput_hold (Or.inl hn.links)), igetFrom, modify_bind, get_bind]
        exact congrFun (if_neg hno') _
  · rw [if_neg hm, if_neg hm]
    exact ⟨id, rfl, rfl, hn⟩

/-- **An entry is followed.** -/
theorem follow_spec (h : Tree s) {dir' : Id} {r : Option ℕ} (hf : Finds s dir name dir' r)
    (hi : r = some i) : ∃ id,
    Fs.iget s.disk ⟨dir'.dev, dirIno (s.disk.inode dir') i⟩ = .ok id ∧
      follow dir' (slot (s.file dir') i)
        ((s.hold dir').found dir' (some (slot (s.file dir') i))) = .ok id (s.hold id) ∧
      s.Named id := by
  obtain ⟨hlt, hne⟩ := hf.hit i hi
  have hnamed := (h.dir dir' hf.live.alloc hf.isDir).entry i hlt hne
  obtain ⟨id, hlook, hrun, hid⟩ := iget_spec h hnamed
  rw [Directory.ino_flat (s.bare dir')] at hlook
  refine ⟨id, hlook, ?_, hid⟩
  rw [follow, get_bind]
  change (do
    brelse (dir'.dev, (slot (s.file dir') i).1)
    iput dir'
    iget ⟨dir'.dev, Directory.ino (s.file dir') (slot (s.file dir') i)⟩ : K Id)
      ((s.hold dir').grab (dir'.dev, (slot (s.file dir') i).1)) = _
  rw [bind_ok (brelse_grab _ _), bind_ok (iput_hold hf.live.stays), hrun]

/-- **The loop of `get_dir`** comes to a directory, and holds it: the induction is on the path. -/
theorem walk_spec (h : Tree s) (hl : s.Live id) (hd : isDir (s.disk.inode id) = true) :
    ∃ r, Fs.walk s.disk s.task id name rest = .ok r ∧
      walk id name rest (s.hold id) = .ok r (s.holding r) ∧
      ∀ id', r = some id' → s.Live id' ∧ isDir (s.disk.inode id') = true := by
  induction rest generalizing id name with
  | nil =>
    refine ⟨some id, rfl, rfl, fun id' hid' => ?_⟩
    obtain rfl := Option.some.inj hid'
    exact ⟨hl, hd⟩
  | cons c rest ih =>
    rw [Fs.walk, walk]
    by_cases hc : c = slash
    · rw [if_pos hc, if_pos hc]
      obtain ⟨dir', r, hf⟩ := findEntry_spec h hl hd name
      rw [hf.look, bind_ok hf.run]
      cases r with
      | none =>
        refine ⟨none, rfl, ?_, (by rintro _ ⟨⟩)⟩
        exact bind_ok (iput_hold hf.live.stays)
      | some i =>
        obtain ⟨id', hlook, hrun, hnamed⟩ := follow_spec h hf rfl
        have hget : (s.hold id').disk = s.disk := rfl
        have hrest : ∀ r, (if passable s.disk s.task id' then walk id' [] rest
            else do
              iput id'
              pure none : K (Option Id)) (s.hold id') = r →
            (do
              let id ← follow dir' (slot (s.file dir') i)
              let s ← get
              if passable s.disk s.task id then walk id [] rest
              else do
                iput id
                pure none : K (Option Id))
              ((s.hold dir').found dir' (some (slot (s.file dir') i))) = r := by
          intro r hr
          rw [bind_ok hrun]
          exact hr
        by_cases hp : passable s.disk s.task id' = true
        · obtain ⟨r, hlook', hrun', hr⟩ := @ih id' [] hnamed.live (isDir_of_passable hp)
          refine ⟨r, ?_, hrest _ (by rw [if_pos hp]; exact hrun'), hr⟩
          change (Fs.iget s.disk _ >>= _) = _
          rw [hlook]
          exact (if_pos hp).trans hlook'
        · refine ⟨none, ?_, hrest _ ?_, (by rintro _ ⟨⟩)⟩
          · change (Fs.iget s.disk _ >>= _) = _
            rw [hlook]
            exact if_neg hp
          · rw [if_neg hp]
            exact bind_ok (iput_hold hnamed.live.stays)
    · rw [if_neg hc, if_neg hc]
      exact ih hl hd

theorem start_spec (h : Tree s) (hl : s.Live id) :
    ∃ r, (if passable s.disk s.task id then Fs.walk s.disk s.task id [] rest else pure none) =
        .ok r ∧
      start id rest s = .ok r (s.holding r) ∧
      ∀ id', r = some id' → s.Live id' ∧ isDir (s.disk.inode id') = true := by
  rw [start, modify_bind, get_bind]
  have hpass : passable (s.hold id).disk (s.hold id).task id = passable s.disk s.task id := rfl
  rw [hpass]
  by_cases hp : passable s.disk s.task id = true
  · rw [if_pos hp, if_pos hp]
    exact walk_spec h hl (isDir_of_passable hp)
  · rw [if_neg hp, if_neg hp]
    exact ⟨none, rfl, bind_ok (iput_hold hl.stays), (by rintro _ ⟨⟩)⟩

/-- **`get_dir`** -/
theorem getDir_spec (h : Tree s) (path : List UInt8) :
    ∃ r, Fs.getDir s.disk s.task path = .ok r ∧ getDir path s = .ok r (s.holding r) ∧
      ∀ id, r = some id → s.Live id ∧ isDir (s.disk.inode id) = true := by
  rw [getDir, get_bind, if_neg h.root.2, if_neg h.pwd.2]
  cases path with
  | nil => exact ⟨none, rfl, rfl, (by rintro _ ⟨⟩)⟩
  | cons c rest =>
    rw [Fs.getDir]
    dsimp only
    split
    · exact start_spec h ⟨h.root.1, Or.inr h.root.2⟩
    · exact start_spec h ⟨h.pwd.1, Or.inr h.pwd.2⟩

/-- **`dir_namei`** holds the directory that a lookup without counts comes to. -/
theorem dirNamei_spec (h : Tree s) (path : Path) :
    ∃ r, Fs.dirNamei s.disk s.task path = .ok r ∧
      dirNamei path s = .ok r (s.holding (r.map Prod.fst)) ∧
      ∀ id name, r = some (id, name) → s.Live id ∧ isDir (s.disk.inode id) = true := by
  obtain ⟨r, hlook, hrun, hr⟩ := getDir_spec h path.1
  rw [Fs.dirNamei, dirNamei, hlook, bind_ok hrun]
  cases r with
  | none => exact ⟨none, rfl, rfl, (by rintro _ _ ⟨⟩)⟩
  | some dir =>
    refine ⟨some (dir, basename [] path.1), rfl, rfl, fun id name hid => ?_⟩
    obtain ⟨rfl, -⟩ := Prod.mk.inj (Option.some.inj hid)
    exact hr dir rfl

/-- **`namei`** holds the inode that a lookup without counts comes to. -/
theorem namei_spec (h : Tree s) (path : Path) :
    ∃ r, Fs.namei s.disk s.task path = .ok r ∧ namei path s = .ok r (s.holding r) ∧
      ∀ id, r = some id → s.Live id := by
  obtain ⟨r, hlook, hrun, hr⟩ := dirNamei_spec h path
  rw [Fs.namei, namei, hlook, bind_ok hrun]
  cases r with
  | none => exact ⟨none, rfl, rfl, (by rintro _ ⟨⟩)⟩
  | some p =>
    obtain ⟨dir, name⟩ := p
    obtain ⟨hl, hd⟩ := hr dir name rfl
    by_cases hname : name = []
    · refine ⟨some dir, if_pos hname, congrFun (if_pos hname) _, fun id hid => ?_⟩
      exact Option.some.inj hid ▸ hl
    obtain ⟨dir', r, hf⟩ := findEntry_spec h hl hd name
    cases r with
    | none =>
      refine ⟨none, (if_neg hname).trans ?_, (congrFun (if_neg hname) _).trans ?_,
        (by rintro _ ⟨⟩)⟩
      · rw [hf.look]
        rfl
      · exact (bind_ok hf.run).trans (bind_ok (iput_hold hf.live.stays))
    | some i =>
      obtain ⟨id, hlook', hrun', hnamed⟩ := follow_spec h hf rfl
      refine ⟨some id, (if_neg hname).trans ?_, (congrFun (if_neg hname) _).trans ?_,
        fun id' hid => Option.some.inj hid ▸ hnamed.live⟩
      · rw [hf.look]
        change some <$> Fs.iget s.disk _ = _
        rw [hlook']
        rfl
      · exact (bind_ok hf.run).trans (bind_ok hrun')

end Linux011.Fs.Names

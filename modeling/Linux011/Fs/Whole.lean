import Linux011.Fs.Adding

/-!
# Whole file systems

File systems whose directories are well formed, whose maps are consistent, and whose files have
blocks of their own (`Linux011.Fs.Names.Whole`). On these, what an inode has can be freed by the
last `iput` (`Linux011.Fs.Names.iput_spec`), and what is done to one directory leaves the blocks of
the other files as they are (`Linux011.Fs.Names.Grows.blocks`). The parts that the calls on names
have in common are here: what comes before a name is made or removed, `empty_dir`, and the ways out.
-/

namespace Linux011.Fs.Names

open Bmap (State Place Spot Outside)
open Directory (Pointer Dir slot)

variable {s s' u : Kernel} {id dir : Id} {k : ℕ × ℕ} {name : List UInt8} {α : Type}
  {e : Pointer} {i n b o z : ℕ} {t : State} {path : Path}

/-! ### File systems that are whole -/

/-- It is in use, and has blocks of its own. -/
structure Kernel.Stored (s : Kernel) (id : Id) : Prop where
  alloc : s.Allocated id
  stored : isStored (s.disk.inode id) = true

/-- **Whole file systems**: directories are well formed, the maps are consistent, the blocks of
files are in use and no two files have one, and nobody has an inode that is free. -/
structure Whole (s : Kernel) : Prop extends Tree s where
  maps : Bitmap.Consistent s.bitmap
  short : Short s
  unheld : ∀ id, ¬s.Allocated id → s.iCount id = 0
  used : ∀ id, s.Stored id → s.Inside id
  apart : ∀ a b, s.Stored a → s.Stored b → a.dev = b.dev → ∀ p q : Spot, p.Ok → q.Ok →
    (s.file a).at p ≠ 0 → (s.file a).at p = (s.file b).at q → a = b ∧ p = q

/-- A directory has blocks of its own. -/
theorem stored_of_isDir (ha : s.Allocated dir) (hd : isDir (s.disk.inode dir) = true) :
    s.Stored dir := by
  refine ⟨ha, ?_⟩
  rw [isStored, hd, Bool.or_true]

/-- A directory is there for good. -/
theorem Tree.live (h : Tree s) (ha : s.Allocated dir) (hd : isDir (s.disk.inode dir) = true) :
    s.Live dir := ⟨ha, Or.inl (h.dir dir ha hd).links_ne⟩

theorem Whole.distinct (h : Whole s) (hs : s.Stored id) : Distinct (s.file id) :=
  fun p q hp hq hne heq => (h.apart id id hs hs rfl p q hp hq hne heq).2

theorem blocks_nodup (h : isStored (s.disk.inode id) = true → Distinct (s.file id)) :
    (s.blocks id).Nodup := by
  rw [Kernel.blocks]
  split_ifs with hs
  · exact (nodup_frees (h hs)).map fun _ _ heq => (Prod.mk.inj heq).2
  · exact List.nodup_nil

theorem blocks_mem (h : isStored (s.disk.inode id) = true → s.Inside id) :
    ∀ k ∈ s.blocks id, k ∈ s.bitmap.zones := by
  intro k hk
  rw [Kernel.blocks] at hk
  split_ifs at hk with hs
  · obtain ⟨z, hz, rfl⟩ := List.mem_map.mp hk
    obtain ⟨hne, p, hp, rfl⟩ := mem_frees hz
    exact h hs p hp hne
  · cases hk

/-- **The blocks of an inode** are different ones. -/
theorem Whole.blocks_nodup (h : Whole s) (ha : s.Allocated id) : (s.blocks id).Nodup :=
  Names.blocks_nodup fun hs => h.distinct ⟨ha, hs⟩

/-- **The blocks of an inode** are in use. -/
theorem Whole.blocks_mem (h : Whole s) (ha : s.Allocated id) :
    ∀ k ∈ s.blocks id, k ∈ s.bitmap.zones := Names.blocks_mem fun hs => h.used id ⟨ha, hs⟩

/-! ### The last `iput` -/

/-- **An inode that is held is given back**, whatever has been done to buffers. -/
theorem iput_back (hcount : u.iCount = (s.hold id).iCount)
    (hstays : (u.inode id).nlinks ≠ 0 ∨ s.iCount id ≠ 0) :
    iput id u = .ok ⟨⟩ { u with iCount := s.iCount } := by
  have hu : { u with iCount := s.iCount }.hold id = u := by
    change { u with iCount := (s.hold id).iCount } = u
    rw [← hcount]
  exact (congrArg (iput id) hu.symm).trans (iput_hold hstays)

/-- **What `iput` does** when an inode that is held is given back: if it has no links, and nobody
else has it, then its blocks are freed. -/
theorem iput_spec (hc : Bitmap.Consistent s.bitmap) (ha : s.Allocated id)
    (hnodup : (s.blocks id).Nodup) (hmem : ∀ k ∈ s.blocks id, k ∈ s.bitmap.zones) :
    ∃ u, iput id (s.hold id) = .ok ⟨⟩ u ∧ u.iCount = s.iCount ∧ (u.bCount = s.bCount ↔
      ((s.inode id).nlinks = 0 → s.iCount id = 0 → ∀ k ∈ s.blocks id, s.bCount k = 0)) ∧
      (∀ a ≠ id, u.inode a = s.inode a) ∧ ∀ k, s.bCount k ≤ u.bCount k := by
  by_cases hgone : (s.inode id).nlinks = 0 ∧ s.iCount id = 0
  · obtain ⟨hlinks, hcount⟩ := hgone
    have hone : (s.hold id).iCount id = 1 := by
      rw [Kernel.hold]
      dsimp only
      rw [Function.update_self, hcount]
    obtain ⟨u, hrun, hiCount, hbalanced, hinode, hmono⟩ :=
      @iput_deletes (s.hold id) id hc ha hone hlinks hnodup hmem
    refine ⟨u, hrun, ?_, hbalanced.trans ⟨fun h _ _ => h, fun h => h hlinks hcount⟩, hinode,
      hmono⟩
    rw [hiCount, Kernel.hold]
    dsimp only
    rw [Function.update_idem, ← hcount, Function.update_eq_self]
  · refine ⟨s, iput_hold ?_, rfl, ⟨fun _ hlinks hcount => absurd ⟨hlinks, hcount⟩ hgone,
      fun _ => rfl⟩, fun _ _ => rfl, fun _ => le_rfl⟩
    rwa [not_and_or] at hgone

/-! ### Blocks that are not touched -/

theorem freesTable_congr {t' : State} {g g' : ℕ → List ℕ}
    (h : b ≠ 0 → t'.data b = t.data b ∧ t'.readable b = t.readable b)
    (hg : ∀ i < 512, b ≠ 0 → t.word b i ≠ 0 → g' (t.word b i) = g (t.word b i)) :
    freesTable t' g' b = freesTable t g b := by
  rw [freesTable, freesTable]
  by_cases h0 : b = 0
  · rw [if_pos h0, if_pos h0]
  obtain ⟨hdata, hread⟩ := h h0
  rw [if_neg h0, if_neg h0, hread]
  refine congrArg (fun l => l ++ [b]) (if_congr Iff.rfl ?_ rfl)
  refine List.flatMap_congr fun i hi => ?_
  rw [Bmap.word_congr hdata]
  by_cases hword : t.word b i = 0
  · rw [if_pos hword, if_pos hword]
  · rw [if_neg hword, if_neg hword]
    have hi := (List.mem_range'_1.mp hi).2
    exact hg i (by omega) h0 hword

/-- **The blocks of a file** are known from its tables. -/
theorem frees_congr {t' : State} (hzone : t'.zone = t.zone)
    (h : ∀ r : Spot, r.Table → t.at r ≠ 0 →
      t'.data (t.at r) = t.data (t.at r) ∧ t'.readable (t.at r) = t.readable (t.at r)) :
    frees t' = frees t := by
  have hind : ∀ r : Spot, r.Table → t.at r ≠ 0 → freesInd t' (t.at r) = freesInd t (t.at r) :=
    fun r hr hne => freesTable_congr (fun _ => h r hr hne) fun _ _ _ _ => rfl
  rw [frees, frees, freesTop, freesTop, hzone]
  congr 1
  · congr 1
    by_cases h0 : t.zone 7 = 0
    · rw [h0]
      rfl
    · exact hind (.top 7) (Or.inl rfl) h0
  · refine freesTable_congr (fun h0 => h (.top 8) (Or.inr rfl) h0) fun i hi h0 hword => ?_
    have hat : t.at (.under (.top 8) i) = t.word (t.zone 8) i := if_neg h0
    rw [← hat] at hword ⊢
    exact hind _ ⟨rfl, hi⟩ hword

theorem isStored_congr (h : (s'.inode id).mode = (s.inode id).mode) :
    isStored (s'.disk.inode id) = isStored (s.disk.inode id) := by
  have hmode : (s'.disk.inode id).mode = (s.disk.inode id).mode := h
  rw [isStored, isStored, isReg, isReg, isDir, isDir, hmode]

/-- **The other files have the blocks that they had**, when a directory grows. -/
theorem Grows.blocks (h : Grows dir s s' t) (hw : Whole s) (hd : s.Stored dir)
    (ha : s.Allocated id) (hne : id ≠ dir) : s'.blocks id = s.blocks id := by
  have hinode : s'.inode id = s.inode id := by
    rw [h.inode]
    exact Function.update_of_ne hne ..
  rw [Kernel.blocks, Kernel.blocks, isStored_congr (congrArg Inode.mode hinode)]
  by_cases hs : isStored (s.disk.inode id) = true
  · rw [if_pos hs, if_pos hs]
    refine congrArg _ (frees_congr ?_ fun r hr h0 => ?_)
    · change (s'.inode id).zone = _
      rw [hinode]
      rfl
    · have hstored : s.Stored id := ⟨ha, hs⟩
      by_cases hdev : id.dev = dir.dev
      · have hzone := hw.used id hstored r hr.ok h0
        have hused : (s.file dir).used ((s.file id).at r) = true := by
          rw [← Bool.not_eq_false]
          rw [hdev] at hzone
          exact fun hfree => (used_eq_false.mp hfree).2 hzone
        have hno : ∀ p : Spot, p.Ok → (s.file dir).at p ≠ (s.file id).at r := by
          intro p hp heq
          exact hne (hw.apart id dir hstored hd hdev r p hr.ok hp h0 heq.symm).1
        have hdata := h.outside.data _ hused hno
        have hread := h.outside.readable _ hused
        have hfile : s'.data id.dev = t.data ∧ s'.readable id.dev = t.readable := by
          rw [← h.file, hdev]
          exact ⟨rfl, rfl⟩
        change s'.data id.dev _ = s.data id.dev _ ∧ s'.readable id.dev _ = s.readable id.dev _
        rw [hfile.1, hfile.2, hdev]
        exact ⟨hdata, hread⟩
      · obtain ⟨hdata, hread⟩ := h.elsewhere id.dev hdev
        exact ⟨congrFun hdata _, congrFun hread _⟩
  · rw [if_neg hs, if_neg hs]

/-! ### What a path names -/

/-- **What a path names**: where the lookup of its last name starts, the directory that the name is
in, and the inode. -/
def Kernel.target (s : Kernel) (path : Path) : Option (Id × Id × Id) :=
  match Fs.dirNamei s.disk s.task path with
  | .ok (some (start, name)) =>
    if name = [] then none
    else
      match Fs.findEntry s.disk s.task start name with
      | .ok (dir, some i) =>
        match Fs.iget s.disk ⟨dir.dev, dirIno (s.disk.inode dir) i⟩ with
        | .ok id => some (start, dir, id)
        | .error _ => none
      | _ => none
  | _ => none

theorem Tree.grab (h : Tree s) (k : ℕ × ℕ) : Tree (s.grab k) := by
  refine ⟨fun a ha hd => ?_, fun a i ha hm hi => ?_, h.up, h.root, h.pwd⟩
  · obtain ⟨hdir, htwo, hdots, hlinks, hentry⟩ := h.dir a ha hd
    exact ⟨hdir, htwo, hdots, hlinks, fun i hi hne =>
      ⟨(hentry i hi hne).alloc, (hentry i hi hne).links⟩⟩
  · obtain ⟨hnamed, hno⟩ := h.mount a i ha hm hi
    exact ⟨⟨hnamed.alloc, hnamed.links⟩, hno⟩

/-- A directory that is held is given back. -/
theorem leave_hold (hl : s.Live dir) (a : α) : leave dir a (s.hold dir) = .ok a s :=
  bind_ok (iput_hold hl.stays)

/-- **What a path names**, when a lookup has come to it. -/
structure Target (s : Kernel) (path : Path) (start dir : Id) (i : ℕ) (id : Id) : Prop where
  eq : s.target path = some (start, dir, id)
  live : s.Live dir
  isDir : isDir (s.disk.inode dir) = true
  lt : i < (s.file dir).size / 16
  ne : Directory.ino (s.file dir) (slot (s.file dir) i) ≠ 0
  named : s.Named id

/-- **An entry that has been found** names an inode. -/
theorem Finds.target (h : Tree s) {start : Id} (hlook : Fs.dirNamei s.disk s.task path =
      .ok (some (start, name))) (hname : name ≠ []) (hf : Finds s start name dir (some i)) :
    ∃ id, Target s path start dir i id ∧
      Fs.iget s.disk ⟨dir.dev, Directory.ino (s.file dir) (slot (s.file dir) i)⟩ = .ok id := by
  obtain ⟨hlt, hne⟩ := hf.hit i rfl
  obtain ⟨id, higet, -, hid⟩ := iget_spec h ((h.dir dir hf.live.alloc hf.isDir).entry i hlt hne)
  refine ⟨id, ⟨?_, hf.live, hf.isDir, hlt, hne, hid⟩, higet⟩
  have hino : dirIno (s.disk.inode dir) i = Directory.ino (s.file dir) (slot (s.file dir) i) :=
    (Directory.ino_flat (s.bare dir) (s.file dir) i).symm
  rw [Kernel.target, hlook]
  dsimp only
  rw [if_neg hname, hf.look]
  dsimp only
  rw [hino, higet]

/-- A name that is not there names nothing. -/
theorem Finds.target_eq_none {start : Id} (hlook : Fs.dirNamei s.disk s.task path =
      .ok (some (start, name))) (hf : Finds s start name dir none) : s.target path = none := by
  rw [Kernel.target, hlook]
  dsimp only
  rw [hf.look]
  split_ifs
  · rfl
  · rfl

/-- **What comes before a name is removed**: the directory is held, and so are the inode and the
buffer of the entry. -/
theorem dropName_spec (h : Tree s) (path : Path) :
    (∃ e, dropName path s = .ok (.inl e) s ∧ ∀ start dir id, s.target path = some (start, dir, id) →
      s.permission start mayWrite = false) ∨
    ∃ start dir i id, Target s path start dir i id ∧ s.permission start mayWrite = true ∧
      dropName path s = .ok (.inr (dir, slot (s.file dir) i, id))
        (((s.hold dir).grab (dir.dev, (slot (s.file dir) i).1)).hold id) := by
  obtain ⟨r, hlook, hrun, hr⟩ := dirNamei_spec h path
  rw [dropName, bind_ok hrun]
  cases r with
  | none =>
    refine Or.inl ⟨-2, rfl, fun start dir id heq => ?_⟩
    rw [Kernel.target, hlook] at heq
    cases heq
  | some p =>
    obtain ⟨start, name⟩ := p
    obtain ⟨hl, hd⟩ := hr start name rfl
    by_cases hname : name = []
    · refine Or.inl ⟨-2, (congrFun (if_pos hname) _).trans (leave_hold hl _),
        fun start' dir id heq => ?_⟩
      rw [Kernel.target, hlook] at heq
      dsimp only at heq
      rw [if_pos hname] at heq
      cases heq
    by_cases hperm : s.permission start mayWrite = false
    · refine Or.inl ⟨-1, (congrFun ((if_neg hname).trans (if_pos hperm)) _).trans
        (leave_hold hl _), fun start' dir id heq => ?_⟩
      rw [Kernel.target, hlook] at heq
      dsimp only at heq
      split at heq
      · cases heq
      · split at heq
        · split at heq
          · obtain ⟨rfl, -⟩ := Prod.mk.inj (Option.some.inj heq)
            exact hperm
          · cases heq
        · cases heq
    obtain ⟨dir, r, hf⟩ := findEntry_spec h hl hd name
    cases r with
    | none =>
      refine Or.inl ⟨-2, (congrFun ((if_neg hname).trans (if_neg hperm)) _).trans
        ((bind_ok hf.run).trans (leave_hold hf.live _)), fun start' dir' id heq => ?_⟩
      rw [hf.target_eq_none hlook] at heq
      cases heq
    | some i =>
      obtain ⟨id, ht, higet⟩ := hf.target h hlook hname
      obtain ⟨id', higet', hrun', -⟩ := @iget_spec _ ⟨dir.dev, _⟩
        ((h.hold dir).grab (dir.dev, (slot (s.file dir) i).1))
        ⟨((h.dir dir hf.live.alloc hf.isDir).entry i ht.lt ht.ne).alloc,
          ((h.dir dir hf.live.alloc hf.isDir).entry i ht.lt ht.ne).links⟩
      obtain rfl : id = id' := Except.ok.inj (higet.symm.trans higet')
      refine Or.inr ⟨start, dir, i, id, ht, Bool.not_eq_false _ ▸ hperm,
        (congrFun ((if_neg hname).trans (if_neg hperm)) _).trans ((bind_ok hf.run).trans ?_)⟩
      exact bind_ok hrun'

/-! ### `empty_dir` -/

/-- **The loop of `empty_dir`** goes through the entries that are left, and releases the buffer: the
induction is on the rounds. -/
theorem emptyLoop_spec (hdir : Dir (s.file id)) (hcur : Directory.Cursor (s.file id) i b o)
    (hn : (s.file id).size / 16 ≤ i + n) :
    ∃ r, emptyLoop id ((s.file id).size / 16) n i b o (s.grab (id.dev, b)) = .ok r s ∧
      (r = true ↔ ∀ j < (s.file id).size / 16, i ≤ j →
        Directory.ino (s.file id) (slot (s.file id) j) = 0) := by
  have hend : (s.file id).size / 16 ≤ i → (true = true ↔ ∀ j < (s.file id).size / 16, i ≤ j →
      Directory.ino (s.file id) (slot (s.file id) j) = 0) :=
    fun hle => iff_of_true rfl fun j hj hij => absurd hj (by omega)
  induction n generalizing i b o with
  | zero =>
    rw [emptyLoop, bind_ok (brelse_grab s _)]
    exact ⟨true, rfl, hend hn⟩
  | succ n ih =>
    rw [emptyLoop, get_bind]
    by_cases hi : (s.file id).size / 16 ≤ i
    · rw [if_pos hi, bind_ok (brelse_grab s _)]
      exact ⟨true, rfl, hend hi⟩
    rw [if_neg hi]
    -- a round, with the buffer of the entry
    have hround : ∀ b o, o < 64 → Directory.Cursor (s.file id) i b o → ∃ r,
        (if Directory.ino (s.file id) (b, o) ≠ 0 then do
          brelse (id.dev, b)
          pure false
        else emptyLoop id ((s.file id).size / 16) n (i + 1) b (o + 1) : K Bool)
          (s.grab (id.dev, b)) = .ok r s ∧ (r = true ↔ ∀ j < (s.file id).size / 16, i ≤ j →
            Directory.ino (s.file id) (slot (s.file id) j) = 0) := by
      intro b o ho hcur
      have hslot := hcur.inside ho
      by_cases h0 : Directory.ino (s.file id) (b, o) = 0
      · obtain ⟨r, hrun, hr⟩ := ih (hcur.next ho) (by omega)
          fun hle => iff_of_true rfl fun j hj hij => absurd hj (by omega)
        rw [if_neg fun h => h h0]
        refine ⟨r, hrun, hr.trans ⟨fun h j hj hij => ?_, fun h j hj hij => h j hj (by omega)⟩⟩
        rcases Nat.eq_or_lt_of_le hij with rfl | hlt
        · rw [hslot]
          exact h0
        · exact h j hj hlt
      · rw [if_pos h0, bind_ok (brelse_grab s _)]
        refine ⟨false, rfl, iff_of_false Bool.false_ne_true fun h => h0 ?_⟩
        rw [← hslot]
        exact h i (by omega) le_rfl
    by_cases ho : 64 ≤ o
    · have hedge := hcur.edge (le_antisymm hcur.le ho)
      obtain ⟨hlt, hne⟩ := hdir.block (not_le.mp hi)
      have hread : s.readable id.dev ((s.file id).at (.ofBlock (i / 64))) = true :=
        hdir.readable_block (not_le.mp hi)
      rw [if_pos ho, bind_ok (brelse_grab s _),
        bind_ok (bmap_false (Bmap.bmap_spec hdir.toSound (fun _ => none) hlt)), if_neg hne,
        bind_ok (bread_ok hread), if_pos rfl]
      exact hround _ 0 (by decide) (Directory.cursor_block hedge hlt hne)
    · rw [if_neg ho]
      exact hround b o (not_le.mp ho) hcur

/-- **`empty_dir`** gives the buffers back, and tells whether all entries behind `..` are free. -/
theorem emptyDir_spec (h : s.GoodDir id) : ∃ r, emptyDir id s = .ok r s ∧
    (r = true ↔ ∀ j < (s.file id).size / 16, 2 ≤ j →
      Directory.ino (s.file id) (slot (s.file id) j) = 0) := by
  obtain ⟨h0, hread⟩ := h.first
  have htwo := h.two
  have hcur : Directory.Cursor (s.file id) 2 ((s.file id).zone 0) 2 :=
    ((Directory.cursor_block (i := 0) rfl (by decide) h0).next (by decide)).next (by decide)
  have hfew : ¬((s.file id).size / 16 < 2 ∨ (s.file id).zone 0 = 0) := by
    rintro (h | h)
    · omega
    · exact h0 h
  have hdots : ¬hasDots (s.file id) id.num ((s.file id).zone 0) = false := by
    rw [h.dots]
    exact Bool.noConfusion
  have hread' : s.readable id.dev ((s.file id).zone 0) = true := hread
  obtain ⟨r, hrun, hr⟩ := emptyLoop_spec h.toDir hcur
    (n := (s.file id).size / 16 - 1) (by omega)
  refine ⟨r, ?_, hr⟩
  rw [emptyDir, get_bind]
  refine (congrFun (if_neg hfew) s).trans
    ((bind_ok (bread_ok hread')).trans ((congrFun (if_pos rfl) _).trans ?_))
  exact (congrFun (if_neg hdots) _).trans hrun

/-! ### The ways out -/

/-- **The way out** with two inodes and a buffer. -/
theorem leaveBoth_hold {a c : Id} (ha : s.Live a) (hc : s.Live c) (k : ℕ × ℕ) (r : ℤ) :
    leaveBoth a c k r (((s.hold a).hold c).grab k) = .ok r s := by
  have hfirst : iput a (((s.hold a).hold c).grab k) = .ok ⟨⟩ ((s.hold c).grab k) := by
    rw [hold_comm]
    exact iput_hold ((ha.hold c).grab k).stays
  exact (bind_ok hfirst).trans ((bind_ok (iput_hold (hc.grab k).stays)).trans
    (bind_ok (brelse_grab s k)))

theorem leaveLink_hold {a c : Id} (ha : s.Live a) (hc : s.Live c) (r : ℤ) :
    leaveLink a c r ((s.hold a).hold c) = .ok r s := by
  have hfirst : iput a ((s.hold a).hold c) = .ok ⟨⟩ (s.hold c) := by
    rw [hold_comm]
    exact iput_hold (ha.hold c).stays
  exact (bind_ok hfirst).trans (bind_ok (iput_hold hc.stays))

theorem leaveBoth_hold' {a c : Id} (ha : s.Live a) (hc : s.Live c) (k : ℕ × ℕ) (r : ℤ) :
    leaveBoth a c k r (((s.hold c).hold a).grab k) = .ok r s := by
  rw [hold_comm]
  exact leaveBoth_hold ha hc k r

theorem leaveLink_hold' {a c : Id} (ha : s.Live a) (hc : s.Live c) (r : ℤ) :
    leaveLink a c r ((s.hold c).hold a) = .ok r s := by
  rw [hold_comm]
  exact leaveLink_hold ha hc r

/-! ### Inodes that change -/

theorem setInode_self (s : Kernel) (id : Id) (f : Inode → Inode) :
    (s.setInode id f).inode id = f (s.inode id) := Function.update_self ..

theorem setInode_of_ne {a : Id} (h : a ≠ id) (s : Kernel) (f : Inode → Inode) :
    (s.setInode id f).inode a = s.inode a := Function.update_of_ne h ..

/-- The file of an inode whose zones and size are what they were. -/
theorem file_congr {a : Id} (hdata : s'.data = s.data) (hread : s'.readable = s.readable)
    (hused : s'.used a.dev = s.used a.dev) (hinode : s'.inode a = s.inode a) :
    s'.file a = s.file a := by
  rw [Kernel.file, Kernel.file, hdata, hread, hused, hinode]

theorem setInode_file_of_ne {a : Id} (h : a ≠ id) (s : Kernel) (f : Inode → Inode) :
    (s.setInode id f).file a = s.file a := file_congr rfl rfl rfl (setInode_of_ne h s f)

/-- **The blocks of an inode** whose mode and zones are what they were. -/
theorem setInode_blocks {f : Inode → Inode} (s : Kernel) (id a : Id)
    (hmode : (f (s.inode id)).mode = (s.inode id).mode)
    (hzone : (f (s.inode id)).zone = (s.inode id).zone) :
    (s.setInode id f).blocks a = s.blocks a := by
  have hsame : ((s.setInode id f).inode a).mode = (s.inode a).mode ∧
      ((s.setInode id f).inode a).zone = (s.inode a).zone := by
    by_cases h : a = id
    · rw [h, setInode_self]
      exact ⟨hmode, hzone⟩
    · rw [setInode_of_ne h]
      exact ⟨rfl, rfl⟩
  rw [Kernel.blocks, Kernel.blocks, isStored_congr hsame.1]
  have hfrees : frees ((s.setInode id f).file a) = frees (s.file a) :=
    frees_congr hsame.2 fun _ _ _ => ⟨rfl, rfl⟩
  rw [hfrees]

/-- A directory that grows keeps its links, and the other inodes are what they were. -/
theorem Follows.nlinks (h : Follows dir s s' t) (a : Id) :
    (s'.inode a).nlinks = (s.inode a).nlinks := by
  rw [h.inode]
  by_cases heq : a = dir
  · rw [heq, Function.update_self]
  · rw [Function.update_of_ne heq]

theorem Follows.inode_of_ne (h : Follows dir s s' t) (hne : id ≠ dir) :
    s'.inode id = s.inode id := by
  rw [h.inode]
  exact Function.update_of_ne hne ..

theorem Follows.live (h : Follows dir s s' t) {a : Id} (ha : s.Live a) : s'.Live a := by
  refine ⟨?_, ?_⟩
  · rw [Kernel.Allocated, h.inodes]
    exact ha.alloc
  · rw [h.nlinks, h.iCount]
    exact ha.stays

/-- **What is held** while a directory grows is held behind it. -/
theorem Grows.unhold {a : Id} (h : Grows dir (s.hold a) s' t) :
    ∃ u : Kernel, s' = u.hold a ∧ Grows dir s u t := by
  refine ⟨{ s' with iCount := s.iCount }, ?_, ⟨⟨⟨h.super, h.task, h.umask, h.shape, h.maps⟩,
    h.file, h.inode, rfl, h.bCount, h.inodes, h.zones, h.elsewhere⟩, h.outside,
    h.inside⟩⟩
  rw [Kernel.hold]
  dsimp only
  have hcount := h.iCount
  rw [Kernel.hold] at hcount
  dsimp only at hcount
  rw [← hcount]

/-- A link less. -/
def Inode.less (n : Inode) : Inode := { n with nlinks := n.nlinks - 1 }

/-- A link more. -/
def Inode.more (n : Inode) : Inode := { n with nlinks := n.nlinks + 1 }

/-- Nothing hangs from it any more. -/
def Inode.gone (n : Inode) : Inode := { n with nlinks := 0 }

/-! ### An entry is overwritten -/

/-- The inode that an entry names is another one. -/
def Kernel.rename (s : Kernel) (dir : Id) (e : Pointer) (num : ℕ) : Kernel :=
  s.store dir (Directory.setIno (s.file dir) e num)

theorem setIno_run (s : Kernel) (dir : Id) (e : Pointer) (num : ℕ) :
    setIno dir e num s = .ok ⟨⟩ (s.rename dir e num) := rfl

theorem rename_grows (hc : Bitmap.Consistent s.bitmap) (hsound : Bmap.Sound (s.file dir))
    (he : Within (s.file dir) e) (num : ℕ) :
    Grows dir s (s.rename dir e num) (Directory.setIno (s.file dir) e num) :=
  store_grows hc hsound he (Directory.wrote_setIno _ e num)

/-- An entry of a directory is in one of its blocks. -/
theorem within_slot (h : Dir (s.file dir)) (hi : i < (s.file dir).size / 16) :
    Within (s.file dir) (slot (s.file dir) i) := by
  obtain ⟨hlt, hne⟩ := h.block hi
  exact ⟨hne, _, Spot.data_ofBlock hlt, rfl⟩

/-! ### A name is made -/

/-- **The directory of a new name**, and the name, if it may be made and is not there. -/
def Kernel.newName (s : Kernel) (path : Path) : Option (Id × List UInt8) :=
  if s.suser = false then none
  else
    match Fs.dirNamei s.disk s.task path with
    | .ok (some (start, name)) =>
      if name = [] ∨ s.permission start mayWrite = false then none
      else
        match Fs.findEntry s.disk s.task start name with
        | .ok (dir, none) => some (dir, name)
        | _ => none
    | _ => none

/-- **What comes before a name is made**: the directory is held, when the name is not there. -/
theorem makeName_spec (h : Tree s) (path : Path) :
    (∃ e < 0, makeName path s = .ok (.inl e) s ∧ s.newName path = none) ∨
    ∃ dir name, makeName path s = .ok (.inr (dir, name)) (s.hold dir) ∧
      s.newName path = some (dir, name) ∧ s.Live dir ∧ isDir (s.disk.inode dir) = true ∧
      name ≠ [] := by
  rw [makeName, get_bind, Kernel.newName]
  by_cases hsuser : s.suser = false
  · rw [if_pos hsuser, if_pos hsuser]
    exact Or.inl ⟨-1, by decide, rfl, rfl⟩
  rw [if_neg hsuser, if_neg hsuser]
  obtain ⟨r, hlook, hrun, hr⟩ := dirNamei_spec h path
  rw [bind_ok hrun, hlook]
  cases r with
  | none => exact Or.inl ⟨-2, by decide, rfl, rfl⟩
  | some p =>
    obtain ⟨start, name⟩ := p
    obtain ⟨hl, hd⟩ := hr start name rfl
    dsimp only
    by_cases hname : name = []
    · exact Or.inl ⟨-2, by decide, (congrFun (if_pos hname) _).trans (leave_hold hl _),
        if_pos (Or.inl hname)⟩
    by_cases hperm : s.permission start mayWrite = false
    · exact Or.inl ⟨-1, by decide,
        (congrFun ((if_neg hname).trans (if_pos hperm)) _).trans (leave_hold hl _),
        if_pos (Or.inr hperm)⟩
    obtain ⟨dir, r, hf⟩ := findEntry_spec h hl hd name
    rw [if_neg (not_or.mpr ⟨hname, hperm⟩), hf.look]
    cases r with
    | none =>
      exact Or.inr ⟨dir, name, (congrFun ((if_neg hname).trans (if_neg hperm)) _).trans
        (bind_ok hf.run), rfl, hf.live, hf.isDir, hname⟩
    | some i =>
      refine Or.inl ⟨-17, by decide, (congrFun ((if_neg hname).trans (if_neg hperm)) _).trans
        ((bind_ok hf.run).trans ?_), rfl⟩
      exact (bind_ok (brelse_grab (s.hold dir) _)).trans (leave_hold hf.live _)

/-- **`new_inode`**, while a directory is held. -/
structure Fresh (s : Kernel) (dev : ℕ) (r : Option Id) (x : Kernel) : Prop extends Steady s x where
  data : x.data = s.data
  readable : x.readable = s.readable
  iCount : x.iCount = s.iCount
  bCount : x.bCount = s.bCount
  zones : x.bitmap.zones = s.bitmap.zones
  none : r = none → x.inode = s.inode ∧ x.bitmap.inodes = s.bitmap.inodes
  some : ∀ id, r = some id → id.dev = dev ∧ ¬s.Allocated id ∧
    x.bitmap.inodes = insert (id.dev, id.num) s.bitmap.inodes ∧
    x.inode = Function.update s.inode id
      { Inode.zero with uid := s.task.euid, gid := s.task.egid, nlinks := 1 }

theorem newInode_held (hw : Whole s) (ha : s.Allocated dir) : ∃ r x,
    newInode dir.dev (s.hold dir) = .ok r ((x.hold dir).holding r) ∧ Fresh s dir.dev r x := by
  obtain ⟨sb, hsb⟩ := ha.super
  obtain ⟨r, s', hrun, hnew⟩ := @newInode_spec (s.hold dir) dir.dev hw.maps sb hsb
  have hcount : s'.iCount = ((s.hold dir).holding r).iCount := by
    cases r with
    | none => exact (hnew.none rfl).2.1
    | some id =>
      obtain ⟨-, hfree, -, -, hcount⟩ := hnew.some id rfl
      have hne : id ≠ dir := by
        rintro rfl
        exact hfree ha
      have hzero : (s.hold dir).iCount id = 0 :=
        (Function.update_of_ne hne ..).trans (hw.unheld id hfree)
      rw [hcount]
      change _ = Function.update (s.hold dir).iCount id ((s.hold dir).iCount id + 1)
      rw [hzero]
  refine ⟨r, { s' with iCount := s.iCount }, ?_, ⟨⟨hnew.super, hnew.task, hnew.umask, hnew.shape,
    hnew.maps⟩, hnew.data, hnew.readable, rfl, hnew.bCount, hnew.zones, fun hr => ?_,
    fun id hid => ?_⟩⟩
  · rw [hrun]
    refine congrArg _ ?_
    cases r with
    | none => exact congrArg (fun c => ({ s' with iCount := c } : Kernel)) hcount
    | some id => exact congrArg (fun c => ({ s' with iCount := c } : Kernel)) hcount
  · obtain ⟨hinode, -, hinodes, -⟩ := hnew.none hr
    exact ⟨hinode, hinodes⟩
  · obtain ⟨hdev, hfree, hinodes, hinode, -⟩ := hnew.some id hid
    exact ⟨hdev, hfree, hinodes, hinode⟩

/-- Another file is what it was. -/
theorem Fresh.file {r : Option Id} {dev : ℕ} (h : Fresh s dev r s') {a : Id} (ha : s.Allocated a) :
    s'.file a = s.file a := by
  refine file_congr h.data h.readable ?_ ?_
  · funext z
    exact used_congr h.shape.allZones (by rw [h.zones])
  · cases r with
    | none => rw [(h.none rfl).1]
    | some id =>
      obtain ⟨-, hfree, -, hinode⟩ := h.some id rfl
      have hne : a ≠ id := by
        rintro rfl
        exact hfree ha
      rw [hinode, Function.update_of_ne hne]

/-- **`add_entry`**, while two inodes are held. -/
theorem addEntry_held {a c : Id} (hc : Bitmap.Consistent s.bitmap) (hshort : Short s)
    {sb : Super} (hs : s.getSuper dir.dev = some sb) (hdir : Dir (s.file dir))
    (h0 : (s.file dir).zone 0 ≠ 0) (hname : name ≠ []) :
    ∃ r y, addEntry dir name ((s.hold a).hold c) = .ok r (((y.hold a).hold c).found dir r) ∧
      Grows dir s y (y.file dir) ∧
      (∀ e, r = some e → Dir (y.file dir) ∧ Within (y.file dir) e) ∧
      (r = none ↔ ∃ t, Directory.Full firstFree (s.file dir) t) := by
  obtain ⟨r, s', hrun, hgrows, hsome, hnone⟩ :=
    @addEntry_spec ((s.hold a).hold c) dir name hc hshort sb hs hdir h0 hname
  obtain ⟨u, rfl, hgrows'⟩ := hgrows.unhold
  obtain ⟨y, rfl, hgrows''⟩ := hgrows'.unhold
  exact ⟨r, y, hrun, hgrows'', hsome, hnone⟩

/-- An inode without zones has no blocks. -/
theorem blocks_eq_nil (h : isStored (s.disk.inode id) = true → (s.inode id).zone = fun _ => 0) :
    s.blocks id = [] := by
  rw [Kernel.blocks]
  split_ifs with hs
  · have hzone : (s.file id).zone = fun _ => 0 := h hs
    have htop : freesTop (s.file id) 7 = [] := by
      rw [freesTop, hzone]
      rfl
    rw [frees, htop, hzone]
    rfl
  · rfl

/-- **A new inode gets a name**, or does not: `y` is what has become of the file systems, but for
what is held. -/
structure Enters (s : Kernel) (dir id : Id) (n : Inode) (r : Option Pointer) (y : Kernel) :
    Prop where
  maps : Bitmap.Consistent y.bitmap
  iCount : y.iCount = s.iCount
  bCount : y.bCount = s.bCount
  inode : y.inode id = n
  ne : id ≠ dir
  live : y.Live dir
  alloc : y.Allocated id
  entry : ∀ e, r = some e → Bmap.Sound (y.file dir) ∧ Within (y.file dir) e

theorem fresh_enters {x : Kernel} (hx : Fresh s dir.dev (some id) x) (hw : Whole s)
    (hl : s.Live dir) (hd : isDir (s.disk.inode dir) = true) (hname : name ≠ [])
    (f : Inode → Inode) : ∃ r y,
      addEntry dir name (((x.setInode id f).hold dir).hold id) =
        .ok r (((y.hold dir).hold id).found dir r) ∧ Enters s dir id (f (x.inode id)) r y := by
  obtain ⟨hdev, hfree, hinodes, hinode⟩ := hx.some id rfl
  have hne : id ≠ dir := by
    rintro rfl
    exact hfree hl.alloc
  have hgood := hw.dir dir hl.alloc hd
  have hfile : (x.setInode id f).file dir = s.file dir :=
    (setInode_file_of_ne (Ne.symm hne) x f).trans (hx.file hl.alloc)
  obtain ⟨sb, hsb⟩ := hl.alloc.super
  have hsb' : (x.setInode id f).getSuper dir.dev = some sb := by
    rw [← hsb, Kernel.getSuper, Kernel.getSuper]
    change Fs.getSuper ⟨_, x.super⟩ _ = _
    rw [hx.super]
  have hdir := hgood.toDir
  have h0 := hgood.first.1
  rw [← hfile] at hdir h0
  have hshort : Short x := hw.short.steady hx.toSteady
  obtain ⟨r, y, hrun, hgrows, hsome, -⟩ := @addEntry_held (x.setInode id f) dir name dir id hx.maps
    hshort sb hsb' hdir h0 hname
  have hlive : (x.setInode id f).Live dir := by
    refine ⟨?_, ?_⟩
    · change (dir.dev, dir.num) ∈ x.bitmap.inodes
      rw [hinodes]
      exact Set.mem_insert_of_mem _ hl.alloc
    · rw [setInode_of_ne (Ne.symm hne), hinode, Function.update_of_ne (Ne.symm hne)]
      change _ ∨ x.iCount dir ≠ 0
      rw [hx.iCount]
      exact hl.stays
  have halloc : y.Allocated id := by
    rw [Kernel.Allocated, hgrows.inodes]
    change (id.dev, id.num) ∈ x.bitmap.inodes
    rw [hinodes]
    exact Set.mem_insert ..
  refine ⟨r, y, hrun, hgrows.maps, hgrows.iCount.trans hx.iCount, hgrows.bCount.trans hx.bCount,
    ?_, hne, hgrows.live hlive, halloc, fun e he => ⟨(hsome e he).1.toSound, (hsome e he).2⟩⟩
  rw [hgrows.inode_of_ne hne, setInode_self]

/-! ### A small file system -/

/-- Byte `x` of the root directory: `.` and `..`, and so many links to inode 2. -/
def rootByte (x : ℕ) : UInt8 :=
  if x % 16 = 0 then if x / 16 < 2 then 1 else 2
  else if x % 16 = 2 then if x / 16 < 2 then 46 else UInt8.ofNat (95 + x / 16)
  else if x = 19 then 46
  else 0

/-- The first three bits of a map are set. -/
def threeBits (i : ℕ) : Option Bitmap.MapBlock :=
  if i = 0 then some ⟨⟨fun w => if w = 0 then 7#32 else 0#32⟩, false⟩ else none

/-- **A small file system**: the root directory, with `n` entries, and a file, whose block has so
many users; an inode and a zone are free. -/
def volume (n users : ℕ) : Kernel where
  inode id :=
    if id = ⟨1, 1⟩ then ⟨0o40755#16, 0, 0, 2, 16 * n, fun k => if k = 0 then 5 else 0, false⟩
    else if id = ⟨1, 2⟩ then
      ⟨0o100644#16, 0, 0, UInt8.ofNat (n - 2), 1, fun k => if k = 0 then 6 else 0, false⟩
    else .zero
  iCount id := if id = ⟨1, 1⟩ then 2 else 0
  super i := if i = 0 then ⟨1, none⟩ else ⟨0, none⟩
  maps _ := ⟨3, 8, 5, threeBits, threeBits⟩
  data _ z x := if z = 5 then rootByte x else 0
  readable _ _ := true
  bCount k := if k = (1, 6) then users else 0
  task := ⟨0, 0, ⟨1, 1⟩, ⟨1, 1⟩⟩
  umask := 0o022#32

theorem volume_getSuper (n c d : ℕ) :
    (volume n c).getSuper d = if d = 1 then some ⟨1, none⟩ else none := by
  rw [Kernel.getSuper, Fs.getSuper]
  by_cases h : d = 1
  · rw [h]
    rfl
  · rw [if_neg h]
    split_ifs with h0
    · rfl
    · rw [Option.map_eq_none_iff, List.find?_eq_none]
      intro i _
      rw [decide_eq_true_eq]
      change ¬(if i = 0 then (⟨1, none⟩ : Super) else ⟨0, none⟩).dev = d
      split_ifs
      · exact Ne.symm h
      · exact Ne.symm h0

theorem volume_super (n c d : ℕ) : (volume n c).bitmap.super d =
    if d = 1 then some ⟨3, 8, 5, threeBits, threeBits⟩ else none := by
  change ((volume n c).getSuper d).map _ = _
  rw [volume_getSuper]
  split_ifs
  · rfl
  · rfl

theorem mem_volume {n c : ℕ} {P : Bitmap.SuperBlock → ℕ → Prop} {k : ℕ × ℕ} :
    k ∈ (volume n c).bitmap.such P ↔ k.1 = 1 ∧ P ⟨3, 8, 5, threeBits, threeBits⟩ k.2 := by
  constructor
  · rintro ⟨sb, hsb, hp⟩
    rw [volume_super] at hsb
    split_ifs at hsb with h
    exact ⟨h, Option.some.inj hsb ▸ hp⟩
  · rintro ⟨h, hp⟩
    exact ⟨_, by rw [volume_super, if_pos h], hp⟩

/-- The inodes of the small file system. -/
theorem volume_allocated {n c : ℕ} : (volume n c).Allocated id ↔ id = ⟨1, 1⟩ ∨ id = ⟨1, 2⟩ := by
  rw [Kernel.Allocated, Bitmap.State.inodes, mem_volume]
  obtain ⟨d, m⟩ := id
  constructor
  · rintro ⟨hd, ⟨hlow, hhigh⟩, hbit⟩
    dsimp only at hd hlow hhigh hbit
    obtain rfl | rfl | rfl : m = 1 ∨ m = 2 ∨ m = 3 := by omega
    · exact Or.inl (hd ▸ rfl)
    · exact Or.inr (hd ▸ rfl)
    · exact absurd hbit (by decide)
  · rintro (h | h)
    · obtain ⟨rfl, rfl⟩ := Id.mk.inj h
      exact ⟨rfl, ⟨by decide, by decide⟩, by decide⟩
    · obtain ⟨rfl, rfl⟩ := Id.mk.inj h
      exact ⟨rfl, ⟨by decide, by decide⟩, by decide⟩

/-- A file that has one block. -/
theorem at_first (h : t.zone = fun k => if k = 0 then z else 0) {p : Spot} (hp : p.Ok) :
    t.at p = if p = .top 0 then z else 0 := by
  have hzone : ∀ k, t.at (.top k) = if k = 0 then z else 0 := fun k => congrFun h k
  cases p with
  | top k =>
    rw [hzone]
    exact if_congr ⟨fun h => h ▸ rfl, Spot.top.inj⟩ rfl rfl
  | under r j =>
    rw [if_neg fun h => Spot.noConfusion h]
    refine Bmap.at_under_eq_zero ?_ j
    obtain ⟨htable, -⟩ := hp
    cases r with
    | top k =>
      rw [hzone, if_neg]
      rintro rfl
      rcases htable with h | h
      · cases h
      · cases h
    | under r i =>
      obtain ⟨rfl, -⟩ := htable
      exact Bmap.at_under_eq_zero (hzone 8) i

/-- The block of an inode of the small file system. -/
def firstZone (id : Id) : ℕ := if id = ⟨1, 1⟩ then 5 else 6

theorem volume_at {n c : ℕ} (ha : (volume n c).Allocated id) {p : Spot} (hp : p.Ok) :
    ((volume n c).file id).at p = if p = .top 0 then firstZone id else 0 := by
  refine at_first ?_ hp
  rcases volume_allocated.mp ha with rfl | rfl
  · rfl
  · rfl

theorem volume_at_ne {n c : ℕ} (ha : (volume n c).Allocated id) {p : Spot} (hp : p.Ok)
    (hne : ((volume n c).file id).at p ≠ 0) :
    p = .top 0 ∧ ((volume n c).file id).at p = firstZone id := by
  rw [volume_at ha hp] at hne ⊢
  split_ifs at hne ⊢ with h
  · exact ⟨h, rfl⟩
  · exact absurd rfl hne

theorem volume_zones {n c : ℕ} {k : ℕ × ℕ} :
    k ∈ (volume n c).bitmap.zones ↔ k = (1, 5) ∨ k = (1, 6) := by
  rw [Bitmap.State.zones, mem_volume]
  obtain ⟨d, z⟩ := k
  constructor
  · rintro ⟨hd, ⟨hlow, hhigh⟩, hbit⟩
    dsimp only at hd hlow hhigh hbit
    obtain rfl | rfl | rfl : z = 5 ∨ z = 6 ∨ z = 7 := by omega
    · exact Or.inl (hd ▸ rfl)
    · exact Or.inr (hd ▸ rfl)
    · exact absurd hbit (by decide)
  · rintro (h | h)
    · obtain ⟨rfl, rfl⟩ := Prod.mk.inj h
      exact ⟨rfl, ⟨by decide, by decide⟩, by decide⟩
    · obtain ⟨rfl, rfl⟩ := Prod.mk.inj h
      exact ⟨rfl, ⟨by decide, by decide⟩, by decide⟩

theorem volume_maps (n c : ℕ) : Bitmap.Consistent (volume n c).bitmap := by
  refine ⟨by rw [volume_super]; rfl, fun d sb hsb => ?_, fun k b hall hnot hb => ?_⟩
  · rw [volume_super] at hsb
    split_ifs at hsb
    obtain rfl := Option.some.inj hsb
    refine ⟨by decide, fun i hi => if_neg (by omega), fun i hi => if_neg (by omega),
      fun z hz => ?_, fun m hm => ?_, by decide, by decide⟩
    · obtain ⟨hlow, hhigh⟩ := hz
      dsimp only at hlow hhigh ⊢
      rw [show (z - (5 - 1)) / 8192 = 0 by omega]
      rfl
    · obtain ⟨hlow, hhigh⟩ := hm
      dsimp only at hhigh ⊢
      rw [show m / 8192 = 0 by omega]
      rfl
  · obtain rfl := Option.some.inj hb
    refine if_neg ?_
    rintro rfl
    exact hnot (volume_zones.mpr (Or.inr rfl))

/-- The entries of its root directory. -/
theorem volume_ino {n c : ℕ} (hn : i < 64) :
    Directory.ino ((volume n c).file ⟨1, 1⟩) (slot ((volume n c).file ⟨1, 1⟩) i) =
      if i < 2 then 1 else 2 := by
  have hslot : slot ((volume n c).file ⟨1, 1⟩) i = (5, i) := by
    rw [slot, show i / 64 = 0 by omega, show i % 64 = i by omega]
    rfl
  rw [hslot]
  change (rootByte (2 * (8 * i))).toNat + 256 * (rootByte (2 * (8 * i) + 1)).toNat = _
  have hlow : rootByte (2 * (8 * i)) = if i < 2 then 1 else 2 := by
    rw [rootByte, if_pos (by omega), show 2 * (8 * i) / 16 = i by omega]
  have hhigh : rootByte (2 * (8 * i) + 1) = 0 := by
    rw [rootByte, if_neg (by omega), if_neg (by omega), if_neg (by omega)]
  rw [hlow, hhigh]
  split_ifs
  · rfl
  · rfl

theorem volume_named {n c : ℕ} (h : 3 ≤ n) (hn : n ≤ 64) (ha : (volume n c).Allocated id) :
    (volume n c).Named id := by
  refine ⟨ha, ?_⟩
  rcases volume_allocated.mp ha with rfl | rfl
  · exact (by decide : (2 : UInt8) ≠ 0)
  · change UInt8.ofNat (n - 2) ≠ 0
    intro hzero
    have hlinks := congrArg UInt8.toNat hzero
    rw [UInt8.toNat_ofNat'] at hlinks
    change (n - 2) % 256 = 0 at hlinks
    omega

theorem volume_goodDir {n c : ℕ} (h : 3 ≤ n) (hn : n ≤ 64) : (volume n c).GoodDir ⟨1, 1⟩ := by
  have hroot : (volume n c).Allocated ⟨1, 1⟩ := volume_allocated.mpr (Or.inl rfl)
  have hsize : ((volume n c).file ⟨1, 1⟩).size = 16 * n := rfl
  have hdots : hasDots ((volume 3 0).file ⟨1, 1⟩) 1 5 = true := by decide
  refine ⟨⟨⟨fun p q hp hq hne heq => ?_, fun p hp hne => ?_, fun _ _ _ => rfl⟩, ?_,
    fun k hk => ?_⟩, ?_, hdots, (by decide : 2 ≤ (2 : UInt8).toNat), fun i hi _ => ?_⟩
  · have hp' := (volume_at_ne hroot hp hne).1
    rw [heq] at hne
    exact hp'.trans (volume_at_ne hroot hq hne).1.symm
  · rw [(volume_at_ne hroot hp hne).2, ← Bool.not_eq_false]
    exact fun hfree => (@used_eq_false (volume n c) 1 5 |>.mp hfree).2
      (volume_zones.mpr (Or.inl rfl))
  · rw [hsize]
    omega
  · rw [hsize] at hk
    obtain rfl : k = 0 := by omega
    exact ⟨by decide, (by decide : 5 ≠ 0)⟩
  · rw [hsize]
    omega
  · rw [hsize] at hi
    rw [volume_ino (by omega)]
    refine volume_named h hn (volume_allocated.mpr ?_)
    split_ifs
    · exact Or.inl rfl
    · exact Or.inr rfl

/-- **The small file system is whole.** -/
theorem volume_whole {n c : ℕ} (h : 3 ≤ n) (hn : n ≤ 64) : Whole (volume n c) := by
  have hroot : (volume n c).Allocated ⟨1, 1⟩ := volume_allocated.mpr (Or.inl rfl)
  refine ⟨⟨fun id ha hd => ?_, fun id i ha hm _ => ?_, fun d sb id hsb hm => ?_,
    ⟨hroot, (by decide : 2 ≠ 0)⟩, ⟨hroot, (by decide : 2 ≠ 0)⟩⟩, volume_maps n c,
    fun d sb hsb => ?_, fun id ha => ?_, fun id hs p hp hne => ?_,
    fun a b ha hb _ p q hp hq hne heq => ?_⟩
  · rcases volume_allocated.mp ha with rfl | rfl
    · exact volume_goodDir h hn
    · exact absurd hd (by decide : ¬(0o100644#16 &&& 0xF000#16 == 0x4000#16) = true)
  · rcases volume_allocated.mp ha with rfl | rfl
    · cases hm
    · cases hm
  · rw [volume_getSuper] at hsb
    split_ifs at hsb
    obtain rfl := Option.some.inj hsb
    cases hm
  · rw [volume_super] at hsb
    split_ifs at hsb
    obtain rfl := Option.some.inj hsb
    decide
  · refine if_neg ?_
    rintro rfl
    exact ha hroot
  · rw [(volume_at_ne hs.alloc hp hne).2, volume_zones]
    rcases volume_allocated.mp hs.alloc with rfl | rfl
    · exact Or.inl rfl
    · exact Or.inr rfl
  · obtain ⟨hp', hpz⟩ := volume_at_ne ha.alloc hp hne
    have hne' := hne
    rw [heq] at hne'
    obtain ⟨hq', hqz⟩ := volume_at_ne hb.alloc hq hne'
    refine ⟨?_, hp'.trans hq'.symm⟩
    rw [hpz, hqz] at heq
    rcases volume_allocated.mp ha.alloc with rfl | rfl
    · rcases volume_allocated.mp hb.alloc with rfl | rfl
      · rfl
      · exact absurd heq (by decide)
    · rcases volume_allocated.mp hb.alloc with rfl | rfl
      · exact absurd heq (by decide)
      · rfl

end Linux011.Fs.Names

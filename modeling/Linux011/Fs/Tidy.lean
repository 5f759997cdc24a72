import Linux011.Fs.Mkdir
import Linux011.Fs.Truncated
import Mathlib.Data.Set.Card

/-!
# Tidy file systems

Whole file systems (`Linux011.Fs.Names.Whole`) whose books are right: a zone is marked in the map if
and only if it hangs from a file, and an inode has as many links as there are entries that name it
(`Linux011.Fs.Names.Tidy`). While a call is at work an inode may have links that no entry stands
for; `owed` says how many.

Whatever the calls on names do, they do to one inode at a time, and to what hangs from it
(`Linux011.Fs.Names.Beside`). So the file systems stay tidy if the books of that inode are right
(`Linux011.Fs.Names.Tidy.beside`).
-/

namespace Linux011.Fs.Names

open Bmap (State Place Spot Outside)
open Directory (Pointer Dir slot)

variable {s s' u : Kernel} {id a dir : Id} {k : ℕ × ℕ} {e : Pointer} {i n b : ℕ}
  {t : State} {owed owed' : Id → ℕ} {out out' : Set Id}

/-! ### The books -/

/-- A zone hangs from a file. -/
def Kernel.Hangs (s : Kernel) (id : Id) (k : ℕ × ℕ) : Prop := k.1 = id.dev ∧ s.Reaches id k.2

theorem hangs_at (hs : s.Stored id) {p : Spot} (hp : p.Ok) (hne : (s.file id).at p ≠ 0) :
    s.Hangs id (id.dev, (s.file id).at p) := ⟨rfl, hs, hne, p, hp, rfl⟩

theorem Kernel.Hangs.spot (h : s.Hangs id k) :
    s.Stored id ∧ ∃ p : Spot, p.Ok ∧ (s.file id).at p ≠ 0 ∧ k = (id.dev, (s.file id).at p) := by
  obtain ⟨hdev, hs, h0, p, hp, hat⟩ := h
  refine ⟨hs, p, hp, hat ▸ h0, ?_⟩
  rw [hat, ← hdev]

/-- Entry `i` of a directory names the inode with this number. -/
structure Kernel.Entry (s : Kernel) (dir : Id) (i num : ℕ) : Prop where
  alloc : s.Allocated dir
  isDir : isDir (s.disk.inode dir) = true
  lt : i < (s.file dir).size / 16
  ino : Directory.ino (s.file dir) (slot (s.file dir) i) = num
  ne : num ≠ 0

/-- **The entries that name an inode**, in the directories of its device. -/
def Kernel.names (s : Kernel) (id : Id) : Set (ℕ × ℕ) := {e | s.Entry ⟨id.dev, e.1⟩ e.2 id.num}

/-- **A directory in another one**: an entry behind `.` and `..` names it. -/
structure Kernel.Sub (s : Kernel) (up : Id) (i : ℕ) (dir : Id) : Prop where
  entry : s.Entry up i dir.num
  two : 2 ≤ i
  dev : up.dev = dir.dev
  alloc : s.Allocated dir
  isDir : isDir (s.disk.inode dir) = true

/-- **The way up** from a directory comes to the root of its device. -/
inductive Kernel.Climbs (s : Kernel) : Id → Prop
  | root {dir : Id} (h : dir.num = rootIno) : s.Climbs dir
  | up {up dir : Id} {i : ℕ} (hs : s.Sub up i dir) (h : s.Climbs up) : s.Climbs dir

/-- **Directories form trees**: each of them is in one other, which its `..` names, and so on up to
the root, but for those that are `out`, which have no name yet, or none any more. -/
structure Family (out : Set Id) (s : Kernel) : Prop where
  up : ∀ up i dir, s.Sub up i dir → s.Entry dir 1 up.num
  down : ∀ dir, s.Allocated dir → isDir (s.disk.inode dir) = true → dir ∉ out → s.Climbs dir
  once : ∀ a b i j dir, s.Sub a i dir → s.Sub b j dir → a = b ∧ i = j
  top : ∀ up i dir, s.Sub up i dir → dir.num ≠ rootIno
  root : ∀ dev sb, s.getSuper dev = some sb → s.Entry ⟨dev, rootIno⟩ 1 rootIno

/-- **The zones are stowed away**: those that are marked are those of the files, no two of which
have one; they can be read, and nobody uses their buffers. -/
structure Stowed (s : Kernel) : Prop where
  maps : Bitmap.Consistent s.bitmap
  used : ∀ id, s.Stored id → s.Inside id
  apart : ∀ a b, s.Stored a → s.Stored b → a.dev = b.dev → ∀ p q : Spot, p.Ok → q.Ok →
    (s.file a).at p ≠ 0 → (s.file a).at p = (s.file b).at q → a = b ∧ p = q
  marked : ∀ k ∈ s.bitmap.zones, ∃ id, s.Hangs id k
  legible : ∀ id, s.Stored id → ∀ p : Spot, p.Ok → (s.file id).at p ≠ 0 →
    s.readable id.dev ((s.file id).at p) = true
  idle : ∀ k ∈ s.bitmap.zones, s.bCount k = 0

/-- **Tidy file systems**: they are whole, their zones are stowed away, directories form trees, and
an inode has as many links as entries name it, and so many more. -/
structure Tidy (owed : Id → ℕ) (out : Set Id) (s : Kernel) : Prop extends Whole s, Stowed s where
  family : Family out s
  top : ∀ dev sb, s.getSuper dev = some sb → s.iCount ⟨dev, rootIno⟩ ≠ 0
  covered : ∀ dev sb id, s.getSuper dev = some sb → sb.imount = some id → s.iCount id ≠ 0
  links : ∀ id, s.Allocated id →
    (s.names id).encard + owed id = ((s.inode id).nlinks.toNat : ℕ∞)

theorem Kernel.Climbs.sub (h : s.Climbs dir) (hne : dir.num ≠ rootIno) :
    ∃ up i, s.Sub up i dir := by
  cases h with
  | root h => exact absurd h hne
  | up hs h => exact ⟨_, _, hs⟩

/-- **The way up is still there**, when it only comes by directories that have been kept. -/
theorem Kernel.Climbs.mono (h : s.Climbs dir) (kept : Id → Prop)
    (hsub : ∀ up i d, s.Sub up i d → kept d → kept up ∧ s'.Sub up i d) (hkept : kept dir) :
    s'.Climbs dir := by
  induction h with
  | root h => exact .root h
  | up hs h ih =>
    obtain ⟨hup, hs'⟩ := hsub _ _ _ hs hkept
    exact .up hs' (ih hup)

/-- **The zones that are marked are those of the files.** -/
theorem Stowed.zones_iff (h : Stowed s) : k ∈ s.bitmap.zones ↔ ∃ id, s.Hangs id k := by
  refine ⟨h.marked k, ?_⟩
  rintro ⟨id, hid⟩
  obtain ⟨hs, p, hp, hne, rfl⟩ := hid.spot
  exact h.used id hs p hp hne

/-- **No zone hangs from two files.** -/
theorem Stowed.hangs_unique (h : Stowed s) (ha : s.Hangs a k) (hid : s.Hangs id k) : a = id := by
  obtain ⟨hsa, p, hp, hne, rfl⟩ := ha.spot
  obtain ⟨hsid, q, hq, -, heq⟩ := hid.spot
  obtain ⟨hdev, hat⟩ := Prod.mk.inj heq
  exact (h.apart a id hsa hsid hdev p q hp hq hne hat).1

/-! ### What is beside one inode -/

/-- **An inode is what it was**, and so is what hangs from it. -/
structure Same (s s' : Kernel) (id : Id) : Prop where
  inode : s'.inode id = s.inode id
  data : s.Stored id → ∀ p : Spot, p.Ok → (s.file id).at p ≠ 0 →
    s'.data id.dev ((s.file id).at p) = s.data id.dev ((s.file id).at p)
  readable : s.Stored id → ∀ p : Spot, p.Ok → (s.file id).at p ≠ 0 →
    s'.readable id.dev ((s.file id).at p) = s.readable id.dev ((s.file id).at p)

theorem isDir_congr (h : (s'.inode id).mode = (s.inode id).mode) :
    isDir (s'.disk.inode id) = isDir (s.disk.inode id) := by
  have hmode : (s'.disk.inode id).mode = (s.disk.inode id).mode := h
  rw [isDir, isDir, hmode]

namespace Same

theorem isDir_eq (h : Same s s' id) : isDir (s'.disk.inode id) = isDir (s.disk.inode id) :=
  isDir_congr (congrArg Inode.mode h.inode)

theorem isStored_eq (h : Same s s' id) :
    isStored (s'.disk.inode id) = isStored (s.disk.inode id) :=
  isStored_congr (congrArg Inode.mode h.inode)

/-- **The zones of the file are what they were**: the induction is on the spot. -/
theorem spot (h : Same s s' id) (hs : s.Stored id) (p : Spot) (hp : p.Ok) :
    (s'.file id).at p = (s.file id).at p := by
  induction p with
  | top k => exact congrFun (congrArg Inode.zone h.inode) k
  | under r j ih =>
    have ih := ih hp.1.ok
    by_cases h0 : (s.file id).at r = 0
    · rw [Bmap.at_under_eq_zero h0, Bmap.at_under_eq_zero (ih.trans h0)]
    · rw [Bmap.at_under h0, Bmap.at_under (ih.symm ▸ h0), ih]
      exact Bmap.word_congr (h.data hs r hp.1.ok h0) j

theorem hangs (h : Same s s' id) (ha : s'.Allocated id) (hk : s.Hangs id k) :
    s'.Hangs id k := by
  obtain ⟨hs, p, hp, hne, rfl⟩ := hk.spot
  refine ⟨rfl, ⟨ha, h.isStored_eq ▸ hs.stored⟩, hne, p, hp, h.spot hs p hp⟩

theorem size (h : Same s s' id) : (s'.file id).size = (s.file id).size :=
  congrArg Inode.size h.inode

theorem trans (h : Same s s' id) (h' : Same s' u id) (ha : s'.Allocated id) : Same s u id := by
  have hs' : s.Stored id → s'.Stored id := fun hs => ⟨ha, h.isStored_eq ▸ hs.stored⟩
  refine ⟨h'.inode.trans h.inode, fun hs p hp hne => ?_, fun hs p hp hne => ?_⟩
  · have hp' := h.spot hs p hp
    have hdata := h'.data (hs' hs) p hp (hp'.symm ▸ hne)
    rw [hp'] at hdata
    exact hdata.trans (h.data hs p hp hne)
  · have hp' := h.spot hs p hp
    have hread := h'.readable (hs' hs) p hp (hp'.symm ▸ hne)
    rw [hp'] at hread
    exact hread.trans (h.readable hs p hp hne)

end Same

/-- **One inode has changed**, and what hangs from it, and nothing else. -/
structure Beside (id : Id) (s s' : Kernel) : Prop extends Steady s s' where
  alloc : ∀ a ≠ id, s'.Allocated a ↔ s.Allocated a
  same : ∀ a ≠ id, s.Allocated a → Same s s' a
  kept : ∀ a ≠ id, ∀ k, s.Hangs a k → k ∈ s'.bitmap.zones
  fresh : ∀ k ∈ s'.bitmap.zones, (∃ a ≠ id, s.Hangs a k) ∨ s'.Hangs id k
  apart : ∀ k, s'.Hangs id k → ∀ a ≠ id, ¬s.Hangs a k
  iCount : ∀ a ≠ id, s'.iCount a = s.iCount a
  idle : ∀ k ∈ s'.bitmap.zones, s'.bCount k = 0

/-- **The books of one inode are right**, now that it has changed. -/
structure Right (id : Id) (owed : Id → ℕ) (out : Set Id) (s s' : Kernel) : Prop where
  dir : s'.Allocated id → isDir (s'.disk.inode id) = true → Dir (s'.file id) ∧
    2 ≤ (s'.file id).size / 16 ∧ hasDots (s'.file id) id.num ((s'.file id).zone 0) = true ∧
    2 ≤ (s'.inode id).nlinks.toNat ∧
    ∀ i < (s'.file id).size / 16, Directory.ino (s'.file id) (slot (s'.file id) i) ≠ 0 →
      s'.Allocated ⟨id.dev, Directory.ino (s'.file id) (slot (s'.file id) i)⟩
  mount : s'.Allocated id → (s'.inode id).mount = true →
    s.Allocated id ∧ (s.inode id).mount = true
  held : s.Allocated id → s.iCount id ≠ 0 → s'.Allocated id ∧ s'.iCount id ≠ 0
  stays : s.Allocated id → s.iCount id ≠ 0 → isDir (s.disk.inode id) = true →
    isDir (s'.disk.inode id) = true
  unheld : ¬s'.Allocated id → s'.iCount id = 0
  zones : s'.Stored id → Distinct (s'.file id) ∧ s'.Inside id ∧
    ∀ p : Spot, p.Ok → (s'.file id).at p ≠ 0 → s'.readable id.dev ((s'.file id).at p) = true
  named : ¬s'.Allocated id → s'.names id = ∅
  links : ∀ a, s'.Allocated a → (s'.names a).encard + owed a = ((s'.inode a).nlinks.toNat : ℕ∞)
  family : Family out s'

/-! ### Directories that have not changed -/

/-- The entries of a directory are where they were. -/
theorem Same.slot_eq (h : Same s s' dir) (hs : s.Stored dir) (hi : i / 64 < Bmap.maxBlock) :
    slot (s'.file dir) i = slot (s.file dir) i := by
  rw [slot, slot, h.spot hs _ (Bmap.Spot.data_ofBlock hi).1]

/-- The blocks of the entries of a directory are what they were. -/
theorem Same.block (h : Same s s' dir) (hs : s.Stored dir) (hdir : Dir (s.file dir))
    (hi : i < (s.file dir).size / 16) :
    (s'.file dir).data (slot (s.file dir) i).1 = (s.file dir).data (slot (s.file dir) i).1 := by
  obtain ⟨hlt, hne⟩ := hdir.block hi
  exact h.data hs _ (Bmap.Spot.data_ofBlock hlt).1 hne

theorem Same.ino_eq (h : Same s s' dir) (hs : s.Stored dir) (hdir : Dir (s.file dir))
    (hi : i < (s.file dir).size / 16) :
    Directory.ino (s'.file dir) (slot (s'.file dir) i) =
      Directory.ino (s.file dir) (slot (s.file dir) i) := by
  rw [h.slot_eq hs (hdir.block hi).1, Directory.ino, Directory.ino]
  exact Bmap.word_congr (h.block hs hdir hi) _

/-- **A directory is what it was.** -/
theorem Same.wellFormed (h : Same s s' dir) (hs : s.Stored dir) (hdir : Dir (s.file dir))
    (hin : s'.Inside dir) : Dir (s'.file dir) := by
  have hspot := fun p hp => h.spot hs p hp
  refine ⟨⟨fun p q hp hq hne heq => ?_, fun p hp hne => ?_, fun p hp hne => ?_⟩, ?_, fun k hk => ?_⟩
  · rw [hspot p hp] at hne heq
    rw [hspot q hq] at heq
    exact hdir.inj p q hp hq hne heq
  · rw [← Bool.not_eq_false]
    exact fun hfree => (used_eq_false.mp hfree).2 (hin p hp hne)
  · rw [hspot p hp] at hne ⊢
    exact (h.readable hs p hp hne).trans (hdir.readable p hp hne)
  · rw [h.size]
    exact hdir.size
  · rw [h.size] at hk
    obtain ⟨hlt, hne⟩ := hdir.whole k hk
    refine ⟨hlt, ?_⟩
    rw [hspot _ (Bmap.Spot.data_ofBlock hlt).1]
    exact hne

theorem hasDots_congr {t' : State} (h : t'.data b = t.data b) :
    hasDots t' n b = hasDots t n b := by
  rw [hasDots, hasDots, Directory.ino, Directory.ino, Directory.ino, Directory.ino,
    Bmap.word_congr h, Bmap.word_congr h]
  simp only [Directory.nameByte, h]

theorem Same.goodDots (h : Same s s' dir) (hs : s.Stored dir) (hgood : s.GoodDir dir) :
    hasDots (s'.file dir) dir.num ((s'.file dir).zone 0) = true := by
  have hzone : (s'.file dir).zone 0 = (s.file dir).zone 0 := h.spot hs (.top 0) (by decide : 0 < 9)
  have hdata : (s'.file dir).data ((s.file dir).zone 0) = (s.file dir).data ((s.file dir).zone 0) :=
    h.data hs (.top 0) (by decide : 0 < 9) hgood.first.1
  rw [hzone, hasDots_congr hdata]
  exact hgood.dots

/-- **The entries of the other directories** are what they were. -/
theorem Beside.entry_iff (hb : Beside id s s') (h : Tidy owed out s) (hne : a ≠ id) :
    s'.Entry a i n ↔ s.Entry a i n := by
  constructor
  · rintro ⟨ha, hd, hlt, hino, h0⟩
    have ha := (hb.alloc a hne).mp ha
    have hsame := hb.same a hne ha
    rw [hsame.isDir_eq] at hd
    rw [hsame.size] at hlt
    have hino' := hsame.ino_eq (stored_of_isDir ha hd) (h.dir a ha hd).toDir hlt
    exact ⟨ha, hd, hlt, hino'.symm.trans hino, h0⟩
  · rintro ⟨ha, hd, hlt, hino, h0⟩
    have hsame := hb.same a hne ha
    have hino' := hsame.ino_eq (stored_of_isDir ha hd) (h.dir a ha hd).toDir hlt
    refine ⟨(hb.alloc a hne).mpr ha, hsame.isDir_eq.trans hd, ?_, hino'.trans hino, h0⟩
    rw [hsame.size]
    exact hlt

/-- What an entry names has a link. -/
theorem links_ne_of_entry
    (hlinks : (s.names id).encard + owed id = ((s.inode id).nlinks.toNat : ℕ∞))
    (he : s.Entry ⟨id.dev, n⟩ i id.num) : (s.inode id).nlinks ≠ 0 := by
  intro h0
  have hmem : (n, i) ∈ s.names id := he
  rw [h0] at hlinks
  have hzero : (s.names id).encard = 0 := (add_eq_zero.mp (hlinks.trans (by rfl))).1
  rw [Set.encard_eq_zero] at hzero
  rw [hzero] at hmem
  exact hmem

/-! ### The file systems stay tidy -/

theorem Beside.inside (hb : Beside id s s') (hne : a ≠ id) (hs : s.Stored a) : s'.Inside a := by
  intro p hp h0
  have hsame := hb.same a hne hs.alloc
  rw [hsame.spot hs p hp] at h0 ⊢
  exact hb.kept a hne _ (hangs_at hs hp h0)

theorem Beside.stored (hb : Beside id s s') (hne : a ≠ id) (hs : s'.Stored a) : s.Stored a := by
  have ha := (hb.alloc a hne).mp hs.alloc
  exact ⟨ha, (hb.same a hne ha).isStored_eq ▸ hs.stored⟩

/-- **Directories stay well formed.** -/
theorem Tidy.goodDir (h : Tidy owed out s) (hb : Beside id s s') (hr : Right id owed' out' s s')
    (ha : s'.Allocated a) (hd : isDir (s'.disk.inode a) = true) : s'.GoodDir a := by
  have hnamed : ∀ i, i < (s'.file a).size / 16 →
      Directory.ino (s'.file a) (slot (s'.file a) i) ≠ 0 →
      s'.Allocated ⟨a.dev, Directory.ino (s'.file a) (slot (s'.file a) i)⟩ →
      s'.Named ⟨a.dev, Directory.ino (s'.file a) (slot (s'.file a) i)⟩ := fun i hi hne halloc =>
    ⟨halloc, links_ne_of_entry (hr.links _ halloc) (n := a.num) ⟨ha, hd, hi, rfl, hne⟩⟩
  by_cases hid : a = id
  · subst hid
    obtain ⟨hdir, htwo, hdots, hlinks, hentry⟩ := hr.dir ha hd
    exact ⟨hdir, htwo, hdots, hlinks, fun i hi hne => hnamed i hi hne (hentry i hi hne)⟩
  · have ha₀ := (hb.alloc a hid).mp ha
    have hsame := hb.same a hid ha₀
    have hd₀ := hsame.isDir_eq ▸ hd
    have hgood := h.dir a ha₀ hd₀
    have hs := stored_of_isDir ha₀ hd₀
    refine ⟨hsame.wellFormed hs hgood.toDir (hb.inside hid hs), ?_, hsame.goodDots hs hgood, ?_,
      fun i hi hne => hnamed i hi hne ?_⟩
    · rw [hsame.size]
      exact hgood.two
    · rw [hsame.inode]
      exact hgood.links
    · have hi₀ := hi
      rw [hsame.size] at hi₀
      rw [hsame.ino_eq hs hgood.toDir hi₀] at hne
      have halloc := (hgood.entry i hi₀ hne).alloc
      rw [hsame.ino_eq hs hgood.toDir hi₀]
      by_cases htarget : (⟨a.dev, Directory.ino (s.file a) (slot (s.file a) i)⟩ : Id) = id
      · -- what is named has not been given back
        rw [htarget]
        by_contra hgone
        have hmem : (a.num, i) ∈ s'.names id := by
          subst htarget
          exact ⟨ha, hd, hi, hsame.ino_eq hs hgood.toDir hi₀, hne⟩
        rw [hr.named hgone] at hmem
        exact hmem
      · exact (hb.alloc _ htarget).mpr halloc

theorem Beside.getSuper (hb : Beside id s s') (d : ℕ) : s'.getSuper d = s.getSuper d := by
  rw [Kernel.getSuper, Kernel.getSuper, hb.super]

/-- A directory that is held stays one. -/
theorem Beside.stays (hb : Beside id s s') (hr : Right id owed' out' s s') (ha : s.Allocated a)
    (hc : s.iCount a ≠ 0) (hd : isDir (s.disk.inode a) = true) :
    s'.Allocated a ∧ isDir (s'.disk.inode a) = true := by
  by_cases hid : a = id
  · subst hid
    exact ⟨(hr.held ha hc).1, hr.stays ha hc hd⟩
  · exact ⟨(hb.alloc a hid).mpr ha, (hb.same a hid ha).isDir_eq.trans hd⟩

/-- Who is held stays so. -/
theorem Beside.held (hb : Beside id s s') (hr : Right id owed' out' s s')
    (h : s.Allocated a ∧ s.iCount a ≠ 0) : s'.Allocated a ∧ s'.iCount a ≠ 0 := by
  by_cases hid : a = id
  · subst hid
    exact hr.held h.1 h.2
  · refine ⟨(hb.alloc a hid).mpr h.1, ?_⟩
    rw [hb.iCount a hid]
    exact h.2

/-- What is mounted is what it was. -/
theorem Beside.mount (hb : Beside id s s') (hr : Right id owed' out' s s') (ha : s'.Allocated a)
    (hm : (s'.inode a).mount = true) : s.Allocated a ∧ (s.inode a).mount = true := by
  by_cases hid : a = id
  · subst hid
    exact hr.mount ha hm
  · have ha₀ := (hb.alloc a hid).mp ha
    rw [(hb.same a hid ha₀).inode] at hm
    exact ⟨ha₀, hm⟩

/-- **The tree stays well formed.** -/
theorem Tidy.tree (h : Tidy owed out s) (hb : Beside id s s')
    (hr : Right id owed' out' s s') : Tree s' := by
  have hgood := fun a ha hd => h.goodDir hb hr (a := a) ha hd
  refine ⟨hgood, fun a i ha hm hi => ?_, fun dev sb a hsb ha => ?_, ?_, ?_⟩
  · obtain ⟨ha₀, hm₀⟩ := hb.mount hr ha hm
    have hi₀ : mountedOn s.disk a = some i := by
      rw [← hi, mountedOn, mountedOn]
      change _ = (List.range 8).find? fun i => (s'.super i).imount = some a
      rw [hb.super]
      rfl
    obtain ⟨hnamed, hno⟩ := h.mount a i ha₀ hm₀ hi₀
    rw [hb.super]
    obtain ⟨sb, hsb⟩ := hnamed.alloc.super
    have hroot := h.family.root _ sb hsb
    obtain ⟨hroot', hd'⟩ := hb.stays hr hroot.alloc (h.top _ sb hsb) hroot.isDir
    refine ⟨⟨hroot', (hgood _ hroot' hd').links_ne⟩, ?_⟩
    rw [← Bool.not_eq_true]
    intro hm'
    have hm₀ := (hb.mount hr hroot' hm').2
    exact Bool.noConfusion (hm₀.symm.trans hno)
  · rw [hb.getSuper] at hsb
    obtain ⟨ha₀, hd⟩ := h.up dev sb a hsb ha
    exact hb.stays hr ha₀ (h.covered dev sb a hsb ha) hd
  · rw [hb.task]
    exact hb.held hr h.root
  · rw [hb.task]
    exact hb.held hr h.pwd

/-- **No two files share a zone.** -/
theorem Stowed.apart' (h : Stowed s) (hb : Beside id s s')
    (hz : s'.Stored id → Distinct (s'.file id)) {c : Id} (ha : s'.Stored a) (hc : s'.Stored c)
    (hdev : a.dev = c.dev) {p q : Spot} (hp : p.Ok) (hq : q.Ok) (hne : (s'.file a).at p ≠ 0)
    (heq : (s'.file a).at p = (s'.file c).at q) : a = c ∧ p = q := by
  have hother : ∀ {a c : Id} {p q : Spot}, s'.Stored a → s'.Stored c → a.dev = c.dev → p.Ok →
      q.Ok → (s'.file a).at p ≠ 0 → (s'.file a).at p = (s'.file c).at q → a = id → c ≠ id →
      False := by
    rintro a c p q ha hc hdev hp hq hne heq rfl hcid
    have hs := hb.stored hcid hc
    have hspot := (hb.same c hcid hs.alloc).spot hs q hq
    refine hb.apart _ (hangs_at ha hp hne) c hcid ⟨hdev, hs, hne, q, hq, ?_⟩
    rw [← hspot, ← heq]
  by_cases haid : a = id
  · by_cases hcid : c = id
    · subst haid
      subst hcid
      exact ⟨rfl, hz ha p q hp hq hne heq⟩
    · exact (hother ha hc hdev hp hq hne heq haid hcid).elim
  · by_cases hcid : c = id
    · exact (hother hc ha hdev.symm hq hp (heq ▸ hne) heq.symm hcid haid).elim
    · have hsa := hb.stored haid ha
      have hsc := hb.stored hcid hc
      have hspot := (hb.same a haid hsa.alloc).spot hsa p hp
      have hspot' := (hb.same c hcid hsc.alloc).spot hsc q hq
      rw [hspot] at hne heq
      rw [hspot'] at heq
      exact h.apart a c hsa hsc hdev p q hp hq hne heq

/-- **The zones stay stowed away**, when one inode has changed and its zones are in order. -/
theorem Stowed.beside (h : Stowed s) (hb : Beside id s s') (hz : s'.Stored id →
    Distinct (s'.file id) ∧ s'.Inside id ∧ ∀ p : Spot, p.Ok → (s'.file id).at p ≠ 0 →
      s'.readable id.dev ((s'.file id).at p) = true) : Stowed s' := by
  refine ⟨hb.maps, fun a ha => ?_, fun a c ha hc hdev p q hp hq hne heq =>
    h.apart' hb (fun hs => (hz hs).1) ha hc hdev hp hq hne heq, fun k hk => ?_,
    fun a ha p hp hne => ?_, hb.idle⟩
  · by_cases hid : a = id
    · subst hid
      exact (hz ha).2.1
    · exact hb.inside hid (hb.stored hid ha)
  · rcases hb.fresh k hk with ⟨a, hid, hown⟩ | hown
    · have ha := hown.spot.1.alloc
      exact ⟨a, (hb.same a hid ha).hangs ((hb.alloc a hid).mpr ha) hown⟩
    · exact ⟨id, hown⟩
  · by_cases hid : a = id
    · subst hid
      exact (hz ha).2.2 p hp hne
    · have hs := hb.stored hid ha
      have hsame := hb.same a hid hs.alloc
      rw [hsame.spot hs p hp] at hne ⊢
      exact (hsame.readable hs p hp hne).trans (h.legible a hs p hp hne)

/-- **The file systems stay tidy**, when one inode has changed and its books are right. -/
theorem Tidy.beside (h : Tidy owed out s) (hb : Beside id s s') (hr : Right id owed' out' s s') :
    Tidy owed' out' s' :=
  { h.toStowed.beside hb hr.zones, h.tree hb hr with
    short := h.short.steady hb.toSteady
    unheld := fun a ha => by
      by_cases hid : a = id
      · subst hid
        exact hr.unheld ha
      · rw [hb.iCount a hid]
        exact h.unheld a fun ha₀ => ha ((hb.alloc a hid).mpr ha₀)
    family := hr.family
    top := fun dev sb hsb => by
      rw [hb.getSuper] at hsb
      exact (hb.held hr ⟨(h.family.root dev sb hsb).alloc, h.top dev sb hsb⟩).2
    covered := fun dev sb a hsb hm => by
      rw [hb.getSuper] at hsb
      exact (hb.held hr ⟨(h.up dev sb a hsb hm).1, h.covered dev sb a hsb hm⟩).2
    links := hr.links }

end Linux011.Fs.Names

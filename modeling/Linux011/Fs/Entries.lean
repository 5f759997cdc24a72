import Linux011.Fs.Ledger

/-!
# Which entries there are

A directory is known by the numbers in its entries (`Linux011.Fs.Names.inos`). `add_entry` and the
store to `de->inode` behind it change one of them, the store of a zero does so too, and where there
is no room none is changed (`Linux011.Fs.Names.Edited`). So the file systems stay tidy when an entry
is cleared (`Linux011.Fs.Names.Tidy.clear`), and one more link is owed; and when one is made
(`Linux011.Fs.Names.Tidy.enter`), and one link less is.

What is done to an inode that is no directory changes no entry (`Linux011.Fs.Names.Tidy.file`).
-/

namespace Linux011.Fs.Names

open Bmap (State Place Spot Sound Grown)
open Directory (Pointer Dir slot)

variable {s s' u : Kernel} {id a dir : Id} {k : ℕ × ℕ} {name : List UInt8} {e : Pointer}
  {i j n num b x dev : ℕ} {t t' : State} {owed owed' : Id → ℕ}
  {out out' : Set Id}

/-! ### The numbers in a directory -/

/-- The number in an entry, or 0 behind the last one. -/
def inos (t : State) (i : ℕ) : ℕ :=
  if i < t.size / 16 then Directory.ino t (slot t i) else 0

/-- **An entry has another number**, and the rest of the directory is what it was. -/
structure Edited (t t' : State) (i num : ℕ) : Prop where
  dir : Dir t'
  size : t.size ≤ t'.size
  inos : Names.inos t' = Function.update (Names.inos t) i num
  dots : 2 ≤ i → 2 ≤ t.size / 16 → ∀ n, hasDots t' n (t'.zone 0) = hasDots t n (t.zone 0)

/-- The first two entries are what they were. -/
theorem hasDots_eq (h : ∀ j < 2, slot t' j = slot t j ∧ ∀ y < 16,
      t'.data (slot t j).1 (16 * (slot t j).2 + y) = t.data (slot t j).1 (16 * (slot t j).2 + y))
    (n : ℕ) : hasDots t' n (t'.zone 0) = hasDots t n (t.zone 0) := by
  obtain ⟨hslot₀, hbytes₀⟩ := h 0 (by decide)
  obtain ⟨-, hbytes₁⟩ := h 1 (by decide)
  have hzone : t'.zone 0 = t.zone 0 := congrArg Prod.fst hslot₀
  have hslot : ∀ j < 2, slot t j = (t.zone 0, j) := by
    intro j hj
    rw [slot, Nat.div_eq_of_lt (by omega), Nat.mod_eq_of_lt (by omega)]
    rfl
  rw [hslot 0 (by decide)] at hbytes₀
  rw [hslot 1 (by decide)] at hbytes₁
  rw [hasDots, hasDots, hzone, Directory.ino_congr hbytes₀, Directory.ino_congr hbytes₁,
    Directory.nameByte_congr hbytes₀ (by decide), Directory.nameByte_congr hbytes₀ (by decide),
    Directory.nameByte_congr hbytes₁ (by decide), Directory.nameByte_congr hbytes₁ (by decide),
    Directory.nameByte_congr hbytes₁ (by decide)]

namespace Edited

/-- **A number is stored in an entry.** -/
theorem setIno (h : Dir t) (hi : i < t.size / 16) (hnum : num < 65536) :
    Edited t (Directory.setIno t (slot t i) num) i num := by
  have hwrote := Directory.wrote_setIno t (slot t i) num
  obtain ⟨hdir, hslot, hsame⟩ := h.wrote hi hwrote rfl
  refine ⟨hdir, le_rfl, funext fun j => ?_, fun htwo hsize => hasDots_eq fun j hj => ?_⟩
  · have hsize : (Directory.setIno t (slot t i) num).size = t.size := rfl
    rw [Names.inos, hsize]
    by_cases hji : j = i
    · rw [hji, Function.update_self, if_pos hi, hslot i hi]
      exact Bmap.word_setWord_self t _ _ hnum
    · rw [Function.update_of_ne hji, Names.inos]
      refine if_ctx_congr Iff.rfl (fun hj => ?_) fun _ => rfl
      rw [hslot j hj]
      exact (hsame j hj hji).1
  · have hj' : j < t.size / 16 := by omega
    have hplace := Directory.slot_ne h.toSound (h.block hi).1 (h.block hj').1 (h.block hi).2
      (by omega)
    refine ⟨hslot j hj', fun y hy => hwrote.data _ _ (hplace.imp_right fun hne heq => hne ?_)⟩
    omega

/-- **A directory has grown**, and no entry has changed. -/
theorem grown (h : Dir t) (hsound : Sound t') (hgrown : Grown t t') (i : ℕ) :
    Edited t t' i (Names.inos t i) := by
  have hat : ∀ k, 1024 * k < t.size → t'.at (.ofBlock k) = t.at (.ofBlock k) := fun k hk =>
    hgrown.kept _ (Spot.data_ofBlock (h.whole k hk).1).1 (h.whole k hk).2
  have hslot : ∀ j < t.size / 16, slot t' j = slot t j := by
    intro j hj
    rw [slot, slot, hat (j / 64) (by omega)]
  have hbytes : ∀ j < t.size / 16, t'.data (slot t j).1 = t.data (slot t j).1 := fun j hj =>
    hgrown.data _ (Spot.data_ofBlock (h.block hj).1) (h.block hj).2
  refine ⟨⟨hsound, ?_, fun k hk => ?_⟩, hgrown.size.ge, ?_, fun _ htwo =>
    hasDots_eq fun j hj => ⟨hslot j (by omega), fun y _ => ?_⟩⟩
  · rw [hgrown.size]
    exact h.size
  · rw [hgrown.size] at hk
    rw [hat k hk]
    exact h.whole k hk
  · rw [Function.update_eq_self]
    funext j
    rw [Names.inos, Names.inos, hgrown.size]
    refine if_ctx_congr Iff.rfl (fun hj => ?_) fun _ => rfl
    rw [hslot j hj, Directory.ino, Directory.ino]
    exact Bmap.word_congr (hbytes j hj) _
  · rw [hbytes j (by omega)]

/-- **There is no room** for an entry. -/
theorem none (h : Dir t) (h0 : t.zone 0 ≠ 0) (hname : name ≠ [])
    (hrun : Directory.addEntry firstFree name t = .ok (.none, t')) (i : ℕ) :
    Edited t t' i (Names.inos t i) := by
  obtain ⟨r, u, hrun', hfull, -⟩ := @Directory.addEntry_total _ firstFree _ h hname h0
  rw [hrun] at hrun'
  obtain ⟨rfl, rfl⟩ := Prod.mk.inj (Except.ok.inj hrun')
  obtain ⟨u, hbmap, hsound, hgrown, -⟩ := Bmap.create_spec h.toSound firstFree h.small
  rw [(hfull rfl).block] at hbmap
  obtain ⟨-, rfl⟩ := Prod.mk.inj (Except.ok.inj hbmap)
  exact grown h hsound hgrown i

/-- **An entry is added, and gets a number.** -/
theorem some (h : Dir t) (hrun : Directory.addEntry firstFree name t = .ok (.some e, t'))
    (hnum : num < 65536) :
    ∃ i, Names.inos t i = 0 ∧ Edited t (Directory.setIno t' e num) i num := by
  obtain ⟨i, ha⟩ := Directory.addEntry_spec h hrun
  have hmod := h.size
  have hle := ha.le
  have hsize := ha.size
  have hi : i < t'.size / 16 := by omega
  have hwrote := Directory.wrote_setIno t' e num
  rw [← ha.pointer] at hwrote ⊢
  obtain ⟨hdir, hslot, hsame⟩ := ha.dir.wrote hi hwrote rfl
  have hsize' : (Directory.setIno t' (slot t' i) num).size = t'.size := rfl
  have hold : ∀ j < t.size / 16, j ≠ i →
      slot (Directory.setIno t' (slot t' i) num) j = slot t j ∧ ∀ y < 16,
        (Directory.setIno t' (slot t' i) num).data (slot t j).1 (16 * (slot t j).2 + y) =
          t.data (slot t j).1 (16 * (slot t j).2 + y) := by
    intro j hj hji
    have hj' : j < t'.size / 16 := by omega
    obtain ⟨hslotj, hbytes⟩ := ha.others j hj hji
    have hplace := Directory.slot_ne ha.dir.toSound (ha.dir.block hi).1 (ha.dir.block hj').1
      (ha.dir.block hi).2 (Ne.symm hji)
    rw [hslotj] at hplace
    refine ⟨(hslot j hj').trans hslotj, fun y hy => (hwrote.data _ _
      (hplace.imp_right fun hne heq => hne ?_)).trans (hbytes y hy)⟩
    omega
  refine ⟨i, ?_, hdir, by omega, funext fun j => ?_, fun htwo hsize => hasDots_eq fun j hj =>
    hold j (by omega) (by omega)⟩
  · rw [Names.inos]
    split_ifs with hlt
    · exact ha.free hlt
    · rfl
  · by_cases hji : j = i
    · rw [hji, Function.update_self, Names.inos, if_pos (hsize' ▸ hi), hslot i hi]
      exact Bmap.word_setWord_self t' _ _ hnum
    · rw [Function.update_of_ne hji, Names.inos, Names.inos, hsize']
      by_cases hj : j < t.size / 16
      · obtain ⟨hslotj, hbytes⟩ := hold j hj hji
        rw [if_pos hj, if_pos (by omega), hslotj, Directory.ino_congr hbytes]
      · rw [if_neg hj, if_neg (by omega)]

end Edited

/-! ### The entries of a directory -/

theorem entry_iff : s.Entry dir i n ↔ s.Allocated dir ∧ isDir (s.disk.inode dir) = true ∧
    inos (s.file dir) i = n ∧ n ≠ 0 := by
  constructor
  · rintro ⟨ha, hd, hlt, hino, hne⟩
    exact ⟨ha, hd, (if_pos hlt).trans hino, hne⟩
  · rintro ⟨ha, hd, hino, hne⟩
    rw [inos] at hino
    split_ifs at hino with hlt
    · exact ⟨ha, hd, hlt, hino, hne⟩
    · exact absurd hino.symm hne

/-- **Directories form trees as before**, when they are in others as before, and `..` is kept. -/
theorem Family.congr (h : Family out s) (hsub : ∀ {up j d}, s'.Sub up j d ↔ s.Sub up j d)
    (hone : ∀ {a n}, s.Entry a 1 n → s'.Entry a 1 n)
    (hkind : ∀ a, s'.Allocated a ∧ isDir (s'.disk.inode a) = true →
      s.Allocated a ∧ isDir (s.disk.inode a) = true)
    (hsuper : ∀ d, s'.getSuper d = s.getSuper d) : Family out s' := by
  refine ⟨fun up j d hs => hone (h.up up j d (hsub.mp hs)), fun d halloc hisDir hin => ?_,
    fun a b j l d hs hs' => h.once a b j l d (hsub.mp hs) (hsub.mp hs'),
    fun up j d hs => h.top up j d (hsub.mp hs), fun dev sb hsb => ?_⟩
  · obtain ⟨halloc', hisDir'⟩ := hkind d ⟨halloc, hisDir⟩
    exact (h.down d halloc' hisDir' hin).mono (fun _ => True)
      (fun _ _ _ hs _ => ⟨trivial, hsub.mpr hs⟩) trivial
  · rw [hsuper] at hsb
    exact hone (h.root dev sb hsb)

/-- So they do when the entries are what they were. -/
theorem Family.of_entries (h : Family out s) (hentry : ∀ a i n, s'.Entry a i n ↔ s.Entry a i n)
    (hkind : ∀ a, s'.Allocated a ∧ isDir (s'.disk.inode a) = true ↔
      s.Allocated a ∧ isDir (s.disk.inode a) = true)
    (hsuper : ∀ d, s'.getSuper d = s.getSuper d) : Family out s' := by
  refine h.congr (fun {up j d} => ⟨?_, ?_⟩) (hentry _ _ _).mpr (fun a => (hkind a).mp) hsuper
  · rintro ⟨he, hj, hdev, halloc, hisDir⟩
    obtain ⟨halloc', hisDir'⟩ := (hkind d).mp ⟨halloc, hisDir⟩
    exact ⟨(hentry _ _ _).mp he, hj, hdev, halloc', hisDir'⟩
  · rintro ⟨he, hj, hdev, halloc, hisDir⟩
    obtain ⟨halloc', hisDir'⟩ := (hkind d).mpr ⟨halloc, hisDir⟩
    exact ⟨(hentry _ _ _).mpr he, hj, hdev, halloc', hisDir'⟩

theorem names_congr (hentry : ∀ a i n, s'.Entry a i n ↔ s.Entry a i n) (a : Id) :
    s'.names a = s.names a := Set.ext fun _ => hentry _ _ _

/-- **What an entry names** is there. -/
theorem Tidy.alloc_of_entry (h : Tidy owed out s) (he : s.Entry dir i n) :
    s.Allocated ⟨dir.dev, n⟩ := by
  have hgood := h.dir dir he.alloc he.isDir
  have hne := he.ne
  rw [← he.ino] at hne ⊢
  exact (hgood.entry i he.lt hne).alloc

/-- An inode that is free has no names. -/
theorem Tidy.names_eq_empty (h : Tidy owed out s) (ha : ¬s.Allocated id) : s.names id = ∅ := by
  refine Set.eq_empty_of_forall_notMem fun e he => ha ?_
  have hentry : s.Entry ⟨id.dev, e.1⟩ e.2 id.num := he
  have halloc := h.alloc_of_entry hentry
  exact halloc

/-- `.` and `..` name something. -/
theorem Tidy.entry_dots (h : Tidy owed out s) (ha : s.Allocated dir)
    (hd : isDir (s.disk.inode dir) = true) :
    inos (s.file dir) 0 = dir.num ∧ inos (s.file dir) 1 ≠ 0 := by
  have hgood := h.dir dir ha hd
  have htwo := hgood.two
  obtain ⟨hdot, hdotdot, -⟩ := hasDots_spec hgood.dots
  have hslot : ∀ j < 2, slot (s.file dir) j = ((s.file dir).zone 0, j) := by
    intro j hj
    rw [slot, Nat.div_eq_of_lt (by omega), Nat.mod_eq_of_lt (by omega)]
    rfl
  refine ⟨?_, ?_⟩
  · rw [inos, if_pos (by omega), hslot 0 (by decide)]
    exact hdot
  · rw [inos, if_pos (by omega), hslot 1 (by decide)]
    exact hdotdot

/-- An entry that is free is behind `..` -/
theorem Tidy.two_le (h : Tidy owed out s) (ha : s.Allocated dir)
    (hd : isDir (s.disk.inode dir) = true) (hfree : inos (s.file dir) i = 0) : 2 ≤ i := by
  obtain ⟨hdot, hdotdot⟩ := h.entry_dots ha hd
  by_contra hlt
  obtain rfl | rfl : i = 0 ∨ i = 1 := by omega
  · exact ha.num_ne (hdot.symm.trans hfree)
  · exact hdotdot hfree

/-- **The number of an inode is a short.** -/
theorem num_lt (hc : Bitmap.Consistent s.bitmap) (ha : s.Allocated id) : id.num < 65536 := by
  obtain ⟨sb, hsb, hhas, -⟩ := ha
  have hok := hc.ok _ sb hsb
  by_contra hge
  have hcover := hok.icover id.num hhas
  rw [hok.islots _ (by omega)] at hcover
  cases hcover

/-- **An entry of a directory has changed.** -/
structure Edits (dir : Id) (i num : ℕ) (s s' : Kernel) : Prop
    extends Swells dir s s' (s'.file dir) where
  edited : Edited (s.file dir) (s'.file dir) i num

namespace Edits

theorem alloc (h : Edits dir i num s s') : s'.Allocated a ↔ s.Allocated a := by
  rw [Kernel.Allocated, h.inodes]
  rfl

theorem mode (h : Edits dir i num s s') (a : Id) : (s'.inode a).mode = (s.inode a).mode := by
  rw [h.inode]
  by_cases heq : a = dir
  · rw [heq, Function.update_self]
  · rw [Function.update_of_ne heq]

theorem mount (h : Edits dir i num s s') (a : Id) : (s'.inode a).mount = (s.inode a).mount := by
  rw [h.inode]
  by_cases heq : a = dir
  · rw [heq, Function.update_self]
  · rw [Function.update_of_ne heq]

theorem isDir_eq (h : Edits dir i num s s') (a : Id) :
    isDir (s'.disk.inode a) = isDir (s.disk.inode a) := isDir_congr (h.mode a)

/-- **The entries that there are now.** -/
theorem entry_iff (h : Edits dir i num s s') (ht : Tidy owed out s) (ha : s.Allocated dir)
    (hd : isDir (s.disk.inode dir) = true) : s'.Entry a j n ↔
      if a = dir ∧ j = i then n = num ∧ n ≠ 0 else s.Entry a j n := by
  by_cases hdir : a = dir
  · subst hdir
    rw [Names.entry_iff, h.edited.inos, h.alloc, h.isDir_eq]
    by_cases hj : j = i
    · rw [if_pos ⟨rfl, hj⟩, hj, Function.update_self]
      exact ⟨fun h => ⟨h.2.2.1.symm, h.2.2.2⟩, fun h => ⟨ha, hd, h.1.symm, h.2⟩⟩
    · rw [if_neg fun h => hj h.2, Function.update_of_ne hj, Names.entry_iff]
  · rw [if_neg fun h => hdir h.1]
    exact (h.toSwells.beside ht.toStowed (stored_of_isDir ha hd)).entry_iff ht hdir

/-- **A directory in another one**, when the entry that has changed names none. -/
theorem sub_iff (h : Edits dir i num s s') (ht : Tidy owed out s) (ha : s.Allocated dir)
    (hd : isDir (s.disk.inode dir) = true) (htwo : 2 ≤ i) : s'.Sub a j id ↔
      if a = dir ∧ j = i then id.num = num ∧ id.num ≠ 0 ∧ dir.dev = id.dev ∧ s.Allocated id ∧
        isDir (s.disk.inode id) = true
      else s.Sub a j id := by
  have hentry := h.entry_iff ht ha hd (a := a) (j := j) (n := id.num)
  constructor
  · rintro ⟨he, hj, hdev, halloc, hisDir⟩
    have he' := hentry.mp he
    rw [h.alloc] at halloc
    rw [h.isDir_eq] at hisDir
    by_cases hc : a = dir ∧ j = i
    · rw [if_pos hc] at he' ⊢
      exact ⟨he'.1, he'.2, hc.1 ▸ hdev, halloc, hisDir⟩
    · rw [if_neg hc] at he' ⊢
      exact ⟨he', hj, hdev, halloc, hisDir⟩
  · intro hs
    by_cases hc : a = dir ∧ j = i
    · rw [if_pos hc] at hentry hs
      obtain ⟨hnum, hne, hdev, halloc, hisDir⟩ := hs
      exact ⟨hentry.mpr ⟨hnum, hne⟩, hc.2 ▸ htwo, hc.1 ▸ hdev, h.alloc.mpr halloc,
        (h.isDir_eq id).trans hisDir⟩
    · rw [if_neg hc] at hentry hs
      exact ⟨hentry.mpr hs.entry, hs.two, hs.dev, h.alloc.mpr hs.alloc,
        (h.isDir_eq id).trans hs.isDir⟩

/-- **The books are right**, if the links are. -/
theorem tidy (h : Edits dir i num s s') (ht : Tidy owed out s) (ha : s.Allocated dir)
    (hd : isDir (s.disk.inode dir) = true) (htwo : 2 ≤ i)
    (hnum : num ≠ 0 → s.Allocated ⟨dir.dev, num⟩)
    (hlinks : ∀ a, s.Allocated a → (s'.names a).encard + owed' a = ((s.inode a).nlinks.toNat : ℕ∞))
    (hfamily : Family out' s') : Tidy owed' out' s' := by
  have hgood := ht.dir dir ha hd
  have hsize := h.edited.size
  have hdirs : 2 ≤ (s'.file dir).size / 16 := by
    have hold := hgood.two
    omega
  have halloc : s'.Allocated dir := h.alloc.mpr ha
  refine ht.beside (h.toSwells.beside ht.toStowed (stored_of_isDir ha hd))
    ⟨fun _ _ => ⟨h.edited.dir, hdirs, ?_, ?_, fun j hj hne => ?_⟩, fun _ hm => ⟨ha, ?_⟩,
      fun _ hc => ⟨halloc, ?_⟩, fun _ _ _ => (h.isDir_eq dir).trans hd,
      fun hno => absurd halloc hno, fun _ => ⟨h.edited.dir.inj, ?_, h.edited.dir.readable⟩,
      fun hno => absurd halloc hno, fun a ha => ?_, hfamily⟩
  · rw [h.edited.dots htwo hgood.two]
    exact hgood.dots
  · rw [h.nlinks]
    exact hgood.links
  · have hentry : s'.Entry dir j (Directory.ino (s'.file dir) (slot (s'.file dir) j)) :=
      ⟨halloc, (h.isDir_eq dir).trans hd, hj, rfl, hne⟩
    rw [h.entry_iff ht ha hd] at hentry
    rw [h.alloc]
    split_ifs at hentry with hc
    · rw [hentry.1]
      exact hnum (hentry.1 ▸ hentry.2)
    · exact ht.alloc_of_entry hentry
  · rw [← h.mount]
    exact hm
  · rw [h.iCount]
    exact hc
  · exact h.inside (ht.used dir (stored_of_isDir ha hd))
  · rw [h.nlinks]
    exact hlinks a (h.alloc.mp ha)

end Edits

/-! ### Entries that are cleared and made -/

/-- **The entries that name an inode now.** -/
theorem Edits.mem_names (h : Edits dir i num s s') (ht : Tidy owed out s) (ha : s.Allocated dir)
    (hd : isDir (s.disk.inode dir) = true) {x : ℕ × ℕ} : x ∈ s'.names a ↔
      if a.dev = dir.dev ∧ x = (dir.num, i) then a.num = num ∧ a.num ≠ 0 else x ∈ s.names a := by
  refine (h.entry_iff ht ha hd (a := ⟨a.dev, x.1⟩) (j := x.2) (n := a.num)).trans ?_
  have hcond : ((⟨a.dev, x.1⟩ : Id) = dir ∧ x.2 = i) ↔ a.dev = dir.dev ∧ x = (dir.num, i) := by
    constructor
    · rintro ⟨rfl, rfl⟩
      exact ⟨rfl, rfl⟩
    · rintro ⟨hdev, rfl⟩
      exact ⟨Id.eq_of hdev rfl, rfl⟩
  by_cases hc : a.dev = dir.dev ∧ x = (dir.num, i)
  · rw [if_pos hc, if_pos (hcond.mpr hc)]
  · rw [if_neg hc, if_neg fun h => hc (hcond.mp h)]
    rfl

/-- The second entry stays. -/
theorem Edits.entry_one (h : Edits dir i num s s') (ht : Tidy owed out s) (ha : s.Allocated dir)
    (hd : isDir (s.disk.inode dir) = true) (htwo : 2 ≤ i) {n : ℕ} (he : s.Entry a 1 n) :
    s'.Entry a 1 n := by
  rw [h.entry_iff ht ha hd, if_neg (by omega)]
  exact he

/-- Two inodes of one device that an entry names are one. -/
theorem eq_of_entry (he : s.Entry dir i id.num) (hdev : dir.dev = id.dev)
    (he' : s.Entry dir i a.num) (hdev' : a.dev = dir.dev) : a = id :=
  Id.eq_of (hdev'.trans hdev) (he'.ino.symm.trans he.ino)

/-- **An entry is cleared**: one more link is owed. Nothing may be in what it names. -/
theorem Tidy.clear (h : Tidy owed out s) (he : s.Entry dir i id.num) (hdev : dir.dev = id.dev)
    (htwo : 2 ≤ i) (hno : ∀ j d, ¬s.Sub id j d) (hedits : Edits dir i 0 s s')
    (hout : ∀ d, isDir (s.disk.inode d) = true → d ∉ out' → d ∉ out ∧ d ≠ id) :
    Tidy (Function.update owed id (owed id + 1)) out' s' := by
  have ha := he.alloc
  have hd := he.isDir
  have hmem : (dir.num, i) ∈ s.names id := by
    change s.Entry ⟨id.dev, dir.num⟩ i id.num
    rw [← hdev]
    exact he
  have hnames : ∀ a, s'.names a = if a = id then s.names a \ {(dir.num, i)} else s.names a := by
    intro a
    ext x
    rw [hedits.mem_names h ha hd]
    by_cases hc : a.dev = dir.dev ∧ x = (dir.num, i)
    · obtain ⟨hdev', rfl⟩ := hc
      rw [if_pos ⟨hdev', rfl⟩]
      refine iff_of_false (fun h => h.2 h.1) fun hx => ?_
      split_ifs at hx with haid
      · exact hx.2 rfl
      · refine haid (eq_of_entry he hdev ?_ hdev')
        have hx' : s.Entry ⟨a.dev, dir.num⟩ i a.num := hx
        rw [hdev'] at hx'
        exact hx'
    · rw [if_neg hc]
      split_ifs with haid
      · rw [Set.mem_sdiff, Set.mem_singleton_iff]
        exact (and_iff_left fun hx => hc ⟨haid ▸ hdev.symm, hx⟩).symm
      · rfl
  have hsub : ∀ {up j d}, s'.Sub up j d ↔ s.Sub up j d ∧ ¬(up = dir ∧ j = i) := by
    intro up j d
    rw [hedits.sub_iff h ha hd htwo]
    split_ifs with hc
    · exact iff_of_false (fun h => h.2.1 h.1) fun h => h.2 hc
    · exact (and_iff_left hc).symm
  refine hedits.tidy h ha hd htwo (fun h0 => absurd rfl h0) (fun a halloc => ?_)
    ⟨fun up j d hs => hedits.entry_one h ha hd htwo (h.family.up up j d (hsub.mp hs).1),
      fun d halloc hisDir hin' => ?_,
      fun a b j l d hs hs' => h.family.once a b j l d (hsub.mp hs).1 (hsub.mp hs').1,
      fun up j d hs => h.family.top up j d (hsub.mp hs).1, fun dev sb hsb => ?_⟩
  · have hlinks := h.links a halloc
    rw [hnames]
    by_cases haid : a = id
    · rw [if_pos haid, haid, Function.update_self, ← haid, ← hlinks, haid,
        ← Set.encard_sdiff_singleton_add_one hmem, Nat.cast_add, Nat.cast_one, add_assoc,
        add_comm (1 : ℕ∞)]
    · rw [if_neg haid, Function.update_of_ne haid]
      exact hlinks
  · rw [hedits.alloc] at halloc
    rw [hedits.isDir_eq] at hisDir
    obtain ⟨hin, hne⟩ := hout d hisDir hin'
    refine (h.family.down d halloc hisDir hin).mono (fun d => d ≠ id)
      (fun up j d hs hne => ⟨?_, hsub.mpr ⟨hs, ?_⟩⟩) hne
    · rintro rfl
      exact hno j d hs
    · rintro ⟨rfl, rfl⟩
      exact hne (eq_of_entry he hdev hs.entry hs.dev.symm)
  · have hsuper : s'.getSuper dev = s.getSuper dev := hedits.getSuper dev
    exact hedits.entry_one h ha hd htwo (h.family.root dev sb (hsuper ▸ hsb))

/-- **An entry is made**, for an inode that is no directory: one link less is owed. -/
theorem Tidy.enter (h : Tidy owed out s) (ha : s.Allocated dir)
    (hd : isDir (s.disk.inode dir) = true)
    (hfree : inos (s.file dir) i = 0) (halloc : s.Allocated id) (hdev : dir.dev = id.dev)
    (howed : owed id = n + 1) (hfile : isDir (s.disk.inode id) = false)
    (hedits : Edits dir i id.num s s') : Tidy (Function.update owed id n) out s' := by
  have htwo := h.two_le ha hd hfree
  have hnot : ∀ a n, a = dir → ¬s.Entry a i n := by
    rintro a n rfl he
    exact he.ne ((entry_iff.mp he).2.2.1.symm.trans hfree)
  have hnotmem : (dir.num, i) ∉ s.names id := by
    intro hx
    have hx' : s.Entry ⟨id.dev, dir.num⟩ i id.num := hx
    exact hnot ⟨id.dev, dir.num⟩ _ (Id.eq_of hdev.symm rfl) hx'
  have hnames : ∀ a, s'.names a =
      if a = id then insert (dir.num, i) (s.names a) else s.names a := by
    intro a
    ext x
    rw [hedits.mem_names h ha hd]
    by_cases hc : a.dev = dir.dev ∧ x = (dir.num, i)
    · obtain ⟨hdev', rfl⟩ := hc
      rw [if_pos ⟨hdev', rfl⟩]
      split_ifs with haid
      · exact iff_of_true ⟨haid ▸ rfl, haid ▸ halloc.num_ne⟩ (Set.mem_insert _ _)
      · refine iff_of_false (fun h => haid (Id.eq_of (hdev'.trans hdev) h.1)) fun hx => ?_
        have hx' : s.Entry ⟨a.dev, dir.num⟩ i a.num := hx
        exact hnot ⟨a.dev, dir.num⟩ _ (Id.eq_of hdev' rfl) hx'
    · rw [if_neg hc]
      split_ifs with haid
      · rw [Set.mem_insert_iff, or_iff_right fun hx => hc ⟨haid ▸ hdev.symm, hx⟩]
      · rfl
  have hsub : ∀ {up j d}, s'.Sub up j d ↔ s.Sub up j d := by
    intro up j d
    rw [hedits.sub_iff h ha hd htwo]
    split_ifs with hc
    · obtain ⟨rfl, rfl⟩ := hc
      refine iff_of_false ?_ fun hs => hnot _ _ rfl hs.entry
      rintro ⟨hnum, -, hdev', -, hisDir⟩
      obtain rfl : d = id := Id.eq_of (hdev'.symm.trans hdev) hnum
      exact Bool.noConfusion (hisDir.symm.trans hfile)
    · rfl
  refine hedits.tidy h ha hd htwo (fun _ => hdev.symm ▸ halloc) (fun a halloc => ?_)
    (h.family.congr hsub (hedits.entry_one h ha hd htwo) (fun a hdir => ?_) hedits.getSuper)
  · have hlinks := h.links a halloc
    rw [hnames]
    by_cases haid : a = id
    · rw [if_pos haid, haid, Function.update_self, ← haid, ← hlinks, haid,
        Set.encard_insert_of_notMem hnotmem, howed, Nat.cast_add, Nat.cast_one, add_assoc,
        add_comm (1 : ℕ∞)]
    · rw [if_neg haid, Function.update_of_ne haid]
      exact hlinks
  · rwa [hedits.alloc, hedits.isDir_eq] at hdir

/-- **No entry has changed.** -/
theorem Tidy.same (h : Tidy owed out s) (ha : s.Allocated dir)
    (hd : isDir (s.disk.inode dir) = true) (hfree : inos (s.file dir) i = 0)
    (hedits : Edits dir i 0 s s') : Tidy owed out s' := by
  have hentry : ∀ a j n, s'.Entry a j n ↔ s.Entry a j n := by
    intro a j n
    rw [hedits.entry_iff h ha hd]
    split_ifs with hc
    · obtain ⟨rfl, rfl⟩ := hc
      refine iff_of_false (fun h => h.2 h.1) fun he => ?_
      exact he.ne ((entry_iff.mp he).2.2.1.symm.trans hfree)
    · rfl
  refine hedits.tidy h ha hd (h.two_le ha hd hfree) (fun h0 => absurd rfl h0) (fun a halloc => ?_)
    (h.family.of_entries hentry (fun a => ?_) hedits.getSuper)
  · rw [names_congr hentry]
    exact h.links a halloc
  · rw [hedits.alloc, hedits.isDir_eq]

end Linux011.Fs.Names

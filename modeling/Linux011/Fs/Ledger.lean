import Linux011.Fs.Tidy

/-!
# Which zones are marked

No zone is marked behind a function of `fs/inode.c`, `fs/truncate.c` or `fs/namei.c` that hangs from
nothing. What `create_block` and `add_entry` take hangs from the file
(`Linux011.Fs.Names.Exact`), they leave the maps of other devices alone
(`Linux011.Fs.Names.Elsewhere`), and what `truncate` does to the maps is to clear bits.

With that, a file that grows leaves tidy file systems beside it (`Linux011.Fs.Names.Swells.beside`),
and so does one that is truncated.
-/

namespace Linux011.Fs.Names

open Bmap (State Place Spot Sound Grown Pick)
open Directory (Pointer Dir slot)

variable {s s' u v : Kernel} {id a dir : Id} {k : ℕ × ℕ} {name : List UInt8} {e : Pointer}
  {i j n b o z x dev block : ℕ} {t t' w : State} {p q : Spot} {pick : Pick}

/-! ### What has been taken -/

/-- **What has been taken hangs from the file**, and what hung from it does so still. -/
structure Exact (t t' : State) : Prop where
  kept : ∀ p : Spot, p.Ok → t.at p ≠ 0 → t'.at p = t.at p
  taken : ∀ x ≠ 0, t'.used x = true → t.used x = true ∨ ∃ p : Spot, p.Ok ∧ t'.at p = x

namespace Exact

theorem refl (t : State) : Exact t t := ⟨fun _ _ _ => rfl, fun _ _ h => Or.inl h⟩

theorem trans (h : Exact t t') (h' : Exact t' w) : Exact t w := by
  refine ⟨fun p hp hne => ?_, fun x hx hused => ?_⟩
  · have hkept := h.kept p hp hne
    exact (h'.kept p hp (hkept.symm ▸ hne)).trans hkept
  · rcases h'.taken x hx hused with hused' | hspot
    · rcases h.taken x hx hused' with hused'' | ⟨p, hp, rfl⟩
      · exact Or.inl hused''
      · exact Or.inr ⟨p, hp, h'.kept p hp hx⟩
    · exact Or.inr hspot

/-- A store to an entry. -/
theorem wrote (h : Directory.Wrote t e t') (hs : Sound t) (hp : p.Data) (he : t.at p = e.1)
    (hne : t.at p ≠ 0) : Exact t t' := by
  refine ⟨fun q hq _ => h.at hs hp he hne q hq, fun x _ hused => Or.inl ?_⟩
  rw [h.used] at hused
  exact hused

/-- **A spot that is filled** has what has been taken for it. -/
theorem fill (h : Sound t) (hp : p.Ok) (hreach : t.Reached p) :
    Exact t (t.fill pick true (t.place p)) := by
  rw [State.fill, Bmap.get_place hreach]
  by_cases h0 : t.at p = 0
  · rw [if_pos ⟨rfl, h0⟩]
    rcases Bmap.newBlock_cases t pick with hnew | ⟨z, hz, hlt, hfree, hnew⟩
    · rw [hnew, if_neg fun h => h rfl]
      exact refl t
    · rw [hnew, if_pos hz]
      have hat := Bmap.at_set h hp hreach h0 hz hlt hfree
      refine ⟨fun q hq hne => ?_, fun x _ hused => ?_⟩
      · rw [hat q hq, if_neg]
        rintro rfl
        exact hne h0
      · rw [used_set] at hused
        by_cases hx : x = z
        · refine Or.inr ⟨p, hp, ?_⟩
          rw [hat p hp, if_pos rfl, hx]
        · exact Or.inl ((Function.update_of_ne hx ..).symm.trans hused)
  · rw [if_neg fun h => h0 h.2]
    exact refl t

/-- **A spot that is filled with the tables above it**: the induction is on the spot. -/
theorem fillSpot (h : Sound t) (h0 : t.used 0 = true) (hp : p.Ok) :
    Exact t (Names.fillSpot p t) := by
  induction p with
  | top k => exact fill (p := .top k) h hp trivial
  | under r j ih =>
    have ih := ih hp.1.ok
    obtain ⟨hsound, -⟩ := fillSpot_count h h0 hp.1.ok
    rw [Names.fillSpot]
    split_ifs with hr
    · exact ih
    · exact ih.trans (fill (p := .under r j) hsound hp hr)

/-- **`create_block`** -/
theorem create (h : Sound t) (h0 : t.used 0 = true)
    (hrun : Bmap.bmap firstFree true block t = .ok (z, t')) :
    Exact t t' ∧ Sound t' ∧ t'.used 0 = true := by
  have hlt : block < Bmap.maxBlock := by
    by_contra hge
    rw [Bmap.bmap, if_pos (by omega)] at hrun
    cases hrun
  have hspot := (Spot.data_ofBlock hlt).1
  rw [create_eq h h0 hlt] at hrun
  obtain ⟨-, rfl⟩ := Prod.mk.inj (Except.ok.inj hrun)
  obtain ⟨hsound, hused, -⟩ := fillSpot_count h h0 hspot
  exact ⟨fillSpot h h0 hspot, hsound, hused⟩

/-- **The loop of `add_entry`**: the induction is on the rounds. -/
theorem addLoop {r : Option Pointer} (h : Sound t) (h0 : t.used 0 = true)
    (hin : o < 64 → Within t (b, o))
    (hrun : Directory.addLoop firstFree name n i b o t = .ok (r, t')) : Exact t t' := by
  induction n generalizing t i b o with
  | zero => cases hrun
  | succ n ih =>
    -- a round, when the loop is at an entry
    have hround : ∀ (t : State) b o, Sound t → t.used 0 = true → Within t (b, o) →
        (if Directory.ino (Directory.extend i t (b, o)) (b, o) = 0
          then Except.ok (some (b, o), Directory.setName name (Directory.extend i t (b, o)) (b, o))
          else Directory.addLoop firstFree name n (i + 1) b (o + 1)
            (Directory.extend i t (b, o))) = .ok (r, t') → Exact t t' := by
      intro t b o h h0 hin hrun
      have hin' := hin
      obtain ⟨hne, p, hp, hat⟩ := hin'
      split_ifs at hrun with hfree
      · obtain ⟨-, rfl⟩ := Prod.mk.inj (Except.ok.inj hrun)
        exact wrote ((Directory.wrote_extend i t _).trans (Directory.wrote_setName name _ _)) h hp
          hat (hat.symm ▸ hne)
      · rw [extend_of_ino hfree] at hrun
        exact ih (o := o + 1) h h0 (fun _ => hin) hrun
    rw [Directory.addLoop] at hrun
    by_cases ho : 64 ≤ o
    · rw [if_pos ho] at hrun
      cases hbmap : Bmap.bmap firstFree true (i / 64) t with
      | error e =>
        rw [hbmap] at hrun
        cases hrun
      | ok r =>
        obtain ⟨z, u⟩ := r
        rw [hbmap] at hrun
        dsimp only at hrun
        obtain ⟨hexact, hsound, hused⟩ := create h h0 hbmap
        by_cases hz : z = 0
        · rw [if_pos hz] at hrun
          obtain ⟨-, rfl⟩ := Prod.mk.inj (Except.ok.inj hrun)
          exact hexact
        rw [if_neg hz] at hrun
        have hlt : i / 64 < Bmap.maxBlock := by
          by_contra hge
          rw [Bmap.bmap, if_pos (by omega)] at hbmap
          cases hbmap
        have hat : u.at (.ofBlock (i / 64)) = z := by
          rw [create_eq h h0 hlt] at hbmap
          obtain ⟨hz', rfl⟩ := Prod.mk.inj (Except.ok.inj hbmap)
          exact hz'
        have hdata := Spot.data_ofBlock hlt
        have hread := hsound.readable _ hdata.1 (hat.symm ▸ hz)
        rw [hat] at hread
        rw [if_neg fun h => Bool.noConfusion (hread.symm.trans h)] at hrun
        exact hexact.trans (hround u z 0 hsound hused ⟨hz, _, hdata, hat⟩ hrun)
    · rw [if_neg ho] at hrun
      exact hround t b o h h0 (hin (by omega)) hrun

/-- **`add_entry`** -/
theorem addEntry {r : Option Pointer} (h : Sound t) (h0 : t.used 0 = true)
    (hrun : Directory.addEntry firstFree name t = .ok (r, t')) : Exact t t' := by
  rw [Directory.addEntry] at hrun
  split_ifs at hrun with hlen hzone
  · obtain ⟨-, rfl⟩ := Prod.mk.inj (Except.ok.inj hrun)
    exact refl t
  · obtain ⟨-, rfl⟩ := Prod.mk.inj (Except.ok.inj hrun)
    exact refl t
  · have hdata : (Spot.ofBlock 0).Data := Spot.data_ofBlock (by decide)
    exact addLoop h h0 (fun _ => ⟨fun h => hzone (Or.inl h), .ofBlock 0, hdata, rfl⟩) hrun

end Exact

/-! ### The maps of other devices -/

/-- **The maps of the other devices** are what they were. -/
structure Elsewhere (dev : ℕ) (s u : Kernel) : Prop where
  super : u.super = s.super
  maps : ∀ d ≠ dev, u.maps d = s.maps d

theorem Elsewhere.refl (dev : ℕ) (s : Kernel) : Elsewhere dev s s := ⟨rfl, fun _ _ => rfl⟩

theorem Elsewhere.zones (h : Elsewhere dev s u) {d : ℕ} (hd : d ≠ dev) :
    (d, z) ∈ u.bitmap.zones ↔ (d, z) ∈ s.bitmap.zones := by
  have hsuper : u.bitmap.super d = s.bitmap.super d := by
    change (u.getSuper d).map _ = (s.getSuper d).map _
    rw [Kernel.getSuper, Kernel.getSuper, h.super, h.maps d hd]
  constructor
  · rintro ⟨sb, hsb, hz⟩
    exact ⟨sb, hsuper ▸ hsb, hz⟩
  · rintro ⟨sb, hsb, hz⟩
    exact ⟨sb, hsuper.trans hsb, hz⟩

theorem newBlock_super {t t' : Bitmap.State} {io : Words × Option (ℕ × ℕ)}
    (h : Bitmap.newBlock dev io t = .ok (t', z)) {d : ℕ} (hd : d ≠ dev) :
    t'.super d = t.super d := by
  rw [Bitmap.newBlock] at h
  split at h
  · cases h
  · dsimp only at h
    split at h
    · obtain ⟨rfl, -⟩ := Prod.mk.inj (Except.ok.inj h)
      rfl
    · split_ifs at h
      · obtain ⟨rfl, -⟩ := Prod.mk.inj (Except.ok.inj h)
        rfl
      · obtain ⟨rfl, -⟩ := Prod.mk.inj (Except.ok.inj h)
        exact Function.update_of_ne hd ..
      · obtain ⟨rfl, -⟩ := Prod.mk.inj (Except.ok.inj h)
        exact (congrFun (Bitmap.getblk_super _) d).trans (Function.update_of_ne hd ..)

namespace Elsewhere

theorem newBlock (dev : ℕ) (s : Kernel) : Preserves (Elsewhere dev s) (Names.newBlock dev) := by
  intro u hu
  rw [Names.newBlock, wp_bind, onMaps, wp_bind, wp_get]
  cases hnew : Bitmap.newBlock dev (.zero, none) u.bitmap with
  | error e => exact hu
  | ok r =>
    obtain ⟨t, z⟩ := r
    have hmaps : Elsewhere dev s (u.withBitmap t) := by
      refine ⟨hu.super, fun d hd => ?_⟩
      rw [← hu.maps d hd, Kernel.withBitmap]
      dsimp only
      rw [newBlock_super hnew hd]
      change ((u.getSuper d).map fun _ => u.maps d).getD _ = _
      cases u.getSuper d with
      | none => rfl
      | some sb => rfl
    dsimp only
    rw [wp_bind, wp_set, wp_pure]
    refine Preserves.ite (.pure _) (.bind (.modify fun _ h => ?_) fun _ => .pure _) _ hmaps
    exact ⟨h.super, h.maps⟩

theorem store (id : Id) (f : Kernel → State) (s : Kernel) :
    Preserves (Elsewhere dev s) (modify fun u => u.store id (f u) : K PUnit) :=
  .modify fun _ h => ⟨h.super, h.maps⟩

theorem set {t : Kernel} (h : Elsewhere dev s t) :
    Preserves (Elsewhere dev s) (MonadStateOf.set t : K PUnit) := fun _ _ => h

theorem brelse (k : ℕ × ℕ) (s : Kernel) : Preserves (Elsewhere dev s) (Names.brelse k) :=
  .read fun u hu => by
    refine Preserves.ite (.throw _) (set ?_) u hu
    exact ⟨hu.super, hu.maps⟩

theorem bread (d block : ℕ) (s : Kernel) : Preserves (Elsewhere dev s) (Names.bread d block) :=
  .bind (.modify fun _ h => ⟨h.super, h.maps⟩) fun _ => .read fun u hu =>
    Preserves.ite (.pure _) (.bind (brelse _ s) fun _ => .pure _) u hu

theorem fill (id : Id) (p : Place) (s : Kernel) :
    Preserves (Elsewhere id.dev s) (Names.fill true id p) :=
  .read fun u hu => Preserves.ite (.bind (newBlock id.dev s) fun _ =>
    .ite (.pure _) (store id _ s)) (.pure _) u hu

theorem inTable (id : Id) (block i : ℕ) (s : Kernel) :
    Preserves (Elsewhere id.dev s) (Names.inTable true id block i) := by
  refine .ite (.pure _) (.bind (bread _ _ s) fun r => .ite (.bind (fill id _ s) fun _ => ?_)
    (.pure _))
  exact .read fun u hu => Preserves.bind (brelse _ s) (fun _ => .pure _) u hu

theorem bmap (id : Id) (block : ℕ) (s : Kernel) :
    Preserves (Elsewhere id.dev s) (Names.bmap true id block) := by
  refine .ite (.throw _) (.ite (.bind (fill id _ s) fun _ => .read fun u hu => hu)
    (.ite (.bind (fill id _ s) fun _ => .read fun u hu => inTable id _ _ s u hu)
      (.bind (fill id _ s) fun _ => .read fun u hu => ?_)))
  exact Preserves.bind (inTable id _ _ s) (fun _ => inTable id _ _ s) u hu

theorem brelseIf (held : Bool) (k : ℕ × ℕ) (s : Kernel) :
    Preserves (Elsewhere dev s) (Names.brelseIf held k) := .ite (brelse k s) (.pure _)

theorem tryEntry (dir : Id) (name : List UInt8) (i : ℕ) (e : Pointer)
    {next : K (Option Pointer)} (h : Preserves (Elsewhere dev s) next) :
    Preserves (Elsewhere dev s) (Names.tryEntry dir name i e next) :=
  .bind (store dir _ s) fun _ => .read fun u hu => by
    refine Preserves.ite (.bind (set ?_) fun _ => .pure _) h u hu
    exact ⟨hu.super, hu.maps⟩

/-- The induction is on the rounds. -/
theorem addLoop (dir : Id) (name : List UInt8) (n : ℕ) (s : Kernel) : ∀ i b held o,
    Preserves (Elsewhere dir.dev s) (Names.addLoop dir name n i b held o) := by
  induction n with
  | zero => exact fun _ _ _ _ => .throw _
  | succ n ih =>
    intro i b held o
    refine .ite (.bind (brelseIf held _ s) fun _ => .bind (bmap dir _ s) fun z =>
      .ite (.pure _) (.bind (bread _ _ s) fun r => .ite ?_ (ih _ _ _ _))) ?_
    · exact tryEntry dir name i _ (ih _ _ _ _)
    · exact tryEntry dir name i _ (ih _ _ _ _)

/-- **`add_entry`** leaves the maps of the other devices alone. -/
theorem addEntry (dir : Id) (name : List UInt8) (s : Kernel) :
    Preserves (Elsewhere dir.dev s) (Names.addEntry dir name) :=
  .read fun u hu => Preserves.ite (.pure _) (.ite (.pure _) (.bind (bread _ _ s) fun _ =>
    .ite (addLoop dir name _ s _ _ _ _) (.pure _))) u hu

end Elsewhere

/-! ### Steps beside the other inodes -/

theorem Beside.hangs (h : Beside id s u) (hne : a ≠ id) (ha : u.Hangs a k) : s.Hangs a k := by
  obtain ⟨hs, p, hp, h0, rfl⟩ := ha.spot
  have hs' := h.stored hne hs
  have hat := (h.same a hne hs'.alloc).spot hs' p hp
  rw [hat] at h0 ⊢
  exact hangs_at hs' hp h0

theorem Beside.hangs_of (h : Beside id s u) (hne : a ≠ id) (ha : s.Hangs a k) : u.Hangs a k := by
  have halloc := ha.spot.1.alloc
  exact (h.same a hne halloc).hangs ((h.alloc a hne).mpr halloc) ha

/-- **One step and another** beside the same inodes. -/
theorem Beside.trans (h : Beside id s u) (h' : Beside id u v) : Beside id s v := by
  refine ⟨h.toSteady.trans h'.toSteady, fun a hne => (h'.alloc a hne).trans (h.alloc a hne),
    fun a hne ha => ?_, fun a hne k hk => h'.kept a hne k (h.hangs_of hne hk), fun k hk => ?_,
    fun k hk a hne ha => h'.apart k hk a hne (h.hangs_of hne ha),
    fun a hne => (h'.iCount a hne).trans (h.iCount a hne), h'.idle⟩
  · have hu := (h.alloc a hne).mpr ha
    exact (h.same a hne ha).trans (h'.same a hne hu) hu
  · exact (h'.fresh k hk).imp_left fun ⟨a, hne, ha⟩ => ⟨a, hne, h.hangs hne ha⟩

/-- **A step that changes nothing but an inode**, and not what hangs from it. -/
theorem Stowed.beside_of_inode (h : Stowed s) (hsteady : Steady s u)
    (hzones : u.bitmap.zones = s.bitmap.zones) (halloc : ∀ a ≠ id, u.Allocated a ↔ s.Allocated a)
    (hinode : ∀ a ≠ id, s.Allocated a → u.inode a = s.inode a) (hdata : u.data = s.data)
    (hread : u.readable = s.readable) (hbCount : u.bCount = s.bCount)
    (hiCount : ∀ a ≠ id, u.iCount a = s.iCount a) (hhangs : ∀ k, u.Hangs id k ↔ s.Hangs id k) :
    Beside id s u := by
  refine ⟨hsteady, halloc, fun a hne ha => ⟨hinode a hne ha, fun _ _ _ _ => ?_, fun _ _ _ _ => ?_⟩,
    fun a _ k hk => ?_, fun k hk => ?_, fun k hk a hne ha => ?_, hiCount, fun k hk => ?_⟩
  · rw [hdata]
  · rw [hread]
  · rw [hzones]
    exact h.zones_iff.mpr ⟨a, hk⟩
  · rw [hzones] at hk
    obtain ⟨a, ha⟩ := h.marked k hk
    by_cases hne : a = id
    · exact Or.inr ((hhangs k).mpr (hne ▸ ha))
    · exact Or.inl ⟨a, hne, ha⟩
  · exact hne (h.hangs_unique ha ((hhangs k).mp hk))
  · rw [hzones] at hk
    rw [hbCount]
    exact h.idle k hk

/-- An inode that is not in use, or has no zones, has nothing hanging from it. -/
theorem not_hangs (h : s.Stored id → ∀ k < 9, (s.inode id).zone k = 0) : ¬s.Hangs id k := by
  intro hk
  obtain ⟨hs, p, hp, hne, -⟩ := hk.spot
  exact hne (at_eq_zero (h hs) hp)

theorem Stowed.setInode (h : Stowed s) {f : Inode → Inode}
    (hhangs : ∀ k, (s.setInode id f).Hangs id k ↔ s.Hangs id k) :
    Beside id s (s.setInode id f) :=
  h.beside_of_inode ⟨rfl, rfl, rfl, fun _ => rfl, h.maps⟩ rfl (fun _ _ => Iff.rfl)
    (fun _ hne _ => setInode_of_ne hne s f) rfl rfl rfl (fun _ _ => rfl) hhangs

theorem Id.eq_of {a b : Id} (hdev : a.dev = b.dev) (hnum : a.num = b.num) : a = b := by
  cases a
  cases b
  exact congr (congrArg Id.mk hdev) hnum

/-- **A new inode**, from which nothing hangs. -/
theorem Fresh.beside {r : Option Id} (h : Fresh s dev r u) (hr : r = Option.some id)
    (hw : Stowed s) : Beside id s u := by
  obtain ⟨-, hfree, hinodes, hinode⟩ := h.some id hr
  refine hw.beside_of_inode h.toSteady h.zones (fun a hne => ?_) (fun a hne _ => ?_) h.data
    h.readable h.bCount (fun a _ => congrFun h.iCount a) fun k => iff_of_false ?_ ?_
  · rw [Kernel.Allocated, hinodes, Set.mem_insert_iff, or_iff_right]
    · rfl
    · exact fun heq => hne (Id.eq_of (Prod.mk.inj heq).1 (Prod.mk.inj heq).2)
  · rw [hinode, Function.update_of_ne hne]
  · refine not_hangs fun _ k _ => ?_
    rw [hinode, Function.update_self]
    rfl
  · exact fun hk => hfree hk.spot.1.alloc

/-- **An inode that is given back** when nothing hangs from it any more. -/
theorem FreeInode.beside (h : FreeInode s id u) (hw : Stowed s)
    (hno : ∀ k, ¬s.Hangs id k) : Beside id s u := by
  refine hw.beside_of_inode h.toSteady h.zones (fun a hne => ?_) (fun a hne _ => ?_) h.data
    h.readable h.bCount (fun a hne => ?_) fun k => iff_of_false ?_ (hno k)
  · rw [Kernel.Allocated, h.inodes, Set.mem_sdiff, Set.mem_singleton_iff, and_iff_left]
    · rfl
    · exact fun heq => hne (Id.eq_of (Prod.mk.inj heq).1 (Prod.mk.inj heq).2)
  · rw [h.inode, Function.update_of_ne hne]
  · rw [h.iCount, Function.update_of_ne hne]
  · refine not_hangs fun _ k _ => ?_
    rw [h.inode, Function.update_self]
    rfl

/-! ### Files that grow -/

/-- **A file has grown**, and what has been taken hangs from it. -/
structure Swells (id : Id) (s s' : Kernel) (t : State) : Prop extends Grows id s s' t where
  exact : Exact (s.file id) t
  away : Elsewhere id.dev s s'

theorem Swells.refl (h : Bitmap.Consistent s.bitmap) (id : Id) : Swells id s s (s.file id) :=
  ⟨Grows.refl h id, Exact.refl _, Elsewhere.refl _ _⟩

theorem Swells.trans (h : Swells id s u t) (h' : Swells id u v w) : Swells id s v w := by
  have hexact := h'.exact
  rw [h.file] at hexact
  exact ⟨h.toGrows.trans h'.toGrows, h.exact.trans hexact, h'.away.super.trans h.away.super,
    fun d hd => (h'.away.maps d hd).trans (h.away.maps d hd)⟩

/-- A store to an entry. -/
theorem rename_swells (hc : Bitmap.Consistent s.bitmap) (hsound : Sound (s.file dir))
    (he : Within (s.file dir) e) (num : ℕ) :
    Swells dir s (s.rename dir e num) (Directory.setIno (s.file dir) e num) := by
  have hin := he
  obtain ⟨hne, p, hp, hat⟩ := hin
  exact ⟨rename_grows hc hsound he num,
    Exact.wrote (Directory.wrote_setIno _ e num) hsound hp hat (hat.symm ▸ hne), rfl,
    fun _ _ => rfl⟩

/-- **`create_block`** -/
theorem bmap_swells (hc : Bitmap.Consistent s.bitmap) (hshort : Short s) {sb : Super}
    (hs : s.getSuper id.dev = some sb) (hsound : Sound (s.file id))
    (h : Bmap.bmap firstFree true block (s.file id) = .ok (z, t)) :
    ∃ s', bmap true id block s = .ok z s' ∧ Swells id s s' t := by
  obtain ⟨s', hrun, hgrows⟩ := bmap_spec hc hshort hs hsound h
  have haway := Elsewhere.bmap id block s s (Elsewhere.refl _ s)
  replace haway := wp_ok haway hrun
  exact ⟨s', hrun, hgrows, (Exact.create hsound (used_zero hc id.dev) h).1, haway⟩

/-- **`add_entry`**, while two inodes are held. -/
theorem addEntry_swells {c : Id} (hc : Bitmap.Consistent s.bitmap) (hshort : Short s)
    {sb : Super} (hs : s.getSuper dir.dev = some sb) (hdir : Dir (s.file dir))
    (h0 : (s.file dir).zone 0 ≠ 0) (hname : name ≠ []) : ∃ r y,
      addEntry dir name ((s.hold a).hold c) = .ok r (((y.hold a).hold c).found dir r) ∧
      Swells dir s y (y.file dir) ∧
      Directory.addEntry firstFree name (s.file dir) = .ok (r, y.file dir) := by
  obtain ⟨r, t, hadd, -⟩ := @Directory.addEntry_total _ firstFree _ hdir hname h0
  obtain ⟨s', hrun, hgrows⟩ :=
    addEntry_eq (s := (s.hold a).hold c) hc hshort hs hdir.toSound hadd
  obtain ⟨v, rfl, hgrows'⟩ := hgrows.unhold
  obtain ⟨y, rfl, hgrows''⟩ := hgrows'.unhold
  obtain rfl := hgrows''.file
  have haway := Elsewhere.addEntry dir name ((s.hold a).hold c) _ (Elsewhere.refl _ _)
  replace haway := wp_ok haway hrun
  refine ⟨r, y, hrun, ⟨hgrows'', Exact.addEntry hdir.toSound (used_zero hc dir.dev) hadd, ?_⟩, hadd⟩
  cases r with
  | none => exact ⟨haway.super, haway.maps⟩
  | some e => exact ⟨haway.super, haway.maps⟩

/-- **A file that grows** does so beside the others. -/
theorem Swells.beside (h : Swells id s u t) (hw : Stowed s) (hs : s.Stored id) :
    Beside id s u := by
  have hinode : ∀ a ≠ id, u.inode a = s.inode a := fun a hne => h.inode_of_ne hne
  have halloc : ∀ a, u.Allocated a ↔ s.Allocated a := by
    intro a
    rw [Kernel.Allocated, h.inodes]
    rfl
  -- a zone of another file is none of this one
  have hother : ∀ a ≠ id, s.Stored a → a.dev = id.dev → ∀ p : Spot, p.Ok → (s.file a).at p ≠ 0 →
      (s.file id).used ((s.file a).at p) = true ∧
      ∀ q : Spot, q.Ok → (s.file id).at q ≠ (s.file a).at p := by
    intro a hne ha hdev p hp h0
    refine ⟨?_, fun q hq heq => hne (hw.apart a id ha hs hdev p q hp hq h0 heq.symm).1⟩
    rw [← Bool.not_eq_false]
    intro hfree
    have hzone := hw.used a ha p hp h0
    rw [hdev] at hzone
    exact (used_eq_false.mp hfree).2 hzone
  have hfile : ∀ a : Id, a.dev = id.dev →
      u.data a.dev = t.data ∧ u.readable a.dev = t.readable := by
    intro a hdev
    rw [← h.file, hdev]
    exact ⟨rfl, rfl⟩
  have hzero : ∀ d z, (d, z) ∈ u.bitmap.zones → z ≠ 0 := by
    rintro d z ⟨sb, hsb, ⟨hlow, -⟩, -⟩ rfl
    have hfirst := (h.maps.ok d sb hsb).first
    dsimp only at hlow
    omega
  refine ⟨h.toSteady, fun a _ => halloc a, fun a hne ha => ⟨hinode a hne, fun hsa p hp h0 => ?_,
    fun hsa p hp h0 => ?_⟩, fun a _ k hk => h.zones (hw.zones_iff.mpr ⟨a, hk⟩), fun k hk => ?_,
    fun k hk a hne ha => ?_, fun a _ => congrFun h.iCount a, fun k hk => ?_⟩
  · by_cases hdev : a.dev = id.dev
    · obtain ⟨hused, hno⟩ := hother a hne hsa hdev p hp h0
      rw [(hfile a hdev).1, hdev]
      exact h.outside.data _ hused fun q hq => hno q hq
    · exact congrFun (h.elsewhere a.dev hdev).1 _
  · by_cases hdev : a.dev = id.dev
    · obtain ⟨hused, -⟩ := hother a hne hsa hdev p hp h0
      rw [(hfile a hdev).2, hdev]
      exact h.outside.readable _ hused
    · exact congrFun (h.elsewhere a.dev hdev).2 _
  · obtain ⟨d, z⟩ := k
    have hold : (d, z) ∈ s.bitmap.zones → (∃ a ≠ id, s.Hangs a (d, z)) ∨ u.Hangs id (d, z) := by
      intro hin
      obtain ⟨a, ha⟩ := hw.marked _ hin
      by_cases hne : a = id
      · subst hne
        obtain ⟨-, p, hp, h0, heq⟩ := ha.spot
        obtain ⟨rfl, rfl⟩ := Prod.mk.inj heq
        have hkept := h.exact.kept p hp h0
        rw [← h.file] at hkept
        refine Or.inr ⟨rfl, ⟨(halloc a).mpr hs.alloc, ?_⟩, h0, p, hp, hkept⟩
        rw [isStored_congr]
        · exact hs.stored
        · rw [h.inode, Function.update_self]
      · exact Or.inl ⟨a, hne, ha⟩
    by_cases hd : d = id.dev
    · subst hd
      have hused : (u.file id).used z = true := by
        rw [← Bool.not_eq_false]
        exact fun hfree => (used_eq_false.mp hfree).2 hk
      rw [h.file] at hused
      rcases h.exact.taken z (hzero _ z hk) hused with hused' | ⟨p, hp, hat⟩
      · refine hold (not_free_of_used hused' ?_)
        rw [← h.shape.allZones]
        obtain ⟨sb, hsb, hz, -⟩ := hk
        exact ⟨sb, hsb, hz⟩
      · rw [← h.file] at hat
        refine Or.inr ⟨rfl, ⟨(halloc id).mpr hs.alloc, ?_⟩, hzero _ z hk, p, hp, hat⟩
        rw [isStored_congr]
        · exact hs.stored
        · rw [h.inode, Function.update_self]
    · exact hold ((h.away.zones hd).mp hk)
  · obtain ⟨hsid, q, hq, hq0, rfl⟩ := hk.spot
    obtain ⟨hsa, p, hp, h0, heq⟩ := ha.spot
    obtain ⟨hdev, hat⟩ := Prod.mk.inj heq
    obtain ⟨hused, hno⟩ := hother a hne hsa hdev.symm p hp h0
    have hapart := h.outside.apart _ hused (fun q hq => hno q hq) q hq
    rw [← h.file] at hapart
    exact hapart hat
  · rw [h.bCount]
    by_cases hin : k ∈ s.bitmap.zones
    · exact hw.idle k hin
    · refine hw.maps.unused k ⟨.zero, true, false, s.bCount k⟩ ?_ hin rfl
      rw [← h.shape.allZones]
      obtain ⟨sb, hsb, hz, -⟩ := hk
      exact ⟨sb, hsb, hz⟩

/-! ### Files that are cut -/

/-- **`free_block` marks nothing.** -/
theorem freeBlock_zones {t t' : Bitmap.State} (h : Bitmap.freeBlock dev z t = .ok t') :
    t'.zones ⊆ t.zones := by
  have hclear : ∀ {sb : Bitmap.SuperBlock} {m : ℕ} {w : Bitmap.State}, w.super dev = some sb →
      Bitmap.freeBlock.clear dev sb m w = .ok t' → t'.zones ⊆ w.zones := by
    intro sb m w hsb hrun
    rw [Bitmap.freeBlock.clear] at hrun
    split at hrun
    · cases hrun
    · next block hblock =>
      split_ifs at hrun
      obtain rfl := Except.ok.inj hrun
      rintro ⟨d, z⟩ hz
      rw [Bitmap.State.zones, Bitmap.mem_such_setSuper] at hz
      split_ifs at hz with hd
      · obtain ⟨hhas, hbit⟩ := hz
        rw [Bitmap.SuperBlock.zoneBit,
          Bitmap.mapBit_clearBit hblock (Nat.mod_lt m (by decide))] at hbit
        split_ifs at hbit
        exact ⟨sb, hd ▸ hsb, hhas, hbit⟩
      · exact hz
  rw [Bitmap.freeBlock] at h
  split at h
  · cases h
  · next sb hsb =>
    split_ifs at h
    cases hbuffer : t.buffer (dev, z) with
    | none =>
      rw [hbuffer] at h
      exact hclear hsb h
    | some b =>
      rw [hbuffer] at h
      dsimp only at h
      split_ifs at h
      · obtain rfl := Except.ok.inj h
        exact subset_rfl
      · exact hclear (w := t.setBuffer (dev, z) _) hsb h

/-- **No zone has been marked**, and no inode is of another kind. -/
structure Shrinks (s u : Kernel) : Prop where
  zones : u.bitmap.zones ⊆ s.bitmap.zones
  mode : ∀ a, (u.inode a).mode = (s.inode a).mode
  mount : ∀ a, (u.inode a).mount = (s.inode a).mount

namespace Shrinks

theorem freeBlock (dev z : ℕ) (s : Kernel) : Preserves (Shrinks s) (Names.freeBlock dev z) := by
  intro u hu
  rw [Names.freeBlock, onMaps, wp_bind, wp_get]
  cases hfree : Bitmap.freeBlock dev z u.bitmap with
  | error e => exact hu
  | ok t =>
    have hsuper := withBitmap_super (Bitmap.freeBlock_same hfree).1
    refine ⟨?_, hu.mode, hu.mount⟩
    rw [Bitmap.State.zones, such_congr hsuper]
    exact (freeBlock_zones hfree).trans hu.zones

theorem setInode (id : Id) (f : Inode → Inode) (s : Kernel) (hmode : ∀ n, (f n).mode = n.mode)
    (hmount : ∀ n, (f n).mount = n.mount) :
    Preserves (Shrinks s) (modify fun u => u.setInode id f : K PUnit) := by
  refine .modify fun u hu => ⟨hu.zones, fun a => ?_, fun a => ?_⟩
  · rw [← hu.mode a]
    by_cases h : a = id
    · rw [h, setInode_self, hmode]
    · rw [setInode_of_ne h]
  · rw [← hu.mount a]
    by_cases h : a = id
    · rw [h, setInode_self, hmount]
    · rw [setInode_of_ne h]

theorem brelse (k : ℕ × ℕ) (s : Kernel) : Preserves (Shrinks s) (Names.brelse k) :=
  .read fun u hu => by
    refine Preserves.ite (.throw _) (fun _ _ => ?_) u hu
    exact ⟨hu.zones, hu.mode, hu.mount⟩

theorem bread (d block : ℕ) (s : Kernel) : Preserves (Shrinks s) (Names.bread d block) :=
  .bind (.modify fun _ h => ⟨h.zones, h.mode, h.mount⟩) fun _ => .read fun u hu =>
    Preserves.ite (.pure _) (.bind (brelse _ s) fun _ => .pure _) u hu

theorem freeTable (id : Id) {f : ℕ → K PUnit} (s : Kernel) (hf : ∀ z, Preserves (Shrinks s) (f z))
    (block : ℕ) : Preserves (Shrinks s) (Names.freeTable id f block) := by
  have heach : Preserves (Shrinks s) (eachWord id block f) :=
    .forFrom (fun i => .read fun u hu => Preserves.ite (.pure _) (hf _) u hu) _ _
  exact .ite (.pure _) (.bind (bread _ _ s) fun r =>
    .ite (.bind heach fun _ => .bind (brelse _ s) fun _ => freeBlock _ _ s) (freeBlock _ _ s))

/-- **`truncate`** marks no zone. -/
theorem truncate (id : Id) (s : Kernel) : Preserves (Shrinks s) (Names.truncate id) := by
  have hzone : ∀ i, Preserves (Shrinks s) (freeZone id i) := by
    refine fun i => .read fun u hu => Preserves.ite (.pure _) (.bind (freeBlock _ _ s) fun _ =>
      setInode id _ s ?_ ?_) u hu
    · exact fun _ => rfl
    · exact fun _ => rfl
  have hind : ∀ z, Preserves (Shrinks s) (freeInd id z) :=
    freeTable id s fun z => freeBlock _ z s
  refine .read fun u hu => Preserves.ite (.pure _) (.bind (.forFrom hzone _ _) fun _ =>
    .read fun v hv => ?_) u hu
  refine Preserves.bind (hind _) (fun _ => .bind (freeTable id s hind _) fun _ =>
    setInode id _ s ?_ ?_) v hv
  · exact fun _ => rfl
  · exact fun _ => rfl

end Shrinks

/-- **A file has been cut**: nothing hangs from its inode any more. -/
structure Cut (id : Id) (s u : Kernel) : Prop extends Beside id s u where
  inodes : u.bitmap.inodes = s.bitmap.inodes
  counts : u.iCount = s.iCount
  bCount : u.bCount = s.bCount
  nlinks : (u.inode id).nlinks = (s.inode id).nlinks
  mode : (u.inode id).mode = (s.inode id).mode
  mount : (u.inode id).mount = (s.inode id).mount
  empty : u.Stored id → ∀ k < 9, (u.inode id).zone k = 0

theorem Stowed.beside_refl (h : Stowed s) (id : Id) : Beside id s s :=
  h.beside_of_inode (Steady.refl h.maps) rfl (fun _ _ => Iff.rfl) (fun _ _ _ => rfl) rfl rfl rfl
    (fun _ _ => rfl) fun _ => Iff.rfl

/-- **What hangs from a file is what `truncate` frees**, if all of it can be read. -/
theorem Stowed.mem_blocks (h : Stowed s) (hs : s.Stored id) : s.Hangs id k ↔ k ∈ s.blocks id := by
  have htables : TablesLegible (s.file id) := fun r i hp hne =>
    h.legible id hs r hp.1.ok (at_of_under hne)
  rw [Kernel.blocks, if_pos hs.stored, keys, List.mem_map]
  constructor
  · intro hk
    obtain ⟨-, p, hp, hne, rfl⟩ := hk.spot
    exact ⟨_, mem_frees_iff.mpr ⟨hne, p, hp, rfl, htables.legible hp hne⟩, rfl⟩
  · rintro ⟨z, hz, rfl⟩
    obtain ⟨hne, p, hp, rfl⟩ := mem_frees hz
    exact hangs_at hs hp hne

/-- **`truncate`** frees all that hangs from a file, and nothing else. -/
theorem Stowed.truncate (h : Stowed s) (ha : s.Allocated id) :
    ∃ u, truncate id s = .ok ⟨⟩ u ∧ Cut id s u := by
  by_cases hstored : isStored (s.disk.inode id) = false
  · refine ⟨s, ?_, ⟨h.beside_refl id, rfl, rfl, rfl, rfl, rfl, rfl, fun hs => ?_⟩⟩
    · rw [Names.truncate, get_bind]
      exact congrFun (if_pos hstored) _
    · exact Bool.noConfusion (hstored.symm.trans hs.stored)
  have hs : s.Stored id := ⟨ha, Bool.not_eq_false _ ▸ hstored⟩
  have hnodup : (s.blocks id).Nodup := blocks_nodup fun _ p q hp hq hne heq =>
    (h.apart id id hs hs rfl p q hp hq hne heq).2
  have hmem : ∀ k ∈ s.blocks id, k ∈ s.bitmap.zones := blocks_mem fun _ => h.used id hs
  obtain ⟨u, hrun, hfreed, hother, hlinks, hempty⟩ := truncate_spec h.maps hnodup hmem
  have hshrinks := Shrinks.truncate id s s ⟨subset_rfl, fun _ => rfl, fun _ => rfl⟩
  replace hshrinks := wp_ok hshrinks hrun
  have hbCount : u.bCount = s.bCount := by
    rw [hfreed.balanced_iff]
    exact fun k hk => h.idle k (hmem k hk)
  have hzero : ∀ k, ¬u.Hangs id k := fun k => not_hangs fun _ => hempty hs.stored
  refine ⟨u, hrun, ⟨⟨hfreed.toSteady, fun a _ => ?_, fun a hne _ => ⟨hother a hne, ?_, ?_⟩,
    fun a hne k hk => ?_, fun k hk => ?_, fun k hk => absurd hk (hzero k),
    fun a _ => congrFun hfreed.iCount a, fun k hk => ?_⟩, hfreed.inodes, hfreed.iCount, hbCount,
    hlinks, hshrinks.mode id, hshrinks.mount id, fun _ => hempty hs.stored⟩⟩
  · rw [Kernel.Allocated, hfreed.inodes]
    rfl
  · intro _ _ _ _
    rw [hfreed.data]
  · intro _ _ _ _
    rw [hfreed.readable]
  · refine hfreed.zones k (h.zones_iff.mpr ⟨a, hk⟩) fun hin => ?_
    exact hne (h.hangs_unique hk ((h.mem_blocks hs).mpr hin))
  · have hin := hshrinks.zones hk
    obtain ⟨a, hown⟩ := h.marked k hin
    refine Or.inl ⟨a, ?_, hown⟩
    rintro rfl
    exact (hfreed.gone k ((h.mem_blocks hs).mp hown)).mp hk (h.idle k hin)
  · rw [hbCount]
    exact h.idle k (hshrinks.zones hk)

/-- The zones of a file that has been cut are in order. -/
theorem Cut.stowed (h : Cut id s u) (hw : Stowed s) : Stowed u := by
  refine hw.beside h.toBeside fun hs => ?_
  have hat : ∀ p : Spot, p.Ok → (u.file id).at p = 0 := fun p hp => at_eq_zero (h.empty hs) hp
  exact ⟨fun p q hp _ hne => absurd (hat p hp) hne, fun p hp hne => absurd (hat p hp) hne,
    fun p hp hne => absurd (hat p hp) hne⟩

/-- **An inode is gone**, and nothing else has changed. -/
structure Gone (id : Id) (s u : Kernel) : Prop extends Beside id s u where
  free : ¬u.Allocated id
  zero : u.inode id = .zero
  count : u.iCount id = 0
  bCount : u.bCount = s.bCount

/-- **The last `iput`** of an inode that has no links. -/
theorem Stowed.iput (h : Stowed s) (ha : s.Allocated id) (hcount : s.iCount id = 1)
    (hlinks : (s.inode id).nlinks = 0) : ∃ u, iput id s = .ok ⟨⟩ u ∧ Gone id s u := by
  obtain ⟨t, hrun, ht⟩ := h.truncate ha
  have ha' : t.Allocated id := by
    rw [Kernel.Allocated, ht.inodes]
    exact ha
  obtain ⟨u, hrun', hfree⟩ := freeInode_spec ht.maps ha' (by rw [ht.counts, hcount])
    (ht.nlinks.trans hlinks)
  have hbeside := hfree.beside (ht.stowed h) fun k => not_hangs ht.empty
  refine ⟨u, ?_, ht.toBeside.trans hbeside, ?_, ?_, ?_, hfree.bCount.trans ht.bCount⟩
  · rw [Names.iput, get_bind, if_neg (by omega),
      if_neg (by rintro (h | h); exacts [by omega, h hlinks])]
    exact (bind_ok hrun).trans hrun'
  · rw [Kernel.Allocated, hfree.inodes]
    exact fun h => h.2 rfl
  · rw [hfree.inode, Function.update_self]
  · rw [hfree.iCount, Function.update_self]

end Linux011.Fs.Names

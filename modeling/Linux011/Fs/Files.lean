import Linux011.Fs.Clean

/-!
# `file_read` and `file_write`

A file is an array of bytes (`Linux011.Fs.Names.content`): a block that it does not have is full of
zeros. `file_read` returns what is in the array, and `file_write` stores to it, up to where the
device is full; the other files, and the books of the file systems, are as they were
(`Linux011.Fs.Names.sysRead_spec`, `Linux011.Fs.Names.fileWrite_spec`).
-/

namespace Linux011.Fs.Names

open Bmap (State Place Spot Sound Grown Outside)

variable {s s' u v : Kernel} {id a : Id} {k p : ℕ} {i j n b o z x y pos block : ℕ}
  {t t' w : State} {r q : Spot} {bytes buf : List UInt8} {owed : Id → ℕ} {out : Set Id}

/-! ### The calls -/

/-- Bytes are stored in a block. -/
def setBytes (t : State) (z o : ℕ) (bytes : List UInt8) : State :=
  { t with
    data := Function.update t.data z fun y =>
      if o ≤ y ∧ y < o + bytes.length then bytes.getD (y - o) 0 else t.data z y }

/-- **The loop of `file_write`**, with `n` rounds to go: what is left is to be written at `pos`. It
returns where it has come to. -/
def writeLoop (id : Id) : ℕ → ℕ → List UInt8 → K ℕ
  | 0, pos, _ => pure pos
  | n + 1, pos, buf => do
    if buf = [] then pure pos
    else do
      let block ← bmap true id (pos / 1024)
      if block = 0 then pure pos
      else if ← bread id.dev block then do
        let c := min (1024 - pos % 1024) buf.length
        modify fun s => s.setInode id fun n =>
          if n.size < pos + c then { n with size := pos + c } else n
        modify fun s => s.store id (setBytes (s.file id) block (pos % 1024) (buf.take c))
        brelse (id.dev, block)
        writeLoop id n (pos + c) (buf.drop c)
      else pure pos

/-- **`file_write`**: what it returns, and the new `f_pos`. -/
def fileWrite (id : Id) (append : Bool) (fpos : ℕ) (buf : List UInt8) : K (ℤ × ℕ) := do
  let s ← get
  let pos := if append then (s.inode id).size else fpos
  let last ← writeLoop id buf.length pos buf
  pure (if last - pos = 0 then -1 else (last - pos : ℕ), if append then fpos else last)

/-- **The loop of `file_read`**, with `n` rounds to go: the bytes, and the new `f_pos`. -/
def readLoop (id : Id) : ℕ → ℕ → ℕ → K (List UInt8 × ℕ)
  | 0, pos, _ => pure ([], pos)
  | n + 1, pos, left => do
    if left = 0 then pure ([], pos)
    else do
      let nr ← bmap false id (pos / 1024)
      let s ← get
      let chars := min (1024 - pos % 1024) left
      if nr = 0 then do
        let r ← readLoop id n (pos + chars) (left - chars)
        pure (List.replicate chars 0 ++ r.1, r.2)
      else if ← bread id.dev nr then do
        brelse (id.dev, nr)
        let r ← readLoop id n (pos + chars) (left - chars)
        pure ((List.range chars).map (fun i => s.data id.dev nr (pos % 1024 + i)) ++ r.1, r.2)
      else pure ([], pos)

/-- **`file_read`**: what it returns, the bytes, and the new `f_pos`. -/
def fileRead (id : Id) (fpos : ℕ) (count : ℤ) : K (ℤ × List UInt8 × ℕ) := do
  if count ≤ 0 then pure (0, [], fpos)
  else do
    let r ← readLoop id count.toNat fpos count.toNat
    pure (if r.1.length = 0 then -99 else r.1.length, r)

/-- **`sys_read`** of a file or of a directory. -/
def sysRead (id : Id) (fpos : ℕ) (count : ℤ) : K (ℤ × List UInt8 × ℕ) := do
  let s ← get
  let size : ℤ := (s.inode id).size
  let count := if size < count + fpos then size - fpos else count
  if count ≤ 0 then pure (0, [], fpos)
  else fileRead id fpos count

/-! ### Files as arrays -/

/-- **The byte at a position** of a file. -/
def content (t : State) (p : ℕ) : UInt8 :=
  if t.at (.ofBlock (p / 1024)) = 0 then 0 else t.data (t.at (.ofBlock (p / 1024))) (p % 1024)

/-- **Zones that have been taken** are full of zeros. -/
def Blank (t t' : State) : Prop :=
  ∀ p : Spot, p.Data → t.at p = 0 → t'.at p ≠ 0 → ∀ y, t'.data (t'.at p) y = 0

theorem Blank.refl (t : State) : Blank t t := fun _ _ h0 hne => absurd h0 hne

theorem Blank.trans (h : Blank t t') (h' : Blank t' w) (hg : Grown t' w) : Blank t w := by
  intro p hp h0 hne y
  by_cases hmid : t'.at p = 0
  · exact h' p hp hmid hne y
  · rw [hg.kept p hp.1 hmid, hg.data p hp hmid]
    exact h p hp h0 hmid y

/-- **A spot is filled** with zeros. -/
theorem Blank.fill (h : Sound t) (hp : q.Ok) (hreach : t.Reached q) :
    Blank t (t.fill firstFree true (t.place q)) := by
  rw [State.fill, Bmap.get_place hreach]
  by_cases h0 : t.at q = 0
  · rw [if_pos ⟨rfl, h0⟩]
    rcases Bmap.newBlock_cases t firstFree with hnew | ⟨z, hz, hlt, hfree, hnew⟩
    · rw [hnew, if_neg fun h => h rfl]
      exact Blank.refl t
    · rw [hnew, if_pos hz]
      have hat := Bmap.at_set h hp hreach h0 hz hlt hfree
      intro p hpd hp0 hne y
      rw [hat p hpd.1] at hne ⊢
      split_ifs at hne ⊢ with hpq
      · have hdata : ((t.fresh z).set z (t.place q)).data z = (t.fresh z).data z := by
          cases q with
          | top k => rfl
          | under r i =>
            refine Bmap.data_setWord_of_ne _ i z fun heq => ?_
            have hused := h.used r hp.1.ok hreach
            rw [← heq, hfree] at hused
            cases hused
        rw [hdata, State.fresh]
        dsimp only
        rw [Function.update_self]
      · exact absurd hp0 hne
  · rw [if_neg fun h => h0 h.2]
    exact Blank.refl t

/-- **A spot and the tables above it**: the induction is on the spot. -/
theorem Blank.fillSpot (h : Sound t) (h0 : t.used 0 = true) (hq : q.Ok) :
    Blank t (Names.fillSpot q t) ∧ Grown t (Names.fillSpot q t) := by
  induction q with
  | top k =>
    exact ⟨Blank.fill (q := .top k) h hq trivial,
      (@Sound.fill _ firstFree (.top k) h hq trivial).2.1⟩
  | under r j ih =>
    obtain ⟨hblank, hgrown⟩ := ih hq.1.ok
    obtain ⟨hsound, -⟩ := fillSpot_count h h0 hq.1.ok
    rw [Names.fillSpot]
    split_ifs with hr
    · exact ⟨hblank, hgrown⟩
    · have hmore := (@Sound.fill _ firstFree (.under r j) hsound hq hr).2.1
      exact ⟨hblank.trans (Blank.fill (q := .under r j) hsound hq hr) hmore, hgrown.trans hmore⟩

/-- **When a spot cannot be filled**, no zone is free any more: the induction is on the spot. -/
theorem fillSpot_full (h : Sound t) (h0 : t.used 0 = true) (hq : q.Ok)
    (hzero : (fillSpot q t).at q = 0) : freeCount (fillSpot q t).used = 0 := by
  induction q with
  | top k =>
    have hempty : t.at (.top k) = 0 := by
      by_contra hne
      have hsame := (@Sound.fill _ firstFree (.top k) h hq trivial).2.2 hne
      rw [fillSpot] at hzero
      exact hne (hsame ▸ hzero)
    rcases fill_count h h0 hq (p := .top k) trivial hempty with ⟨hnone, hfill⟩ | ⟨hat, -⟩
    · rw [fillSpot]
      exact hfill.symm ▸ hnone
    · exact absurd hzero hat
  | under r j ih =>
    obtain ⟨hsound, hused, hdeep, -⟩ := fillSpot_count h h0 hq.1.ok
    rw [fillSpot] at hzero ⊢
    split_ifs at hzero ⊢ with hr
    · exact ih hq.1.ok hr
    · have hempty : (fillSpot r t).at (.under r j) = 0 := by
        by_contra hne
        have hsame := (@Sound.fill _ firstFree (.under r j) hsound hq hr).2.2 hne
        exact hne (hsame ▸ hzero)
      rcases fill_count hsound hused hq (p := .under r j) hr hempty with ⟨hnone, hfill⟩ | ⟨hat, -⟩
      · exact hfill.symm ▸ hnone
      · exact absurd hzero hat

/-- **A block that is created** changes no byte. -/
theorem content_fillSpot (h : Sound t) (h0 : t.used 0 = true) (hq : q.Ok)
    (hp : p < 1024 * Bmap.maxBlock) : content (fillSpot q t) p = content t p := by
  obtain ⟨hblank, hgrown⟩ := Blank.fillSpot h h0 hq
  have hdata := Spot.data_ofBlock (by omega : p / 1024 < Bmap.maxBlock)
  rw [content, content]
  by_cases hz : t.at (.ofBlock (p / 1024)) = 0
  · rw [if_pos hz]
    split_ifs with hz'
    · rfl
    · exact hblank _ hdata hz hz' _
  · rw [if_neg hz, hgrown.kept _ hdata.1 hz, if_neg hz, hgrown.data _ hdata hz]

/-- **Data that is stored** moves no zone. -/
theorem at_setBytes (h : Sound t) (hr : r.Data) (hne : t.at r ≠ 0) (o : ℕ) (bytes : List UInt8)
    (hq : q.Ok) : (setBytes t (t.at r) o bytes).at q = t.at q := by
  induction q with
  | top k => rfl
  | under r' j ih =>
    have ih := ih hq.1.ok
    by_cases h0 : t.at r' = 0
    · rw [Bmap.at_under_eq_zero h0, Bmap.at_under_eq_zero (ih.trans h0)]
    · have hother : t.at r' ≠ t.at r := by
        intro heq
        obtain rfl := h.inj r' r hq.1.ok hr.1 h0 heq
        exact hr.2 hq.1
      rw [Bmap.at_under h0, Bmap.at_under (ih.symm ▸ h0), ih]
      exact Bmap.word_congr (Function.update_of_ne hother ..) j

/-- **The array that has been stored to.** -/
theorem content_setBytes (h : Sound t) (hk : k < Bmap.maxBlock) (hne : t.at (.ofBlock k) ≠ 0)
    (hfit : o + bytes.length ≤ 1024) (hp : p < 1024 * Bmap.maxBlock) :
    content (setBytes t (t.at (.ofBlock k)) o bytes) p =
      if 1024 * k + o ≤ p ∧ p < 1024 * k + o + bytes.length
      then bytes.getD (p - (1024 * k + o)) 0 else content t p := by
  have hr := Spot.data_ofBlock hk
  have hdata := Spot.data_ofBlock (by omega : p / 1024 < Bmap.maxBlock)
  rw [content, content, at_setBytes h hr hne o bytes hdata.1]
  by_cases hpk : p / 1024 = k
  · have hself : (setBytes t (t.at (.ofBlock k)) o bytes).data (t.at (.ofBlock k)) (p % 1024) =
        if o ≤ p % 1024 ∧ p % 1024 < o + bytes.length then bytes.getD (p % 1024 - o) 0
        else t.data (t.at (.ofBlock k)) (p % 1024) := by
      rw [setBytes]
      dsimp only
      rw [Function.update_self]
    rw [hpk, if_neg hne, hself, if_neg hne, show p - (1024 * k + o) = p % 1024 - o by omega]
    refine if_congr ?_ rfl rfl
    omega
  · rw [if_neg (by omega : ¬(1024 * k + o ≤ p ∧ p < 1024 * k + o + bytes.length))]
    by_cases hz : t.at (.ofBlock (p / 1024)) = 0
    · rw [if_pos hz, if_pos hz]
    · have hother : t.at (.ofBlock (p / 1024)) ≠ t.at (.ofBlock k) := fun heq =>
        hpk (Spot.ofBlock_inj (h.inj _ _ hdata.1 hr.1 hz heq))
      rw [if_neg hz, if_neg hz]
      exact congrFun (Function.update_of_ne hother ..) _

/-! ### `file_write` -/

/-- Where the zones are does not depend on the size. -/
theorem at_resize (t : State) (n : ℕ) (q : Spot) :
    ({ t with size := n } : State).at q = t.at q := by
  induction q with
  | top k => rfl
  | under r j ih =>
    rw [State.at, State.at, ih]
    rfl

/-- A file as `file_write` leaves it, when a block has been created and bytes stored. -/
def wrote (t : State) (pos : ℕ) (bytes : List UInt8) : State :=
  { setBytes t (t.at (.ofBlock (pos / 1024))) (pos % 1024) bytes with
    size := if t.size < pos + bytes.length then pos + bytes.length else t.size }

theorem at_wrote (h : Sound t) (hk : pos / 1024 < Bmap.maxBlock)
    (hne : t.at (.ofBlock (pos / 1024)) ≠ 0) (bytes : List UInt8) (hq : q.Ok) :
    (wrote t pos bytes).at q = t.at q :=
  (at_resize _ _ q).trans (at_setBytes h (Spot.data_ofBlock hk) hne (pos % 1024) bytes hq)

theorem wrote_sound (h : Sound t) (hk : pos / 1024 < Bmap.maxBlock)
    (hne : t.at (.ofBlock (pos / 1024)) ≠ 0) (bytes : List UInt8) :
    Sound (wrote t pos bytes) := by
  have hat := fun q hq => at_wrote h hk hne bytes (q := q) hq
  refine ⟨fun q q' hq hq' h0 heq => ?_, fun q hq h0 => ?_, fun q hq h0 => ?_⟩
  · rw [hat q hq] at h0 heq
    rw [hat q' hq'] at heq
    exact h.inj q q' hq hq' h0 heq
  · rw [hat q hq] at h0 ⊢
    exact h.used q hq h0
  · rw [hat q hq] at h0 ⊢
    exact h.readable q hq h0

theorem content_wrote (h : Sound t) (hk : pos / 1024 < Bmap.maxBlock)
    (hne : t.at (.ofBlock (pos / 1024)) ≠ 0) (hfit : pos % 1024 + bytes.length ≤ 1024)
    (hp : p < 1024 * Bmap.maxBlock) : content (wrote t pos bytes) p =
      if pos ≤ p ∧ p < pos + bytes.length then bytes.getD (p - pos) 0 else content t p := by
  have hset := content_setBytes h hk hne hfit hp
  rw [show 1024 * (pos / 1024) + pos % 1024 = pos by omega] at hset
  rw [← hset, content, content, wrote, at_resize]

/-- **What is stored** is there, and the zones are where they were. -/
theorem wrote_swells (hc : Bitmap.Consistent s.bitmap) (hsound : Sound (s.file id))
    (hk : pos / 1024 < Bmap.maxBlock) (hne : (s.file id).at (.ofBlock (pos / 1024)) ≠ 0)
    (bytes : List UInt8) :
    Swells id s (s.store id (wrote (s.file id) pos bytes)) (wrote (s.file id) pos bytes) := by
  have hr := Spot.data_ofBlock hk
  have hat := fun q hq => at_wrote hsound hk hne bytes (q := q) hq
  have hother : ∀ x, (∀ q : Spot, q.Ok → (s.file id).at q ≠ x) →
      (wrote (s.file id) pos bytes).data x = (s.file id).data x := fun x hx =>
    Function.update_of_ne (Ne.symm (hx _ hr.1)) ..
  have hfile : (s.store id (wrote (s.file id) pos bytes)).file id = wrote (s.file id) pos bytes :=
    file_store rfl rfl
  refine ⟨⟨follows_store hc rfl rfl, ⟨fun x _ hx => hother x hx, fun _ _ => rfl,
    fun _ hx => hx, fun x _ hx q hq => ?_⟩, fun hin q hq h0 => ?_⟩,
    ⟨fun q hq _ => hat q hq, fun x _ hused => Or.inl hused⟩, rfl, fun _ _ => rfl⟩
  · rw [hat q hq]
    exact hx q hq
  · rw [hfile, hat q hq] at h0 ⊢
    exact hin q hq h0

/-- The code sets the size first, and has the buffer. -/
theorem brelse_store {β : Type} (f : PUnit → K β) (s : Kernel) {z c : ℕ} (hlen : bytes.length = c)
    (hz : (s.file id).at (.ofBlock (pos / 1024)) = z) {s' : Kernel}
    (hs' : s' = (s.grab (id.dev, z)).setInode id fun n =>
      if n.size < pos + c then { n with size := pos + c } else n) :
    (brelse (id.dev, z) >>= f) (s'.store id (setBytes (s'.file id) z (pos % 1024) bytes)) =
      f ⟨⟩ (s.store id (wrote (s.file id) pos bytes)) := by
  have hinode : s'.inode id = { s.inode id with
      size := if (s.inode id).size < pos + c then pos + c else (s.inode id).size } := by
    rw [hs', Kernel.setInode]
    dsimp only
    rw [Function.update_self]
    change (if (s.inode id).size < pos + c then _ else s.inode id) = _
    split_ifs <;> rfl
  have hstore : s'.store id (setBytes (s'.file id) z (pos % 1024) bytes) =
      (s.store id (wrote (s.file id) pos bytes)).grab (id.dev, z) := by
    rw [wrote, hz, hlen, Kernel.store, Kernel.store, Kernel.grab, setBytes, setBytes, Kernel.file,
      Kernel.file]
    dsimp only
    rw [hinode, hs', Kernel.setInode, Kernel.grab]
    dsimp only
    rw [Function.update_idem]
  rw [hstore, bind_ok (brelse_grab _ _)]

/-- **Bytes have been written** to a file, and nothing else. -/
structure Written (id : Id) (s u : Kernel) (pos : ℕ) (bytes : List UInt8) : Prop
    extends Swells id s u (u.file id) where
  sound : Sound (u.file id)
  array : ∀ p < 1024 * Bmap.maxBlock, content (u.file id) p =
    if pos ≤ p ∧ p < pos + bytes.length then bytes.getD (p - pos) 0 else content (s.file id) p
  size : (u.file id).size =
    if bytes = [] then (s.file id).size else max (s.file id).size (pos + bytes.length)

theorem Written.refl (hc : Bitmap.Consistent s.bitmap) (h : Sound (s.file id)) (pos : ℕ) :
    Written id s s pos [] :=
  ⟨Swells.refl hc id, h, fun p _ => by rw [if_neg (by rw [List.length_nil]; omega)],
    (if_pos rfl).symm⟩

/-- One after the other. -/
theorem Written.append (h : Written id s u pos bytes)
    (h' : Written id u v (pos + bytes.length) buf) : Written id s v pos (bytes ++ buf) := by
  refine ⟨h.toSwells.trans h'.toSwells, h'.sound, fun p hp => ?_, ?_⟩
  · rw [h'.array p hp, h.array p hp, List.length_append]
    by_cases hfirst : pos ≤ p ∧ p < pos + bytes.length
    · rw [if_neg (by omega), if_pos hfirst, if_pos (by omega), List.getD_append _ _ _ _ (by omega)]
    · rw [if_neg hfirst]
      refine if_ctx_congr (by omega) (fun hp' => ?_) fun _ => rfl
      rw [List.getD_append_right _ _ _ _ (by omega), Nat.sub_sub]
  · rw [h'.size, h.size]
    by_cases hnil : bytes = []
    · subst hnil
      rw [List.nil_append, List.length_nil, Nat.add_zero, if_pos rfl]
    · have hne : bytes ++ buf ≠ [] := fun h => hnil (List.append_eq_nil_iff.mp h).1
      rw [if_neg hnil, if_neg hne, List.length_append]
      split_ifs with hbuf
      · subst hbuf
        rfl
      · omega

/-- **A block is created**, or there is no room. -/
theorem create_written (hc : Bitmap.Consistent s.bitmap) (hshort : Short s) {sb : Super}
    (hs : s.getSuper id.dev = some sb) (hsound : Sound (s.file id))
    (hk : block < Bmap.maxBlock) : ∃ y,
      bmap true id block s = .ok ((y.file id).at (.ofBlock block)) y ∧ Written id s y pos [] ∧
      ((y.file id).at (.ofBlock block) = 0 → freeCount (y.file id).used = 0) := by
  have hdata := Spot.data_ofBlock hk
  have h0 := used_zero hc id.dev
  obtain ⟨y, hrun, hswells⟩ := bmap_swells hc hshort hs hsound (create_eq hsound h0 hk)
  obtain ⟨hsound', -⟩ := fillSpot_count hsound h0 hdata.1
  obtain ⟨-, hgrown⟩ := Blank.fillSpot hsound h0 hdata.1
  have hfull := fillSpot_full hsound h0 hdata.1
  have hcontent := fun p hp => content_fillSpot hsound h0 hdata.1 (p := p) hp
  rw [← hswells.file] at hrun hsound' hgrown hfull hcontent hswells
  refine ⟨y, hrun, ⟨hswells, hsound', fun p hp => ?_, ?_⟩, hfull⟩
  · rw [hcontent p hp, if_neg (by rw [List.length_nil]; omega)]
  · rw [hgrown.size, if_pos rfl]

/-- **Bytes are stored** in a block that is there. -/
theorem store_written (hc : Bitmap.Consistent s.bitmap) (hsound : Sound (s.file id))
    (hk : pos / 1024 < Bmap.maxBlock) (hne : (s.file id).at (.ofBlock (pos / 1024)) ≠ 0)
    (hfit : pos % 1024 + bytes.length ≤ 1024) (hbytes : bytes ≠ []) :
    Written id s (s.store id (wrote (s.file id) pos bytes)) pos bytes := by
  have hswells := wrote_swells hc hsound hk hne bytes
  have hsound' := wrote_sound hsound hk hne bytes
  have hcontent := fun p hp => content_wrote hsound hk hne hfit (p := p) hp
  have hsize : (wrote (s.file id) pos bytes).size = max (s.file id).size (pos + bytes.length) := by
    rw [wrote]
    dsimp only
    split_ifs <;> omega
  have hfile := hswells.file
  refine ⟨?_, ?_, fun p hp => ?_, ?_⟩
  · rw [hfile]
    exact hswells
  · rw [hfile]
    exact hsound'
  · rw [hfile]
    exact hcontent p hp
  · rw [hfile, hsize, if_neg hbytes]

/-- **The loop of `file_write`** stops when all is written, or when the device is full: the
induction is on the rounds. -/
theorem writeLoop_spec (hc : Bitmap.Consistent s.bitmap) (hshort : Short s) {sb : Super}
    (hs : s.getSuper id.dev = some sb) (hsound : Sound (s.file id)) (hn : buf.length ≤ n)
    (hlim : pos + buf.length ≤ 1024 * Bmap.maxBlock) : ∃ k ≤ buf.length, ∃ u,
      writeLoop id n pos buf s = .ok (pos + k) u ∧ Written id s u pos (buf.take k) ∧
      (k < buf.length → freeCount (u.file id).used = 0) := by
  induction n generalizing s pos buf with
  | zero =>
    obtain rfl := List.length_eq_zero_iff.mp (Nat.le_zero.mp hn)
    refine ⟨0, le_rfl, s, rfl, ?_, fun hlt => absurd hlt (Nat.lt_irrefl 0)⟩
    exact Written.refl hc hsound pos
  | succ n ih =>
    rw [writeLoop]
    by_cases hnil : buf = []
    · subst hnil
      rw [if_pos rfl]
      exact ⟨0, le_rfl, s, rfl, Written.refl hc hsound pos, fun hlt => absurd hlt (Nat.lt_irrefl 0)⟩
    have hlen := List.length_pos_iff.mpr hnil
    obtain ⟨y, hrun, hcreated, hfull⟩ :=
      @create_written _ _ pos _ hc hshort _ hs hsound (by omega : pos / 1024 < Bmap.maxBlock)
    rw [if_neg hnil, bind_ok hrun]
    by_cases hz : (y.file id).at (.ofBlock (pos / 1024)) = 0
    · rw [if_pos hz]
      exact ⟨0, Nat.zero_le _, y, rfl, hcreated, fun _ => hfull hz⟩
    have hread := hcreated.sound.readable _ (Spot.data_ofBlock (by omega)).1 hz
    obtain ⟨c, hc'⟩ : ∃ c, min (1024 - pos % 1024) buf.length = c := ⟨_, rfl⟩
    have htake : (buf.take c).length = c := List.length_take_of_le (by omega)
    have hstored := store_written hcreated.maps hcreated.sound (by omega) hz
      (by omega : pos % 1024 + (buf.take c).length ≤ 1024) (List.length_pos_iff.mp (by omega))
    have hstep := hcreated.append hstored
    rw [if_neg hz, bind_ok (bread_ok hread), if_pos rfl, hc', modify_bind, modify_bind,
      brelse_store _ y htake rfl rfl]
    have hdrop : (buf.drop c).length = buf.length - c := List.length_drop
    obtain ⟨k, hk, u, hloop, hwritten, hroom⟩ := ih hstep.maps (hshort.steady hstep.toSteady)
      ((hstep.getSuper _).trans hs) hstep.sound (by omega : (buf.drop c).length ≤ n)
      (by omega : pos + c + (buf.drop c).length ≤ 1024 * Bmap.maxBlock)
    rw [hdrop] at hk hroom
    rw [List.nil_append] at hstep
    refine ⟨c + k, by omega, u, ?_, ?_, fun hlt => hroom (by omega)⟩
    · rw [hloop, Nat.add_assoc]
    · rw [List.take_add]
      refine hstep.append ?_
      rw [htake]
      exact hwritten

theorem Stowed.sound (h : Stowed s) (hs : s.Stored id) : Sound (s.file id) := by
  refine ⟨fun p q hp hq hne heq => (h.apart id id hs hs rfl p q hp hq hne heq).2,
    fun p hp hne => ?_, fun p hp hne => h.legible id hs p hp hne⟩
  rw [← Bool.not_eq_false]
  intro hfree
  exact (used_eq_false.mp hfree).2 (h.used id hs p hp hne)

/-- **`file_write`** stores to the array up to where the device is full, and keeps the file systems
tidy. -/
theorem fileWrite_spec (h : Tidy owed out s) (hs : s.Stored id)
    (hno : isDir (s.disk.inode id) = false) (append : Bool) (fpos : ℕ) {start : ℕ}
    (hstart : (if append then (s.inode id).size else fpos) = start)
    (hlim : start + buf.length ≤ 1024 * Bmap.maxBlock) : ∃ k ≤ buf.length, ∃ u,
      fileWrite id append fpos buf s =
        .ok (if k = 0 then -1 else k, if append then fpos else start + k) u ∧
      Written id s u start (buf.take k) ∧ Tidy owed out u ∧
      (k < buf.length → freeCount (u.file id).used = 0) := by
  obtain ⟨sb, hsb⟩ := hs.alloc.super
  obtain ⟨k, hk, u, hrun, hwritten, hroom⟩ :=
    writeLoop_spec h.maps h.short hsb (h.toStowed.sound hs) le_rfl hlim
  refine ⟨k, hk, u, ?_, hwritten, hwritten.tidy h hs hno hwritten.sound, hroom⟩
  rw [fileWrite, get_bind, hstart, bind_ok hrun, Nat.add_sub_cancel_left]
  rfl

/-! ### `file_read` -/

/-- **The other files** are as they were. -/
theorem Written.other (h : Written id s u pos bytes) (hw : Stowed s) (hs : s.Stored id)
    (hne : a ≠ id) (ha : s.Stored a) : u.inode a = s.inode a ∧
      ∀ p < 1024 * Bmap.maxBlock, content (u.file a) p = content (s.file a) p := by
  have hsame := (h.toSwells.beside hw hs).same a hne ha.alloc
  refine ⟨hsame.inode, fun p hp => ?_⟩
  have hdata := Spot.data_ofBlock (by omega : p / 1024 < Bmap.maxBlock)
  have hat := hsame.spot ha (.ofBlock (p / 1024)) hdata.1
  rw [content, content, hat]
  split_ifs with hz
  · rfl
  · exact congrFun (hsame.data ha _ hdata.1 hz) _

end Linux011.Fs.Names

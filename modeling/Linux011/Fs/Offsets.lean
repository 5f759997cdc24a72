import Linux011.Fs.Open
import Mathlib.Data.Nat.Cast.Order.Basic

/-!
# Offsets

A position is a signed number of 32 bits, a size an unsigned one, and so they are compared and
subtracted here: `sys_lseek` is the one of `Linux011.Fs.Open`, and `sys_read` and `sys_write` are
given again as the machine computes them, with `_bmap`, which panics where a block is negative or
too large.

No call makes a position negative, and `sys_read` cuts a count down so far that `_bmap` is never
asked for too much. `sys_write` does not: a position may be as large as a number can be, and a write
panics that gets to the end of what a file may be (`Linux011.Fs.Offset.offset_safe_iff`).
-/

namespace Linux011.Fs.Offset

variable {w w' : World} {n : Inode} {id : Id} {alloc : ℕ → Bool} {fd f : ℕ} {count : ℤ}

/-! ### The calls -/

/-- `_bmap`, with what there is of the block then. -/
def bmap (n : Inode) (block : ℤ) : M Zone :=
  if block < 0 then throw (.panic "_bmap: block<0")
  else if maxBlock ≤ block then throw (.panic "_bmap: block>big")
  else pure (n.zone block.toNat)

/-- The loop of `file_read`, for so many rounds. -/
def readLoop (n : Inode) : ℕ → ℤ → ℤ → List UInt8 → M (ℤ × List UInt8)
  | 0, pos, _, acc => pure (pos, acc)
  | k + 1, pos, left, acc =>
    if left = 0 then pure (pos, acc)
    else do
      let z ← bmap n (pos.tdiv 1024)
      let chars := min (1024 - pos.tmod 1024) left
      match z with
      | .bad => pure (pos, acc)
      | .hole =>
        readLoop n k (wrap32 (pos + chars)) (left - chars) (acc ++ List.replicate chars.toNat 0)
      | .good =>
        readLoop n k (wrap32 (pos + chars)) (left - chars)
          (acc ++ (List.range chars.toNat).map fun i => n.data (pos.toNat + i))

/-- `count`, if there is as much; the sum is unsigned, as the size is. -/
def clip (size : ℕ) (pos count : ℤ) : ℤ :=
  if size < (count + pos) % 2 ^ 32 then wrap32 (size - pos) else count

/-- **`sys_read`**: what it returns, and the bytes it delivers. -/
def sysRead (fd : ℕ) (count : ℤ) : M (ℤ × List UInt8) := do
  let w ← get
  match (if 20 ≤ fd ∨ count < 0 then none else w.filp fd) with
  | none => pure (-22, [])
  | some f =>
    if count = 0 then pure (0, [])
    else
      let file := w.file f
      let n := w.disk.inode file.inode
      if isDir n ∨ isReg n then do
        let count := clip n.size file.pos count
        if count ≤ 0 then pure (0, [])
        else do
          let (pos, bytes) ← readLoop n count.toNat file.pos count []
          modify fun w => w.setFile f fun file => { file with pos := pos }
          pure (if bytes = [] then -99 else bytes.length, bytes)
      else if isDevice n then throw .device
      else pure (-22, [])

/-- The bytes of a block are stored; the size is the new position, if that is larger. -/
def put (n : Inode) (pos c : ℤ) (bytes : List UInt8) : Inode :=
  { store n pos.toNat bytes with
    size := if (n.size : ℤ) < wrap32 (pos + c) % 2 ^ 32 then (wrap32 (pos + c) % 2 ^ 32).toNat
      else n.size }

/-- The loop of `file_write`, for so many rounds: the position at the end, and how much has been
written. -/
def writeLoop (id : Id) (alloc : ℕ → Bool) : ℕ → ℤ → List UInt8 → ℤ → M (ℤ × ℤ)
  | 0, pos, _, i => pure (pos, i)
  | k + 1, pos, bytes, i =>
    if bytes = [] then pure (pos, i)
    else do
      let w ← get
      let z ← bmap (w.disk.inode id) (pos.tdiv 1024)
      if z = .bad ∨ z = .hole ∧ ¬alloc (pos.tdiv 1024).toNat then pure (pos, i)
      else do
        let c := min (1024 - pos.tmod 1024) bytes.length
        modify fun w => w.setInode id fun n => put n pos c (bytes.take c.toNat)
        writeLoop id alloc k (wrap32 (pos + c)) (bytes.drop c.toNat) (i + c)

/-- Where `file_write` begins. -/
def start (file : File) (n : Inode) : ℤ :=
  if file.flags &&& oAppend ≠ 0#32 then wrap32 n.size else file.pos

/-- **`sys_write`**, of `count` bytes of `buf`. -/
def sysWrite (fd : ℕ) (count : ℤ) (buf : ℕ → UInt8) (alloc : ℕ → Bool) : M ℤ := do
  let w ← get
  match (if 20 ≤ fd ∨ count < 0 then none else w.filp fd) with
  | none => pure (-22)
  | some f =>
    if count = 0 then pure 0
    else
      let file := w.file f
      let n := w.disk.inode file.inode
      if isReg n then do
        let (pos, i) ← writeLoop file.inode alloc count.toNat (start file n)
          ((List.range count.toNat).map buf) 0
        modify fun w => if file.flags &&& oAppend ≠ 0#32 then w
          else w.setFile f fun file => { file with pos := pos }
        pure (if i = 0 then -1 else i)
      else if isDevice n then throw .device
      else pure (-22)

/-- The calls. -/
inductive Call
  | lseek (fd : ℕ) (offset origin : ℤ)
  | read (fd : ℕ) (count : ℤ)
  | write (fd : ℕ) (count : ℤ) (buf : ℕ → UInt8) (alloc : ℕ → Bool)

/-- The descriptor of a call. -/
def Call.descriptor : Call → ℕ
  | .lseek fd _ _ => fd
  | .read fd _ => fd
  | .write fd _ _ _ => fd

/-- What a call returns, and the bytes it delivers. -/
def Call.perform : Call → M (ℤ × List UInt8)
  | .lseek fd offset origin => do
    let r ← sysLseek fd offset origin
    pure (r, [])
  | .read fd count => sysRead fd count
  | .write fd count buf alloc => do
    let r ← sysWrite fd count buf alloc
    pure (r, [])

/-- A signed number of 32 bits. -/
def IsInt32 (x : ℤ) : Prop := -2 ^ 31 ≤ x ∧ x < 2 ^ 31

/-- The numbers that are given with a call are of 32 bits. -/
def Call.Sized : Call → Prop
  | .lseek _ offset origin => IsInt32 offset ∧ IsInt32 origin
  | .read _ count => IsInt32 count
  | .write _ count _ _ => IsInt32 count

/-- **A call on a regular file**, if the descriptor is one. -/
structure Call.Fits (w : World) (c : Call) : Prop where
  sized : c.Sized
  regular : ∀ f, w.filp c.descriptor = some f → isReg (w.disk.inode (w.file f).inode) = true

/-- One call, which returns. -/
def Step (w w' : World) : Prop := ∃ c : Call, c.Fits w ∧ ∃ r, c.perform w = .ok r w'

/-- **The open files**: positions that are not negative, and regular files that are not too
large. -/
structure Sound (w : World) : Prop where
  pos : ∀ fd f, w.filp fd = some f → 0 ≤ (w.file f).pos ∧ (w.file f).pos < 2 ^ 31
  size : ∀ fd f, w.filp fd = some f → isReg (w.disk.inode (w.file f).inode) = true →
    (w.disk.inode (w.file f).inode).size ≤ maxBlock * 1024

/-- A block is got for a write: there is one, or there will be. -/
def Got (n : Inode) (alloc : ℕ → Bool) (b : ℕ) : Prop :=
  n.zone b = .good ∨ (n.zone b = .hole ∧ alloc b = true)

/-- **A write gets to the end** of what a file may be: there is something to be written beyond it,
and all blocks before it are got. -/
def Over (n : Inode) (alloc : ℕ → Bool) (pos len : ℕ) : Prop :=
  maxBlock * 1024 < pos + len ∧ ∀ b, pos / 1024 ≤ b → b < maxBlock → Got n alloc b

/-- **A call overruns**: it writes to the end of what a file may be. -/
def Call.Overruns (w : World) : Call → Prop
  | .write fd count _ alloc => fd < 20 ∧ 0 < count ∧ ∃ f, w.filp fd = some f ∧
      Over (w.disk.inode (w.file f).inode) alloc
        (start (w.file f) (w.disk.inode (w.file f).inode)).toNat count.toNat
  | _ => False

/-! ### Numbers -/

theorem wrap32_of_lt {x : ℤ} (h0 : -2 ^ 31 ≤ x) (h : x < 2 ^ 31) : wrap32 x = x := by
  rw [wrap32]
  omega

theorem wrap32_lt (x : ℤ) : wrap32 x < 2 ^ 31 := by
  rw [wrap32]
  omega

/-- What is read is not beyond the end of the file. -/
theorem clip_le {size : ℕ} {pos : ℤ} (hpos : 0 ≤ pos) (hpos' : pos < 2 ^ 31)
    (hsize : size ≤ maxBlock * 1024) (hcount : 0 ≤ count) (hcount' : count < 2 ^ 31)
    (hclip : 0 < clip size pos count) : pos + clip size pos count ≤ size := by
  have hmax : (size : ℤ) ≤ 268966912 := by
    exact_mod_cast hsize
  rw [clip] at hclip ⊢
  split_ifs at hclip ⊢ with hbig
  · rw [wrap32_of_lt (by omega) (by omega)]
    omega
  · omega

theorem bmap_eq {block : ℤ} (h0 : 0 ≤ block) (h : block < maxBlock) :
    bmap n block = pure (n.zone block.toNat) := by
  rw [bmap, if_neg (by omega), if_neg (by omega)]

theorem tdiv_cast (p : ℕ) : (p : ℤ).tdiv 1024 = ((p / 1024 : ℕ) : ℤ) := by
  rw [Int.tdiv_eq_ediv_of_nonneg (by omega)]
  omega

theorem tmod_cast (p : ℕ) : (p : ℤ).tmod 1024 = ((p % 1024 : ℕ) : ℤ) := by
  rw [Int.tmod_eq_emod_of_nonneg (by omega)]
  omega

/-! ### `sys_lseek` -/

/-- A position is set that is not negative. -/
theorem Sound.setPos (h : Sound w) {pos : ℤ} (h0 : 0 ≤ pos) (hlt : pos < 2 ^ 31) (f : ℕ) :
    Sound (w.setFile f fun file => { file with pos := pos }) := by
  have hinode : ∀ g, ((w.setFile f fun file => { file with pos := pos }).file g).inode =
      (w.file g).inode := by
    intro g
    by_cases hg : g = f
    · rw [hg, World.setFile]
      dsimp only
      rw [Function.update_self]
    · exact congrArg File.inode (Function.update_of_ne hg _ _)
  constructor
  · intro fd g hg
    by_cases hgf : g = f
    · have hpos : ((w.setFile f fun file => { file with pos := pos }).file g).pos = pos := by
        rw [hgf, World.setFile]
        dsimp only
        rw [Function.update_self]
      rw [hpos]
      exact ⟨h0, hlt⟩
    · have hpos : ((w.setFile f fun file => { file with pos := pos }).file g).pos =
          (w.file g).pos := congrArg File.pos (Function.update_of_ne hgf _ _)
      rw [hpos]
      exact h.pos fd g hg
  · intro fd g hg
    rw [hinode]
    exact h.size fd g hg

/-- A panic. -/
def Panics : Halt → Prop
  | .panic _ => True
  | _ => False

/-- **`sys_lseek`** -/
theorem Sound.sysLseek (h : Sound w) {offset origin : ℤ} (hoffset : IsInt32 offset) :
    wp (sysLseek fd offset origin) (fun _ => Sound) (fun e _ => ¬Panics e) w := by
  rw [Fs.sysLseek, wp_bind, wp_get]
  dsimp only
  split
  · exact h
  next f hf =>
  rw [wp_ite]
  refine ⟨fun _ => h, fun _ => ?_⟩
  split
  · exact h
  next pos hpos =>
  rw [wp_ite]
  refine ⟨fun _ => h, fun hneg => ?_⟩
  rw [wp_bind, wp_modify]
  refine h.setPos (Int.not_lt.mp hneg) ?_ f
  split_ifs at hpos
  · obtain rfl := Option.some.inj hpos
    exact hoffset.2
  · obtain rfl := Option.some.inj hpos
    exact wrap32_lt _
  · obtain rfl := Option.some.inj hpos
    exact wrap32_lt _

/-! ### `sys_read` -/

/-- **The loop of `file_read`** asks for no block that a file cannot have. -/
theorem wp_readLoop {k : ℕ} {pos left : ℤ} {acc : List UInt8} (hpos : 0 ≤ pos) (hleft : 0 ≤ left)
    (hle : pos + left ≤ maxBlock * 1024) :
    wp (readLoop n k pos left acc) (fun r w' => w' = w ∧ pos ≤ r.1 ∧ r.1 ≤ pos + left ∧
      (r.2.length : ℤ) ≤ acc.length + left) (fun e _ => ¬Panics e) w := by
  induction k generalizing pos left acc with
  | zero =>
    refine ⟨rfl, le_rfl, ?_, ?_⟩
    · exact Int.le_add_of_nonneg_right hleft
    · exact Int.le_add_of_nonneg_right hleft
  | succ k ih =>
    have hstop : ∀ {v : ℤ × List UInt8}, v = (pos, acc) → w = w ∧ pos ≤ v.1 ∧ v.1 ≤ pos + left ∧
        (v.2.length : ℤ) ≤ acc.length + left := by
      rintro v rfl
      exact ⟨rfl, le_rfl, Int.le_add_of_nonneg_right hleft, Int.le_add_of_nonneg_right hleft⟩
    rw [readLoop, wp_ite]
    refine ⟨fun _ => hstop rfl, fun hne => ?_⟩
    have hmax : ((maxBlock : ℕ) : ℤ) = 262663 := rfl
    have hdiv := Int.tdiv_eq_ediv_of_nonneg (b := 1024) hpos
    have hmod := Int.tmod_eq_emod_of_nonneg (b := 1024) hpos
    rw [wp_bind, bmap_eq (by omega) (by omega), wp_pure, hmod]
    -- the next round
    generalize hchars : min (1024 - pos % 1024) left = chars
    have hmin : 0 < chars ∧ chars ≤ left := by omega
    have hwrap : wrap32 (pos + chars) = pos + chars := wrap32_of_lt (by omega) (by omega)
    dsimp only
    rw [hwrap]
    have hnext : ∀ more : List UInt8, (more.length : ℤ) = chars →
        wp (readLoop n k (pos + chars) (left - chars) (acc ++ more)) (fun r w' => w' = w ∧
          pos ≤ r.1 ∧ r.1 ≤ pos + left ∧ (r.2.length : ℤ) ≤ acc.length + left)
          (fun e _ => ¬Panics e) w := by
      intro more hmore
      refine wp_post (ih (by omega) (by omega) (by omega)) ?_
      rintro r w' ⟨rfl, hle, hge, hlen⟩
      rw [List.length_append] at hlen
      exact ⟨rfl, by omega, by omega, by omega⟩
    rcases n.zone (pos.tdiv 1024).toNat with _ | _ | _
    · exact hnext _ (by rw [List.length_replicate]; omega)
    · exact hstop rfl
    · exact hnext _ (by rw [List.length_map, List.length_range]; omega)

/-- **`sys_read`** delivers no more than there is behind the position. -/
theorem Sound.sysRead (h : Sound w) (hcount : IsInt32 count)
    (hreg : ∀ f, w.filp fd = some f → isReg (w.disk.inode (w.file f).inode) = true) :
    wp (sysRead fd count) (fun r w' => Sound w' ∧ ∀ f, w.filp fd = some f →
      (r.2.length : ℤ) ≤ max 0 ((w.disk.inode (w.file f).inode).size - (w.file f).pos))
      (fun e _ => ¬Panics e) w := by
  have hnone : ∀ v : ℤ, Sound w ∧ ∀ f, w.filp fd = some f →
      (((v, []) : ℤ × List UInt8).2.length : ℤ) ≤
        max 0 ((w.disk.inode (w.file f).inode).size - (w.file f).pos) :=
    fun v => ⟨h, fun _ _ => le_max_left _ _⟩
  rw [Offset.sysRead, wp_bind, wp_get]
  dsimp only
  split
  · exact hnone _
  next f hf =>
  split_ifs at hf with hfd
  obtain ⟨-, hneg⟩ := not_or.mp hfd
  rw [wp_ite]
  refine ⟨fun _ => hnone _, fun hzero => ?_⟩
  rw [if_pos (Or.inr (hreg f hf)), wp_ite]
  refine ⟨fun _ => hnone _, fun hclip => ?_⟩
  obtain ⟨hpos, hpos'⟩ := h.pos fd f hf
  have hsize := h.size fd f hf (hreg f hf)
  have hend := clip_le hpos hpos' hsize (by omega) hcount.2 (by omega)
  have hmax : (maxBlock : ℤ) * 1024 = 268966912 := rfl
  have hsize' : ((w.disk.inode (w.file f).inode).size : ℤ) ≤ maxBlock * 1024 := by
    exact_mod_cast hsize
  rw [wp_bind]
  refine wp_post (wp_readLoop hpos (by omega) (by omega)) ?_
  rintro ⟨pos, bytes⟩ w' ⟨rfl, hge, hle, hlen⟩
  rw [wp_bind, wp_modify, wp_pure]
  refine ⟨h.setPos (by omega) (by omega) f, fun g hg => ?_⟩
  obtain rfl := Option.some.inj (hf.symm.trans hg)
  refine le_max_of_le_right ?_
  change (bytes.length : ℤ) ≤ ([] : List UInt8).length + _ at hlen
  rw [List.length_nil] at hlen
  change (bytes.length : ℤ) ≤ _
  omega

/-! ### `sys_write` -/

/-- **What a write leaves**: nothing but the inode changes, of which the mode stays, and the size is
one that a file may have. -/
structure Stored (id : Id) (w w' : World) : Prop where
  filp : w'.filp = w.filp
  file : w'.file = w.file
  other : ∀ x, x ≠ id → w'.disk.inode x = w.disk.inode x
  mode : (w'.disk.inode id).mode = (w.disk.inode id).mode
  size : (w'.disk.inode id).size ≤ maxBlock * 1024

theorem Stored.sound (hst : Stored id w w') (h : Sound w) : Sound w' := by
  constructor
  · intro fd f hf
    rw [hst.filp] at hf
    rw [hst.file]
    exact h.pos fd f hf
  · intro fd f hf hreg
    rw [hst.filp] at hf
    rw [hst.file] at hreg ⊢
    by_cases hid : (w.file f).inode = id
    · rw [hid]
      exact hst.size
    · rw [hst.other _ hid] at hreg ⊢
      exact h.size fd f hf hreg

theorem Stored.self (hsize : (w.disk.inode id).size ≤ maxBlock * 1024) : Stored id w w :=
  ⟨rfl, rfl, fun _ _ => rfl, rfl, hsize⟩

theorem put_mode (n : Inode) (pos c : ℤ) (bytes : List UInt8) :
    (put n pos c bytes).mode = n.mode := rfl

theorem not_over_nil {p : ℕ} (h : p ≤ maxBlock * 1024) :
    ¬Over n alloc p ([] : List UInt8).length := by
  intro hover
  exact Nat.not_lt.mpr h hover.1

/-- Behind a block that is got a write overruns as it does with it. -/
theorem over_next {n n' : Inode} {p len c : ℕ} (hc : c = min (1024 - p % 1024) len)
    (hgot : Got n alloc (p / 1024))
    (hzone : ∀ b, b ≠ p / 1024 → n'.zone b = n.zone b) :
    Over n' alloc (p + c) (len - c) ↔ Over n alloc p len := by
  have hsame : ∀ b, b ≠ p / 1024 → (Got n' alloc b ↔ Got n alloc b) := by
    intro b hb
    rw [Got, Got, hzone b hb]
  have hmax : maxBlock * 1024 = 268966912 := rfl
  rw [Over, Over, hmax]
  rw [show maxBlock = 262663 from rfl]
  constructor
  · rintro ⟨hlong, hall⟩
    refine ⟨by omega, fun b hb hlt => ?_⟩
    by_cases hbp : b = p / 1024
    · rw [hbp]
      exact hgot
    · exact (hsame b hbp).mp (hall b (by omega) hlt)
  · rintro ⟨hlong, hall⟩
    refine ⟨by omega, fun b hb hlt => ?_⟩
    -- the block has been filled to its end
    exact (hsame b (by omega)).mpr (hall b (by omega) hlt)

/-- **The loop of `file_write`** panics just if it overruns. -/
theorem wp_writeLoop {k p : ℕ} {bytes : List UInt8} {i : ℤ} (hk : bytes.length ≤ k)
    (hlt : p < 2 ^ 31) (hdone : bytes = [] → p ≤ maxBlock * 1024)
    (hsize : (w.disk.inode id).size ≤ maxBlock * 1024) :
    wp (writeLoop id alloc k p bytes i)
      (fun r w' => ¬Over (w.disk.inode id) alloc p bytes.length ∧ 0 ≤ r.1 ∧ r.1 < 2 ^ 31 ∧
        Stored id w w')
      (fun e _ => Panics e ∧ Over (w.disk.inode id) alloc p bytes.length) w := by
  have hmax : maxBlock * 1024 = 268966912 := rfl
  have hblocks : maxBlock = 262663 := rfl
  induction k generalizing w p bytes i with
  | zero =>
    obtain rfl := List.length_eq_zero_iff.mp (Nat.le_zero.mp hk)
    exact ⟨not_over_nil (hdone rfl), by omega, by omega, .self hsize⟩
  | succ k ih =>
    rw [writeLoop, wp_ite]
    constructor
    · rintro rfl
      exact ⟨not_over_nil (hdone rfl), by omega, by omega, .self hsize⟩
    intro hne
    have hlen := List.length_pos_iff.mpr hne
    rw [wp_bind, wp_get, wp_bind, tdiv_cast, tmod_cast, Int.toNat_natCast]
    by_cases hbig : maxBlock ≤ p / 1024
    · rw [bmap, if_neg (by omega), if_pos (by omega)]
      refine ⟨trivial, ?_⟩
      rw [Over, hmax]
      constructor
      · omega
      · intro b hb hb'
        omega
    rw [bmap_eq (by omega) (by omega), wp_pure, Int.toNat_natCast, wp_ite]
    constructor
    · intro hstop
      refine ⟨fun hover => ?_, by omega, by omega, .self hsize⟩
      rcases hover.2 (p / 1024) le_rfl (by omega) with hgood | ⟨hhole, halloc⟩
      · rcases hstop with hbad | ⟨hhole, -⟩
        · cases hgood.symm.trans hbad
        · cases hgood.symm.trans hhole
      · rcases hstop with hbad | ⟨-, halloc'⟩
        · cases hhole.symm.trans hbad
        · exact halloc' halloc
    intro hgo
    obtain ⟨hnbad, hnhole⟩ := not_or.mp hgo
    have hgot : Got (w.disk.inode id) alloc (p / 1024) := by
      rcases hz : (w.disk.inode id).zone (p / 1024) with _ | _ | _
      · exact Or.inr ⟨hz, by
          by_contra halloc
          exact hnhole ⟨hz, halloc⟩⟩
      · exact absurd hz hnbad
      · exact Or.inl hz
    -- so many bytes go into the block
    generalize hc : min (1024 - p % 1024) bytes.length = c
    have hcast : min (1024 - ((p % 1024 : ℕ) : ℤ)) (bytes.length : ℤ) = (c : ℤ) := by omega
    rw [wp_bind, wp_modify, hcast, wrap32_of_lt (by omega) (by omega), Int.toNat_natCast,
      ← Nat.cast_add]
    generalize hw : w.setInode id (fun n => put n p c (bytes.take c)) = w₁
    have hinode : w₁.disk.inode id = put (w.disk.inode id) p c (bytes.take c) := by
      rw [← hw]
      exact Function.update_self _ _ _
    have hzone : ∀ b, b ≠ p / 1024 → (w₁.disk.inode id).zone b = (w.disk.inode id).zone b := by
      intro b hb
      rw [hinode]
      exact Function.update_of_ne hb _ _
    have hsize₁ : (w₁.disk.inode id).size ≤ maxBlock * 1024 := by
      rw [hinode, put]
      dsimp only
      rw [wrap32_of_lt (by omega) (by omega)]
      split_ifs <;> omega
    have hover : Over (w₁.disk.inode id) alloc (p + c) (bytes.length - c) ↔
        Over (w.disk.inode id) alloc p bytes.length := over_next hc.symm hgot hzone
    have hlen₁ : (bytes.drop c).length = bytes.length - c := List.length_drop
    have hle₁ : p + c ≤ maxBlock * 1024 := by omega
    have hst₁ : ∀ {w' : World}, Stored id w₁ w' → Stored id w w' := by
      intro w' hst
      refine ⟨hst.filp.trans (by rw [← hw]; rfl), hst.file.trans (by rw [← hw]; rfl),
        fun x hx => (hst.other x hx).trans ?_, hst.mode.trans ?_, hst.size⟩
      · rw [← hw]
        exact Function.update_of_ne hx _ _
      · rw [hinode]
        exact put_mode _ _ _ _
    have hrec := @ih w₁ (p + c) (bytes.drop c) (i + c)
      (by omega) (by omega) (fun _ => hle₁) hsize₁
    rw [hlen₁, hover] at hrec
    refine wp_post hrec ?_
    rintro r w' ⟨hno, hge, hlt', hst⟩
    exact ⟨hno, hge, hlt', hst₁ hst⟩

/-- **`sys_write`** panics just if it overruns. -/
theorem Sound.sysWrite (h : Sound w) {buf : ℕ → UInt8}
    (hreg : ∀ f, w.filp fd = some f → isReg (w.disk.inode (w.file f).inode) = true) :
    wp (sysWrite fd count buf alloc)
      (fun _ w' => Sound w' ∧ ¬(Call.write fd count buf alloc).Overruns w)
      (fun e _ => Panics e ∧ (Call.write fd count buf alloc).Overruns w) w := by
  rw [Offset.sysWrite, wp_bind, wp_get]
  dsimp only
  split
  · next hnone =>
    refine ⟨h, ?_⟩
    rintro ⟨hfd, hpos, f, hf, -⟩
    rw [if_neg (by omega), hf] at hnone
    cases hnone
  next f hf =>
  split_ifs at hf with hfd
  obtain ⟨hfd, hneg⟩ := not_or.mp hfd
  rw [wp_ite]
  constructor
  · intro hzero
    refine ⟨h, ?_⟩
    rintro ⟨-, hpos, -⟩
    omega
  intro hne
  rw [if_pos (hreg f hf), wp_bind]
  have hsize := h.size fd f hf (hreg f hf)
  have hmax : maxBlock * 1024 = 268966912 := rfl
  generalize hn : w.disk.inode (w.file f).inode = n at hsize
  -- where the write begins
  have hstart : 0 ≤ start (w.file f) n ∧ start (w.file f) n < 2 ^ 31 := by
    rw [start]
    split_ifs
    · rw [wrap32_of_lt (by omega) (by omega)]
      omega
    · exact h.pos fd f hf
  obtain ⟨p, hp⟩ := Int.eq_ofNat_of_zero_le hstart.1
  have hlen : ((List.range count.toNat).map buf).length = count.toNat := by
    rw [List.length_map, List.length_range]
  have hover : (Call.write fd count buf alloc).Overruns w ↔ Over n alloc p count.toNat := by
    constructor
    · rintro ⟨-, -, g, hg, hover⟩
      obtain rfl := Option.some.inj (hf.symm.trans hg)
      rw [hn, hp] at hover
      exact hover
    · intro hover
      refine ⟨by omega, by omega, f, hf, ?_⟩
      rw [hn, hp]
      exact hover
  have hloop : wp (writeLoop (w.file f).inode alloc count.toNat p
      ((List.range count.toNat).map buf) 0) _ _ w :=
    wp_writeLoop hlen.le (by omega) (fun hnil => by
      have hzero := hlen
      rw [hnil, List.length_nil] at hzero
      omega) (by rw [hn]; exact hsize)
  rw [hn, hlen] at hloop
  rw [hp, hover]
  refine wp_mono hloop ?_ fun _ _ he => he
  rintro ⟨pos, i⟩ w' ⟨hno, hge, hlt, hst⟩
  rw [wp_bind, wp_modify, wp_pure]
  refine ⟨?_, hno⟩
  split_ifs
  · exact hst.sound h
  · exact (hst.sound h).setPos hge hlt f

/-! ### As without bounds -/

/-! ### Runs -/

/-- **A call** -/
theorem Sound.perform (h : Sound w) {c : Call} (hc : c.Fits w) :
    wp c.perform (fun _ w' => Sound w' ∧ ¬c.Overruns w) (fun e _ => Panics e ↔ c.Overruns w) w := by
  cases c with
  | lseek fd offset origin =>
    rw [Call.perform, wp_bind]
    refine wp_mono (h.sysLseek hc.sized.1) (fun _ _ hs => ⟨hs, id⟩) fun _ _ he => ?_
    exact iff_of_false he id
  | read fd count =>
    refine wp_mono (h.sysRead hc.sized hc.regular) (fun _ _ hs => ⟨hs.1, id⟩) fun _ _ he => ?_
    exact iff_of_false he id
  | write fd count buf alloc =>
    rw [Call.perform, wp_bind]
    exact wp_mono (h.sysWrite hc.regular) (fun _ _ hs => hs) fun _ _ he =>
      iff_of_true he.1 he.2

theorem Sound.run {w₀ : World} (h0 : Sound w₀) (h : Relation.ReflTransGen Step w₀ w) : Sound w := by
  induction h with
  | refl => exact h0
  | tail _ hstep ih =>
    obtain ⟨c, hc, r, hr⟩ := hstep
    exact (wp_ok (ih.perform hc) hr).1

/-- **Offsets that a user may give.** In every run no position becomes negative, and `sys_read`
delivers no more than there is behind the position; and a call reaches a panic just if it writes to
the end of what a file may be. -/
theorem offset_safe_iff {w₀ : World} (h0 : Sound w₀) (h : Relation.ReflTransGen Step w₀ w)
    {c : Call} (hc : c.Fits w) :
    (∀ fd f, w.filp fd = some f → 0 ≤ (w.file f).pos) ∧
      (∀ fd count f r w', c = .read fd count → w.filp fd = some f → c.perform w = .ok r w' →
        (r.2.length : ℤ) ≤ max 0 ((w.disk.inode (w.file f).inode).size - (w.file f).pos)) ∧
      ((∀ text w', c.perform w ≠ .error (.panic text) w') ↔ ¬c.Overruns w) := by
  have hsound := h0.run h
  have hperform := hsound.perform hc
  refine ⟨fun fd f hf => (hsound.pos fd f hf).1, ?_, ?_, ?_⟩
  · rintro fd count f r w' rfl hf hr
    exact (wp_ok (hsound.sysRead hc.sized hc.regular) hr).2 f hf
  · intro hno hover
    rcases hr : c.perform w with ⟨r, w'⟩ | ⟨e, w'⟩
    · exact (wp_ok hperform hr).2 hover
    · have hpanics := (wp_error hperform hr).mpr hover
      cases e with
      | panic text => exact hno text w' hr
      | noSuper => exact hpanics
      | hang => exact hpanics
      | device => exact hpanics
  · intro hno text w' hr
    exact hno ((wp_error hperform hr).mp trivial)

/-! ### One file -/

/-- A regular file that is empty, of a user. -/
def emptyFile : Inode where
  mode := 0x81A4#16
  uid := 1
  gid := 1
  nlinks := 1
  size := 0
  zone _ := .hole
  data _ := 0
  mount := false

/-- The task is no superuser, and has the file open to read and to write, at a position. -/
def opened (pos : ℤ) : World where
  disk := ⟨fun _ => emptyFile, fun _ => ⟨0, none⟩⟩
  task := ⟨1, 1, ⟨0x301, 1⟩, ⟨0x301, 1⟩⟩
  umask := 0
  filp fd := if fd = 0 then some 0 else none
  closeOnExec := 0
  file := Function.update (fun _ => ⟨0x81A4#16, 2#32, 1, ⟨0x301, 5⟩, 0⟩) 0
    ⟨0x81A4#16, 2#32, 1, ⟨0x301, 5⟩, pos⟩
  granted _ _ := true

theorem opened_filp {pos : ℤ} {fd f : ℕ} (h : (opened pos).filp fd = some f) : f = 0 := by
  rw [opened] at h
  dsimp only at h
  split_ifs at h
  exact (Option.some.inj h).symm

theorem opened_pos (pos : ℤ) : ((opened pos).file 0).pos = pos := by
  rw [opened]
  dsimp only
  rw [Function.update_self]

theorem opened_sound {pos : ℤ} (h0 : 0 ≤ pos) (h : pos < 2 ^ 31) : Sound (opened pos) := by
  constructor
  · intro fd f hf
    rw [opened_filp hf, opened_pos]
    exact ⟨h0, h⟩
  · intro fd f hf _
    exact Nat.zero_le _

theorem opened_regular (pos : ℤ) (f : ℕ) :
    isReg ((opened pos).disk.inode ((opened pos).file f).inode) = true := by
  change isReg emptyFile = true
  decide

/-- A byte is written. -/
def writeByte : Call := .write 0 1 (fun _ => 0) fun _ => true

theorem writeByte_fits (pos : ℤ) : writeByte.Fits (opened pos) :=
  ⟨by constructor <;> decide, fun f _ => opened_regular pos f⟩

theorem lseek_fits {pos : ℤ} (h0 : 0 ≤ pos) (h : pos < 2 ^ 31) :
    (Call.lseek 0 pos 0).Fits (opened 0) := by
  refine ⟨⟨⟨by omega, h⟩, ?_⟩, fun f _ => opened_regular 0 f⟩
  constructor <;> decide

theorem opened_setFile (pos : ℤ) :
    (opened 0).setFile 0 (fun file => { file with pos := pos }) = opened pos := by
  rw [World.setFile, opened, opened]
  dsimp only
  rw [Function.update_idem, Function.update_self]

theorem lseek_step {pos : ℤ} (h0 : 0 ≤ pos) (h : pos < 2 ^ 31)
    (hseek : (Call.lseek 0 pos 0).perform (opened 0) =
      .ok (pos, []) ((opened 0).setFile 0 fun file => { file with pos := pos })) :
    Step (opened 0) (opened pos) := by
  rw [opened_setFile] at hseek
  exact ⟨.lseek 0 pos 0, lseek_fits h0 h, (pos, []), hseek⟩

/-- The last byte that a file may have can be written. -/
theorem offset_safe_last :
    (∀ fd f, (opened 268966911).filp fd = some f → 0 ≤ ((opened 268966911).file f).pos) ∧
      (∀ text w', writeByte.perform (opened 268966911) ≠ .error (.panic text) w') := by
  have hsafe := offset_safe_iff (opened_sound le_rfl (by decide))
    (.single (lseek_step (by decide) (by decide) rfl)) (writeByte_fits 268966911)
  refine ⟨hsafe.1, hsafe.2.2.mpr ?_⟩
  rintro ⟨-, -, f, hf, hlong, -⟩
  rw [opened_filp hf] at hlong
  have hstart : start ((opened 268966911).file 0) emptyFile = 268966911 := by
    rw [start, opened_pos]
    exact if_neg (by decide)
  have hlong' : maxBlock * 1024 < (start ((opened 268966911).file 0) emptyFile).toNat + 1 := hlong
  rw [hstart] at hlong'
  revert hlong'
  decide

/-- **A user panics the kernel**: behind the end of what a file may be a byte is written. -/
theorem not_offset_safe : ¬∀ (w₀ w : World) (c : Call), Sound w₀ →
    Relation.ReflTransGen Step w₀ w → c.Fits w →
    ∀ text w', c.perform w ≠ .error (.panic text) w' := by
  intro h
  exact h (opened 0) (opened 268966912) writeByte (opened_sound le_rfl (by decide))
    (.single (lseek_step (by decide) (by decide) rfl)) (writeByte_fits _)
    "_bmap: block>big" (opened 268966912) rfl

end Linux011.Fs.Offset

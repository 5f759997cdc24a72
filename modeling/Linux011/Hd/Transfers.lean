import Linux011.Hd.Driver

/-!
# Every sector in its place

How far a request has come is one number `k`: its sector and its buffer have moved on by `k`, `k`
sectors fewer are left, and the first `k` sectors have been transferred, each from or to its place
(`Linux011.Hd.Progress`). A command that is under way goes on where the request stands
(`Linux011.Hd.Linked`), as `do_hd_request` gives it the sector the request stands at, and each good
interrupt moves both on by one. So a request that ends well has been transferred as a whole
(`Linux011.Hd.transfers_in_place`).

The controller has 16 bits for the cylinder and 8 for the sector. That all sectors of the partition
can be named in them is for the partition table to see to (`Linux011.Hd.Disks.Named`); of a
partition further on, other sectors are transferred (`Linux011.Hd.not_inPlace`).
-/

namespace Linux011.Hd

open Block (Request Cmd)

/-! ### Sectors and their names -/

/-- **The division is right**: the sector, head and cylinder of a block. -/
theorem chs_eq (block sect heads : ℕ) :
    (block / sect / heads * heads + block / sect % heads) * sect + (block % sect + 1) - 1 =
      block := by
  rw [Nat.div_add_mod' (block / sect) heads, Nat.add_succ_sub_one, Nat.div_add_mod' block sect]

/-- The byte for the drive and the head. -/
theorem current_eq {drive head : ℕ} (hd : drive ≤ 1) (hh : head ≤ 15) :
    (0xA0 ||| drive * 16 ||| head) % 16 = head ∧
      (0xA0 ||| drive * 16 ||| head) / 16 % 2 = drive := by
  have hall : ∀ drive < 2, ∀ head < 16, (0xA0 ||| drive * 16 ||| head) % 16 = head ∧
      (0xA0 ||| drive * 16 ||| head) / 16 % 2 = drive := by decide
  exact hall drive (Nat.lt_succ_of_le hd) head (Nat.lt_succ_of_le hh)

namespace Disks

/-- The drive of a partition. -/
def driveOf (D : Disks) (dev : ℕ) : HdInfo := D.info (dev / 5)

/-- **A geometry that is one**; the sizes of the partitions are words. -/
structure Ok (D : Disks) : Prop where
  head : ∀ drive < D.nrHd, 1 ≤ (D.info drive).head ∧ (D.info drive).head ≤ 16
  sect : ∀ drive < D.nrHd, 1 ≤ (D.info drive).sect
  nrSects : ∀ dev, (D.hd dev).nrSects < 0x100000000

/-- **The registers can name all sectors of a partition**: it ends on one of the first 65536
cylinders, of at most 255 sectors a track. -/
structure Named (D : Disks) (dev : ℕ) : Prop where
  sect : (D.driveOf dev).sect ≤ 255
  cyl : (D.hd dev).startSect + (D.hd dev).nrSects ≤
    65536 * ((D.driveOf dev).head * (D.driveOf dev).sect)

/-- **A request lies inside its partition.** -/
structure Inside (D : Disks) (r : Request) : Prop where
  pos : 1 ≤ r.nrSectors
  le : r.sector + r.nrSectors ≤ (D.hd (minor r.dev)).nrSects

/-- **The first `k` sectors of a request**, each with its place. -/
def transfers (D : Disks) (r : Request) (k : ℕ) : List Transfer :=
  (List.range k).map fun i => ⟨r.cmd, minor r.dev / 5,
    (D.hd (minor r.dev)).startSect + r.sector + i, r.buffer + 512 * i⟩

theorem transfers_succ (D : Disks) (r : Request) (k : ℕ) : D.transfers r (k + 1) =
    D.transfers r k ++ [⟨r.cmd, minor r.dev / 5,
      (D.hd (minor r.dev)).startSect + r.sector + k, r.buffer + 512 * k⟩] := by
  rw [transfers, List.range_succ, List.map_append]
  rfl

end Disks

/-! ### What is kept -/

/-- **A request has come `k` sectors far.** -/
structure Progress (e : Entry) (k : ℕ) : Prop where
  lt : k < e.made.nrSectors
  sector : e.now.sector = e.made.sector + k
  buffer : e.now.buffer = e.made.buffer + 512 * k
  nrSectors : e.now.nrSectors = e.made.nrSectors - k

variable {D : Disks} {s t : State} {e : Entry} {q : List Entry}

/-- **A request that is not finished.** -/
structure EntryOk (D : Disks) (e : Entry) : Prop where
  dev : e.now.dev = e.made.dev
  cmd : e.now.cmd = e.made.cmd
  progress : D.Inside e.made → ∃ k, Progress e k ∧
    (D.Named (minor e.made.dev) → e.log = D.transfers e.made k)

/-- **A call of `hd_out` names the sector the request stands at.** -/
structure CallOk (D : Disks) (c : Call) : Prop where
  sec : 1 ≤ c.sec ∧ c.sec ≤ (D.driveOf (minor c.made.dev)).sect
  head : c.head < (D.driveOf (minor c.made.dev)).head
  eq : (c.cyl * (D.driveOf (minor c.made.dev)).head + c.head) *
      (D.driveOf (minor c.made.dev)).sect + c.sec - 1 =
    (D.hd (minor c.made.dev)).startSect + c.now.sector

/-- **What is kept** of the requests. -/
structure Core (D : Disks) (s : State) : Prop where
  queue : ∀ e ∈ s.queue, EntryOk D e
  done : ∀ e ∈ s.done, D.Inside e.made → D.Named (minor e.made.dev) →
    e.log = D.transfers e.made e.made.nrSectors
  calls : ∀ c ∈ s.calls, D.Inside c.made →
    (D.hd (minor c.made.dev)).startSect + (D.hd (minor c.made.dev)).nrSects ≤ 0x100000000 →
    CallOk D c

/-- The command goes on where the request stands. -/
structure At (D : Disks) (a : Active) (cmd : Cmd) (e : Entry) : Prop where
  cmd : e.now.cmd = cmd
  drive : a.drive = minor e.made.dev / 5
  next : a.next = (D.hd (minor e.made.dev)).startSect + e.now.sector

/-- **The command under way belongs to the first request.** -/
structure Linked (D : Disks) (s : State) : Prop where
  read : ∀ e q a, s.queue = e :: q → D.Inside e.made → D.Named (minor e.made.dev) →
    s.doHd = some .readIntr → s.active = some a → a.win = .read → At D a .read e
  write : ∀ e q a b, s.queue = e :: q → D.Inside e.made → D.Named (minor e.made.dev) →
    s.doHd = some .writeIntr → s.active = some a → a.staged = some b →
      At D a .write e ∧ b = e.now.buffer

/-- With nothing to do. -/
theorem linked_of_nil (h : s.queue = []) : Linked D s := by
  refine ⟨fun e q a hq => ?_, fun e q a b hq => ?_⟩ <;>
  · rw [h] at hq
    cases hq

/-- With a command that transfers nothing. -/
theorem linked_of_recal (h : s.doHd = some .recalIntr) : Linked D s := by
  refine ⟨fun e q a _ _ _ hdo => ?_, fun e q a b _ _ _ hdo => ?_⟩ <;>
  · rw [h] at hdo
    cases hdo

/-! ### The routines -/

theorem EntryOk.new (r : Request) : EntryOk D (.new r) :=
  ⟨rfl, rfl, fun hin => ⟨0, ⟨hin.pos, rfl, rfl, rfl⟩, fun _ => rfl⟩⟩

/-- Errors are counted. -/
theorem EntryOk.errors (h : EntryOk D e) (n : ℕ) :
    EntryOk D { e with now := { e.now with errors := n } } := by
  refine ⟨h.dev, h.cmd, fun hin => ?_⟩
  obtain ⟨k, hk, hlog⟩ := h.progress hin
  exact ⟨k, ⟨hk.lt, hk.sector, hk.buffer, hk.nrSectors⟩, hlog⟩

theorem Core.congr (h : Core D s) (hqueue : t.queue = s.queue) (hdone : t.done = s.done)
    (hcalls : t.calls = s.calls) : Core D t := by
  refine ⟨?_, ?_, ?_⟩
  · rw [hqueue]
    exact h.queue
  · rw [hdone]
    exact h.done
  · rw [hcalls]
    exact h.calls

/-- A request is ended with an error. -/
theorem Core.fail (h : Core D s) (ht : s.endRequest false = some t) : Core D t := by
  unfold State.endRequest at ht
  rcases hq : s.queue with _ | ⟨e, q⟩
  · rw [hq] at ht
    cases ht
  · rw [hq] at ht
    obtain rfl := Option.some.inj ht
    refine ⟨fun e' he' => h.queue e' ?_, h.done, h.calls⟩
    rw [hq]
    exact List.mem_cons_of_mem e he'

/-- The first request changes. -/
theorem Core.current (h : Core D s) {e' : Entry} (hq : s.queue = e :: q) (he' : EntryOk D e') :
    Core D { s with queue := e' :: q } := by
  refine ⟨fun c hc => ?_, h.done, h.calls⟩
  rcases List.mem_cons.mp hc with rfl | hc
  · exact he'
  · exact h.queue c (hq ▸ List.mem_cons_of_mem e hc)

theorem State.setCurrent_eq (hq : s.queue = e :: q) (f : Entry → Entry) :
    s.setCurrent f = { s with queue := f e :: q } := by
  unfold State.setCurrent
  rw [hq]

/-- **`bad_rw_intr`** may end the request with an error, and ask for a reset. -/
theorem Core.badRwIntr (h : Core D s) {junk : Bool} (ht : s.badRwIntr junk = some t) :
    Core D t := by
  rcases hq : s.queue with _ | ⟨e, q⟩
  · unfold State.badRwIntr at ht
    rw [hq] at ht
    cases ht
  obtain ⟨u, hu⟩ : ∃ u, u = s.setCurrent fun e =>
    { e with now := { e.now with errors := e.now.errors + 1 } } := ⟨_, rfl⟩
  have hcore : Core D u := by
    rw [hu, State.setCurrent_eq hq]
    exact h.current hq ((h.queue e (hq ▸ List.mem_cons_self)).errors _)
  -- the request stays the first one, or it is ended
  have hend : ∀ v, (if 7 ≤ e.now.errors + 1 then u.endRequest false else some u) = some v →
      Core D v := by
    intro v hv
    split at hv
    · exact hcore.fail hv
    · obtain rfl := Option.some.inj hv
      exact hcore
  unfold State.badRwIntr at ht
  rw [hq] at ht
  dsimp only at ht
  rw [← hu] at ht
  rcases hv : (if 7 ≤ e.now.errors + 1 then u.endRequest false else some u) with _ | v
  · rw [hv] at ht
    cases ht
  · rw [hv] at ht
    obtain rfl := Option.some.inj ht
    have hreset : ∀ bad : Bool, Core D (if bad then { v with reset := true } else v) := by
      intro bad
      cases bad with
      | false => exact hend v hv
      | true => exact (hend v hv).congr rfl rfl rfl
    exact hreset _

/-- **`hd_out`** sets `do_hd`, and the controller takes the command. -/
theorem hdOut_eq {ready : Bool} {drive nsect sect head cyl : ℕ} {win : Win} {h : Handler}
    (ht : s.hdOut D ready drive nsect sect head cyl win h = some t) :
    ∃ a, t = { s with doHd := some h, active := some a } ∧ a.win = win ∧ a.staged = none ∧
      a.drive = drive ∧ a.next =
        ((cyl % 256 + 256 * (cyl / 256 % 256)) * (D.info drive).head + head) *
          (D.info drive).sect + sect % 256 - 1 := by
  unfold State.hdOut at ht
  split at ht
  · cases ht
  · next hle =>
    split at ht
    · cases ht
    · obtain rfl := Option.some.inj ht
      rw [not_or, Nat.not_lt, Nat.not_lt] at hle
      obtain ⟨hhead, hdrive⟩ := current_eq hle.1 hle.2
      refine ⟨_, rfl, rfl, rfl, hdrive, ?_⟩
      change ((cyl % 256 + 256 * (cyl / 256 % 256)) *
        (D.info ((0xA0 ||| drive * 16 ||| head) / 16 % 2)).head +
        (0xA0 ||| drive * 16 ||| head) % 16) *
        (D.info ((0xA0 ||| drive * 16 ||| head) / 16 % 2)).sect + sect % 256 - 1 = _
      rw [hhead, hdrive]

/-! ### `do_hd_request` -/

/-- The block of a request inside its partition. -/
theorem block_eq (he : EntryOk D e) (hin : D.Inside e.made)
    (hle : (D.hd (minor e.made.dev)).startSect + (D.hd (minor e.made.dev)).nrSects ≤
      0x100000000) :
    (e.now.sector + (D.hd (minor e.now.dev)).startSect) % 0x100000000 =
      (D.hd (minor e.made.dev)).startSect + e.now.sector ∧
    e.now.sector < (D.hd (minor e.made.dev)).nrSects := by
  obtain ⟨k, hk, -⟩ := he.progress hin
  have hsector := hk.sector
  have hlt := hk.lt
  have hsize := hin.le
  rw [he.dev]
  omega

/-- **The registers name the block**, if they can. -/
theorem named_eq {block sect heads : ℕ} (hpos : 1 ≤ sect) (hsect : sect ≤ 255)
    (hcyl : block < 65536 * (heads * sect)) :
    ((block / sect / heads % 256 + 256 * (block / sect / heads / 256 % 256)) * heads +
      block / sect % heads) * sect + (block % sect + 1) % 256 - 1 = block := by
  have hlt : block / sect / heads < 65536 := by
    rw [Nat.div_div_eq_div_mul]
    refine Nat.div_lt_of_lt_mul ?_
    rwa [Nat.mul_comm sect, Nat.mul_comm _ 65536]
  have hmod : block % sect < sect := Nat.mod_lt _ hpos
  have hbytes : ∀ cyl < 65536, cyl % 256 + 256 * (cyl / 256 % 256) = cyl := by
    intro cyl hcyl
    omega
  have hcyls := hbytes _ hlt
  rw [hcyls, Nat.mod_eq_of_lt (show block % sect + 1 < 256 by omega)]
  exact chs_eq block sect heads

section Command

variable (hD : D.Ok) (he : EntryOk D e) (hdev : minor e.now.dev < 5 * D.nrHd)
  (hin : D.Inside e.made) {block : ℕ}
  (hblock : block = (e.now.sector + (D.hd (minor e.now.dev)).startSect) % 0x100000000)

include hD he hdev hin hblock

/-- **The sector, head and cylinder** that are given to `hd_out`. -/
theorem callOk_of_block
    (hle : (D.hd (minor e.made.dev)).startSect + (D.hd (minor e.made.dev)).nrSects ≤
      0x100000000) :
    CallOk D ⟨e.made, e.now, block % (D.info (minor e.now.dev / 5)).sect + 1,
      block / (D.info (minor e.now.dev / 5)).sect % (D.info (minor e.now.dev / 5)).head,
      block / (D.info (minor e.now.dev / 5)).sect / (D.info (minor e.now.dev / 5)).head⟩ := by
  have hdrive : minor e.now.dev / 5 < D.nrHd := by omega
  have hsect := hD.sect _ hdrive
  have hhead := (hD.head _ hdrive).1
  have hplace := (block_eq he hin hle).1
  rw [← hblock] at hplace
  rw [he.dev] at hsect hhead ⊢
  refine ⟨⟨Nat.succ_pos _, Nat.mod_lt _ hsect⟩, Nat.mod_lt _ hhead, ?_⟩
  exact (chs_eq _ _ _).trans hplace

/-- **The sector the registers name** is the one the request stands at. -/
theorem next_of_block (hnamed : D.Named (minor e.made.dev)) :
    ((block / (D.info (minor e.now.dev / 5)).sect / (D.info (minor e.now.dev / 5)).head % 256 +
      256 * (block / (D.info (minor e.now.dev / 5)).sect / (D.info (minor e.now.dev / 5)).head /
        256 % 256)) * (D.info (minor e.now.dev / 5)).head +
      block / (D.info (minor e.now.dev / 5)).sect % (D.info (minor e.now.dev / 5)).head) *
        (D.info (minor e.now.dev / 5)).sect +
      (block % (D.info (minor e.now.dev / 5)).sect + 1) % 256 - 1 =
    (D.hd (minor e.made.dev)).startSect + e.now.sector := by
  have hdrive : minor e.made.dev / 5 < D.nrHd := by
    rw [← he.dev]
    omega
  have hsect := hnamed.sect
  have hcyl := hnamed.cyl
  -- the partition ends below 65536 * 16 * 255
  have hsmall : (D.driveOf (minor e.made.dev)).head * (D.driveOf (minor e.made.dev)).sect ≤
      16 * 255 := Nat.mul_le_mul (hD.head _ hdrive).2 hsect
  obtain ⟨hplace, hlt⟩ := block_eq he hin (by omega)
  rw [← hblock] at hplace
  rw [he.dev, ← hplace]
  refine named_eq (hD.sect _ hdrive) hsect ?_
  rw [hplace]
  exact lt_of_lt_of_le (Nat.add_lt_add_left hlt _) hcyl

end Command

/-- What is kept by a round. -/
def RoundOk (D : Disks) : Round → Prop
  | .ret t => Core D t ∧ Linked D t
  | .repeat_ t => Core D t
  | .panic => True

theorem RoundOk.of {o : Option State} {f : State → Round} (h : ∀ t, o = some t → RoundOk D (f t)) :
    RoundOk D (Round.of f o) := by
  rcases o with _ | t
  · trivial
  · exact h t rfl

/-- **A round of `do_hd_request`.** -/
theorem Core.round (hD : D.Ok) (h : Core D s) (a : Answers) :
    RoundOk D (Hd.round D a s) := by
  unfold Hd.round
  rcases hq : s.queue with _ | ⟨e, q⟩
  · exact ⟨h, linked_of_nil hq⟩
  have he := h.queue e (hq ▸ List.mem_cons_self)
  dsimp only
  split
  · trivial
  split
  · exact RoundOk.of fun t ht => h.fail ht
  next hrange =>
  have hdev : minor e.now.dev < 5 * D.nrHd := by omega
  split
  · refine RoundOk.of fun t ht => ?_
    obtain ⟨c, rfl, -⟩ := hdOut_eq ht
    exact ⟨h.congr hq.symm rfl rfl, linked_of_recal rfl⟩
  split
  · refine RoundOk.of fun t ht => ?_
    obtain ⟨c, rfl, -⟩ := hdOut_eq ht
    exact ⟨h.congr hq.symm rfl rfl, linked_of_recal rfl⟩
  obtain ⟨block, hblock⟩ : ∃ block, block =
    (e.now.sector + (D.hd (minor e.now.dev)).startSect) % 0x100000000 := ⟨_, rfl⟩
  rw [← hblock]
  obtain ⟨c, hc⟩ : ∃ c : Call, c = ⟨e.made, e.now,
      block % (D.info (minor e.now.dev / 5)).sect + 1,
      block / (D.info (minor e.now.dev / 5)).sect % (D.info (minor e.now.dev / 5)).head,
      block / (D.info (minor e.now.dev / 5)).sect / (D.info (minor e.now.dev / 5)).head⟩ := ⟨_, rfl⟩
  rw [← hc]
  have hcore : ∀ t : State, t.queue = e :: q → t.done = s.done → t.calls = c :: s.calls →
      Core D t := by
    intro t htq hdone hcalls
    refine Core.congr (s := { s with calls := c :: s.calls }) ?_ (htq.trans hq.symm) hdone hcalls
    refine ⟨h.queue, h.done, fun c' hc' hin hle => ?_⟩
    rcases List.mem_cons.mp hc' with rfl | hc'
    · rw [hc] at hin hle ⊢
      exact callOk_of_block hD he hdev hin hblock hle
    · exact h.calls c' hc' hin hle
  have hnext := next_of_block hD he hdev
  rcases hcmd : e.now.cmd with _ | _
  · -- read: the controller goes on where the request stands
    refine RoundOk.of fun t ht => ?_
    obtain ⟨b, rfl, hwin, hstaged, hdrive, hb⟩ := hdOut_eq ht
    refine ⟨hcore _ rfl rfl rfl, ?_, ?_⟩
    · intro e' q' b' hq' hin hnamed _ hb' _
      obtain ⟨rfl, rfl⟩ := List.cons.inj hq'
      obtain rfl := Option.some.inj hb'
      refine ⟨hcmd, ?_, hb.trans (hnext hin hblock hnamed)⟩
      rw [hdrive, he.dev]
    · intro e' q' b' _ _ _ _ hdo
      cases hdo
  · refine RoundOk.of fun t ht => ?_
    obtain ⟨b, rfl, hwin, hstaged, hdrive, hb⟩ := hdOut_eq ht
    split
    · -- the first sector's data is put out
      refine ⟨hcore _ rfl rfl rfl, ?_, ?_⟩
      · intro e' q' b' _ _ _ hdo
        cases hdo
      · intro e' q' b' d hq' hin hnamed _ hb' hd
        obtain ⟨rfl, rfl⟩ := List.cons.inj hq'
        obtain rfl := Option.some.inj hb'
        refine ⟨⟨hcmd, ?_, hb.trans (hnext hin hblock hnamed)⟩, (Option.some.inj hd).symm⟩
        exact hdrive.trans (by rw [he.dev])
    · refine RoundOk.of fun u hu => ?_
      have hbad := fun hc => Core.badRwIntr (D := D) hc hu
      exact hbad (hcore _ rfl rfl rfl)

/-- **`do_hd_request`.** -/
theorem Core.doHdRequest (hD : D.Ok) (ht : DoHdRequest D s t) (h : Core D s) :
    Core D t ∧ Linked D t := by
  induction ht with
  | ret a hround =>
    have hkept := h.round hD a
    rw [hround] at hkept
    exact hkept
  | repeat_ a hround _ ih =>
    have hkept := h.round hD a
    rw [hround] at hkept
    exact ih hkept

/-! ### The interrupt -/

/-- **One sector further**: what is transferred where the request stands comes next. -/
theorem Progress.log_succ {k : ℕ} (he : EntryOk D e) (hk : Progress e k)
    (hlog : e.log = D.transfers e.made k) :
    e.log ++ [⟨e.now.cmd, minor e.made.dev / 5,
      (D.hd (minor e.made.dev)).startSect + e.now.sector, e.now.buffer⟩] =
    D.transfers e.made (k + 1) := by
  rw [Disks.transfers_succ, ← hlog, he.cmd, hk.sector, hk.buffer, Nat.add_assoc]

/-- The controller goes on with it. -/
theorem At.advance (hD : D.Ok) (he : EntryOk D e) (hin : D.Inside e.made) {a : Active} {cmd : Cmd}
    (hat : At D a cmd e) {e' : Entry} (hmade : e'.made = e.made) (errors : ℕ)
    (hnow : e'.now = State.moveOn { e.now with errors := errors }) :
    At D a.advance cmd e' := by
  obtain ⟨k, hk, -⟩ := he.progress hin
  have hsize := hD.nrSects (minor e.made.dev)
  have hle := hin.le
  have hlt := hk.lt
  have hsector := hk.sector
  refine ⟨?_, ?_, ?_⟩
  · rw [hnow]
    exact hat.cmd
  · rw [hmade]
    exact hat.drive
  · rw [hnow, hmade]
    change a.next + 1 = _ + (e.now.sector + 1) % 0x100000000
    rw [hat.next, Nat.mod_eq_of_lt (by omega)]
    rfl

section Moved

variable (hD : D.Ok) (he : EntryOk D e) {e' : Entry} (hmade : e'.made = e.made)
  (hlog : D.Inside e.made → D.Named (minor e.made.dev) → e'.log = e.log ++
    [⟨e.now.cmd, minor e.made.dev / 5, (D.hd (minor e.made.dev)).startSect + e.now.sector,
      e.now.buffer⟩])

include hD he hmade hlog

/-- The request goes on. -/
theorem EntryOk.moved (errors : ℕ) (hnow : e'.now = State.moveOn { e.now with errors := errors })
    (hleft : (State.moveOn e.now).nrSectors ≠ 0) : EntryOk D e' := by
  refine ⟨?_, ?_, ?_⟩
  · rw [hnow, hmade]
    exact he.dev
  · rw [hnow, hmade]
    exact he.cmd
  · rw [hmade]
    intro hin
    obtain ⟨k, hk, hklog⟩ := he.progress hin
    have hsize := hD.nrSects (minor e.made.dev)
    have hle := hin.le
    have hlt := hk.lt
    change (e.now.nrSectors + 0xffffffff) % 0x100000000 ≠ 0 at hleft
    rw [hk.nrSectors] at hleft
    refine ⟨k + 1, ⟨?_, ?_, ?_, ?_⟩, fun hnamed => ?_⟩
    · rw [hmade]
      omega
    · rw [hnow, hmade]
      change (e.now.sector + 1) % 0x100000000 = _
      rw [hk.sector]
      omega
    · rw [hnow, hmade]
      change e.now.buffer + 512 = _
      rw [hk.buffer]
      omega
    · rw [hnow, hmade]
      change (e.now.nrSectors + 0xffffffff) % 0x100000000 = _
      rw [hk.nrSectors]
      omega
    · rw [hlog hin hnamed]
      exact hk.log_succ he (hklog hnamed)

/-- The request has been transferred as a whole. -/
theorem EntryOk.finished (hleft : (State.moveOn e.now).nrSectors = 0) (hin : D.Inside e'.made)
    (hnamed : D.Named (minor e'.made.dev)) :
    e'.log = D.transfers e'.made e'.made.nrSectors := by
  rw [hmade] at hin hnamed ⊢
  obtain ⟨k, hk, hklog⟩ := he.progress hin
  have hsize := hD.nrSects (minor e.made.dev)
  have hle := hin.le
  have hlt := hk.lt
  change (e.now.nrSectors + 0xffffffff) % 0x100000000 = 0 at hleft
  rw [hk.nrSectors] at hleft
  have hlast : k + 1 = e.made.nrSectors := by omega
  rw [hlog hin hnamed, hk.log_succ he (hklog hnamed), hlast]

end Moved

/-- What is kept by the routine in `do_hd`, which may end with `do_hd_request`. -/
def Kept (D : Disks) : Bool × State → Prop
  | (true, t) => Core D t
  | (false, t) => Core D t ∧ Linked D t

variable {junk : Bool} {r : Bool × State} {a : Active}

/-- After an error. -/
theorem Core.bad (h : Core D s) (hr : ((s.badRwIntr junk).map fun s => (true, s)) = some r) :
    Kept D r := by
  obtain ⟨t, ht, rfl⟩ := Option.map_eq_some_iff.mp hr
  exact h.badRwIntr ht

/-- A request is ended as it should. -/
theorem Core.finish (h : Core D s) {e' : Entry} (hq : s.queue = e :: q)
    (hlog : D.Inside e'.made → D.Named (minor e'.made.dev) →
      e'.log = D.transfers e'.made e'.made.nrSectors)
    (hqueue : t.queue = e' :: q) (hdone : t.done = s.done) (hcalls : t.calls = s.calls)
    (hr : ((t.endRequest true).map fun s => (true, s)) = some r) : Kept D r := by
  obtain ⟨u, hu, rfl⟩ := Option.map_eq_some_iff.mp hr
  unfold State.endRequest at hu
  rw [hqueue] at hu
  obtain rfl := Option.some.inj hu
  refine ⟨fun c hc => ?_, fun c hc => ?_, ?_⟩
  · exact h.queue c (hq ▸ List.mem_cons_of_mem e hc)
  · rcases List.mem_cons.mp hc with rfl | hc
    · exact hlog
    · exact h.done c (hdone ▸ hc)
  · exact hcalls ▸ h.calls

theorem portRead_eq (hq : s.queue = e :: q) (ha : s.active = some a) : s.portRead =
    { s with
      queue := { e with log := e.log ++ [⟨.read, a.drive, a.next, e.now.buffer⟩] } :: q
      active := some a.advance } := by
  unfold State.portRead
  rw [ha]
  dsimp only
  rw [State.setCurrent_eq hq]

theorem written_eq {b : ℕ} (hq : s.queue = e :: q) (ha : s.active = some a)
    (hb : a.staged = some b) : s.written =
    { s with
      queue := { e with log := e.log ++ [⟨.write, a.drive, a.next, b⟩] } :: q
      active := some a.advance } := by
  unfold State.written
  rw [ha]
  dsimp only
  rw [hb]
  dsimp only
  rw [State.setCurrent_eq hq]

/-- **`read_intr`.** -/
theorem Core.readIntr (hD : D.Ok) (h : Core D s) (hq : s.queue = e :: q) (ha : s.active = some a)
    (hat : D.Inside e.made → D.Named (minor e.made.dev) → At D a .read e)
    (hr : s.readIntr false junk = some r) : Kept D r := by
  have he := h.queue e (hq ▸ List.mem_cons_self)
  unfold State.readIntr at hr
  rw [if_neg Bool.false_ne_true, hq] at hr
  dsimp only at hr
  rw [portRead_eq hq ha, State.setCurrent_eq rfl] at hr
  obtain ⟨e', he'⟩ : ∃ e' : Entry, e' = ⟨e.made, State.moveOn { e.now with errors := 0 },
    e.log ++ [⟨.read, a.drive, a.next, e.now.buffer⟩]⟩ := ⟨_, rfl⟩
  rw [← he'] at hr
  have hlog : D.Inside e.made → D.Named (minor e.made.dev) → e'.log = e.log ++
      [⟨e.now.cmd, minor e.made.dev / 5, (D.hd (minor e.made.dev)).startSect + e.now.sector,
        e.now.buffer⟩] := by
    intro hin hnamed
    have hhere := hat hin hnamed
    rw [he', hhere.cmd, ← hhere.drive, ← hhere.next]
  have hmade : e'.made = e.made := by rw [he']
  split at hr
  · next hleft =>
    obtain rfl := Option.some.inj hr
    have hmoved := he.moved hD hmade hlog 0 (by rw [he']) hleft
    refine ⟨(h.current hq hmoved).congr rfl rfl rfl, ?_, ?_⟩
    · intro c q' b hq' hin hnamed _ hb _
      obtain ⟨rfl, rfl⟩ := List.cons.inj hq'
      obtain rfl := Option.some.inj hb
      rw [hmade] at hin hnamed
      exact (hat hin hnamed).advance hD he hin hmade 0 (by rw [he'])
    · intro c q' b d _ _ _ hw
      cases hw
  · next hleft =>
    refine h.finish hq (he.finished hD hmade hlog (not_not.mp hleft)) ?_ ?_ ?_ hr
    · rfl
    · rfl
    · rfl

/-- **`write_intr`**, after the data of a sector has been written. -/
theorem Core.writeIntr (hD : D.Ok) (h : Core D s) (hq : s.queue = e :: q) {b : ℕ}
    (ha : s.active = some a) (hb : a.staged = some b)
    (hat : D.Inside e.made → D.Named (minor e.made.dev) → At D a .write e ∧ b = e.now.buffer)
    (hr : s.written.writeIntr false junk = some r) : Kept D r := by
  have he := h.queue e (hq ▸ List.mem_cons_self)
  have hlog : D.Inside e.made → D.Named (minor e.made.dev) →
      e.log ++ [⟨.write, a.drive, a.next, b⟩] = e.log ++
      [⟨e.now.cmd, minor e.made.dev / 5, (D.hd (minor e.made.dev)).startSect + e.now.sector,
        e.now.buffer⟩] := by
    intro hin hnamed
    obtain ⟨hhere, hbuffer⟩ := hat hin hnamed
    rw [hhere.cmd, ← hhere.drive, ← hhere.next, hbuffer]
  rw [written_eq hq ha hb] at hr
  unfold State.writeIntr at hr
  rw [if_neg Bool.false_ne_true] at hr
  dsimp only at hr
  split at hr
  · next hleft =>
    rw [State.setCurrent_eq rfl] at hr
    obtain rfl := Option.some.inj hr
    have hmoved : EntryOk D ⟨e.made, State.moveOn e.now,
        e.log ++ [⟨.write, a.drive, a.next, b⟩]⟩ := he.moved hD rfl hlog e.now.errors rfl hleft
    refine ⟨(h.current hq hmoved).congr rfl rfl rfl, ?_, ?_⟩
    · intro c q' b' _ _ _ hr
      cases hr
    · intro c q' b' d hq' hin hnamed _ hb' hd
      obtain ⟨rfl, rfl⟩ := List.cons.inj hq'
      obtain rfl := Option.some.inj hb'
      refine ⟨?_, (Option.some.inj hd).symm⟩
      have hnext : At D a.advance .write ⟨e.made, State.moveOn e.now,
          e.log ++ [⟨.write, a.drive, a.next, b⟩]⟩ :=
        (hat hin hnamed).1.advance hD he hin rfl e.now.errors rfl
      exact ⟨hnext.cmd, hnext.drive, hnext.next⟩
  · next hleft =>
    rw [State.setCurrent_eq rfl] at hr
    obtain ⟨e', he'⟩ : ∃ e' : Entry, e' = ⟨e.made, { e.now with nrSectors := 0 },
      e.log ++ [⟨.write, a.drive, a.next, b⟩]⟩ := ⟨_, rfl⟩
    rw [← he'] at hr
    have hmade : e'.made = e.made := by rw [he']
    refine h.finish hq (he.finished hD hmade ?_ (not_not.mp hleft)) ?_ ?_ ?_ hr
    · rw [he']
      exact hlog
    · rfl
    · rfl
    · rfl

/-- **The routine in `do_hd`**, on a good interrupt or a bad one. -/
theorem Core.handle (hD : D.Ok) (h : Core D s) (hlinked : Linked D s) {hh : Handler} {bad : Bool}
    (hdo : s.doHd = some hh) (hdue : bad = false → s.Due hh)
    (hr : s.handle hh bad junk = some r) : Kept D r := by
  unfold State.handle at hr
  cases bad with
  | true =>
    have hcore : Core D { s with doHd := none, active := none } := h.congr rfl rfl rfl
    cases hh with
    | readIntr => exact hcore.bad hr
    | writeIntr => exact hcore.bad hr
    | recalIntr => exact hcore.bad hr
  | false =>
    have hcore : Core D { s with doHd := none } := h.congr rfl rfl rfl
    have hcurrent := hdue rfl
    cases hh with
    | recalIntr =>
      obtain rfl := Option.some.inj hr
      exact hcore
    | readIntr =>
      obtain ⟨a, ha, hwin, -⟩ := hcurrent
      rcases hq : s.queue with _ | ⟨e, q⟩
      · unfold State.settle State.readIntr at hr
        simp [hq] at hr
      · exact hcore.readIntr hD hq ha
          (fun hin hnamed => hlinked.read e q a hq hin hnamed hdo ha hwin) hr
    | writeIntr =>
      obtain ⟨a, b, ha, hwin, -, hb⟩ := hcurrent
      rcases hq : s.queue with _ | ⟨e, q⟩
      · unfold State.settle State.written State.setCurrent State.writeIntr at hr
        simp [hq, ha, hb] at hr
      · exact hcore.writeIntr hD hq ha hb
          (fun hin hnamed => hlinked.write e q a b hq hin hnamed hdo ha hb) hr

/-! ### Runs -/

/-- **A step keeps it.** -/
theorem Core.step (hD : D.Ok) (h : Core D s) (hlinked : Linked D s) (hs : Step D s t) :
    Core D t ∧ Linked D t := by
  cases hs with
  | @add e q₁ q₂ r hq =>
    refine ⟨⟨fun c hc => ?_, h.done, h.calls⟩, ?_, ?_⟩
    · have hmem : c ∈ s.queue ∨ c = .new r := by
        rw [hq]
        simp only [List.mem_cons, List.mem_append] at hc ⊢
        tauto
      rcases hmem with hc | rfl
      · exact h.queue c hc
      · exact EntryOk.new r
    · intro c q a hq' hin hnamed hdo ha hwin
      obtain ⟨rfl, -⟩ := List.cons.inj hq'
      exact hlinked.read e _ a hq hin hnamed hdo ha hwin
    · intro c q a b hq' hin hnamed hdo ha hb
      obtain ⟨rfl, -⟩ := List.cons.inj hq'
      exact hlinked.write e _ a b hq hin hnamed hdo ha hb
  | first r hq hnext =>
    refine Core.doHdRequest hD hnext ⟨fun c hc => ?_, h.done, h.calls⟩
    obtain rfl := List.mem_singleton.mp hc
    exact EntryOk.new r
  | interrupt bad junk hh hdue ht => exact h.handle hD hlinked hh hdue ht
  | interruptNext bad junk hh hdue ht hnext =>
    have hkept : Kept D (true, _) := h.handle hD hlinked hh hdue ht
    exact Core.doHdRequest hD hnext hkept

/-- **Every sector in its place.** In every run, of a request that was ended as it should all
sectors have been transferred, each from or to its place, and no others; and what is given to
`hd_out` with a command to read or write is the sector the request stands at. -/
theorem transfers_in_place (hD : D.Ok) (h : Reachable State.Start (Step D) s) :
    (∀ e ∈ s.done, D.Inside e.made → D.Named (minor e.made.dev) →
      e.log = D.transfers e.made e.made.nrSectors) ∧
    ∀ c ∈ s.calls, D.Inside c.made →
      (D.hd (minor c.made.dev)).startSect + (D.hd (minor c.made.dev)).nrSects ≤ 0x100000000 →
      CallOk D c := by
  have hstart : ∀ s, State.Start s → Core D s ∧ Linked D s := by
    intro s hs
    refine ⟨⟨?_, ?_, ?_⟩, linked_of_nil hs.queue⟩
    · simp [hs.queue]
    · simp [hs.done]
    · simp [hs.calls]
  obtain ⟨hcore, -⟩ : Core D s ∧ Linked D s :=
    h.inv hstart fun s t hs hstep => hs.1.step hD hs.2 hstep
  exact ⟨hcore.done, hcore.calls⟩

/-! ### A drive of one sector a cylinder -/

/-- The partition starts at `start`. -/
def thinDisk (start : ℕ) : Disks := ⟨1, fun _ => ⟨1, 1, 0, 0, 0⟩, fun _ => ⟨start, 3⟩⟩

theorem thinDisk_ok (start : ℕ) : (thinDisk start).Ok :=
  ⟨fun _ _ => ⟨le_rfl, show 1 ≤ 16 by decide⟩, fun _ _ => le_rfl,
    fun _ => show 3 < 0x100000000 by decide⟩

/-- Two sectors are to be read. -/
def readTwo (sector : ℕ) : Request := ⟨0x301, .read, 0, sector, 2, 0x1000, 0, none⟩

/-- The controller is ready. -/
def prompt : Answers := ⟨true, true, false⟩

/-- After the reset and the recalibration the command is given. -/
theorem reachable_command (start sector : ℕ) {s₁ s₂ s₃ : State}
    (h₁ : round (thinDisk start) prompt ⟨true, true, none, [.new (readTwo sector)], none, [], []⟩ =
      .ret s₁) (hdo₁ : s₁.doHd = some .recalIntr)
    (h₂ : round (thinDisk start) prompt { s₁ with doHd := none } = .ret s₂)
    (hdo₂ : s₂.doHd = some .recalIntr)
    (h₃ : round (thinDisk start) prompt { s₂ with doHd := none } = .ret s₃) :
    Reachable State.Start (Step (thinDisk start)) s₃ := by
  have hfirst : Reachable State.Start (Step (thinDisk start)) s₁ :=
    (Reachable.start (s := ⟨true, true, none, [], none, [], []⟩)
      ⟨rfl, rfl, rfl, rfl, rfl, rfl, rfl⟩).next (Step.first (readTwo sector) rfl (.ret prompt h₁))
  have hreset : Reachable State.Start (Step (thinDisk start)) s₂ :=
    hfirst.next (.interruptNext false false hdo₁ (fun _ => trivial) rfl (.ret prompt h₂))
  exact hreset.next (.interruptNext false false hdo₂ (fun _ => trivial) rfl (.ret prompt h₃))

/-- The two sectors come. -/
theorem reachable_done (start : ℕ) {s₃ s₄ s₅ : State} {a : Active}
    (h : Reachable State.Start (Step (thinDisk start)) s₃) (hdo₃ : s₃.doHd = some .readIntr)
    (ha : s₃.active = some a) (hwin : a.win = .read) (hleft : a.left = 2)
    (h₄ : s₃.handle .readIntr false false = some (false, s₄)) (hdo₄ : s₄.doHd = some .readIntr)
    (ha₄ : s₄.active = some a.advance)
    (h₅ : s₄.handle .readIntr false false = some (true, s₅)) (hq : s₅.queue = []) :
    Reachable State.Start (Step (thinDisk start)) s₅ := by
  have hone : Reachable State.Start (Step (thinDisk start)) s₄ :=
    h.next (.interrupt false false hdo₃ (fun _ => ⟨a, ha, hwin, by omega⟩) h₄)
  refine hone.next (.interruptNext false false hdo₄ (fun _ => ⟨a.advance, ha₄, hwin, ?_⟩) h₅
    (.ret prompt ?_))
  · show 0 < a.left - 1
    omega
  · unfold round
    rw [hq]

theorem transfers_in_place_thinDisk : ∃ s e, Reachable State.Start (Step (thinDisk 70)) s ∧
    s.done = [e] ∧ e.made = readTwo 0 ∧ e.log = (thinDisk 70).transfers (readTwo 0) 2 := by
  have hread := reachable_command 70 0 rfl rfl rfl rfl rfl
  have hdone := reachable_done 70 hread rfl rfl rfl rfl rfl rfl rfl rfl rfl
  have hinside : (thinDisk 70).Inside (readTwo 0) := ⟨by decide, by decide⟩
  have hnamed : (thinDisk 70).Named (minor (readTwo 0).dev) := ⟨by decide, by decide⟩
  have hplace := (transfers_in_place (thinDisk_ok 70) hdone).1 _ List.mem_cons_self hinside hnamed
  exact ⟨_, _, hdone, rfl, rfl, hplace⟩

/-- **Not every sector is in its place.** The partition of a thin disk that starts at cylinder 65536
is read from cylinder 0; and one that starts at the last sector goes on at sector 0. -/
theorem not_inPlace :
    (¬∀ D : Disks, D.Ok → ∀ s, Reachable State.Start (Step D) s → ∀ e ∈ s.done, D.Inside e.made →
      e.log = D.transfers e.made e.made.nrSectors) ∧
    ¬∀ D : Disks, D.Ok → ∀ s, Reachable State.Start (Step D) s → ∀ c ∈ s.calls, D.Inside c.made →
      CallOk D c := by
  constructor
  · intro hall
    have hread := reachable_command 65536 0 rfl rfl rfl rfl rfl
    have hdone := reachable_done 65536 hread rfl rfl rfl rfl rfl rfl rfl rfl rfl
    have hplace := hall _ (thinDisk_ok 65536) _ hdone _ List.mem_cons_self ⟨by decide, by decide⟩
    exact absurd hplace (by decide)
  · intro hall
    have hread := reachable_command 0xffffffff 1 rfl rfl rfl rfl rfl
    have hcall := (hall _ (thinDisk_ok 0xffffffff) _ hread _ List.mem_cons_self
      ⟨by decide, by decide⟩).eq
    exact absurd hcall (by decide)

end Linux011.Hd

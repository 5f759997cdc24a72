import Linux011.Lib.Run
import Linux011.Pipe.Ring

/-!
# When the copies sleep

`put_fs_byte` and `get_fs_byte` may fault on a page of the user that has not been loaded yet,
and sleep. Both routines move their index before they copy, so that a chunk that is being
copied has been given away already: one `read_pipe` and one `write_pipe` on a pipe, a byte at
a time, can be in the middle of the same bytes. They are not as long as no chunk is begun over
places that the other call is still copying (`Linux011.Pipe.Pair.Apart`); and where one is, a run
from there goes wrong.
-/

namespace Linux011.Pipe

/-! ### A reader and a writer, byte by byte -/

/-- **Where a call is**: at the head of its loop; about to copy the place `size`, the first of
`chars` that are left; or back with a value. -/
inductive Pc
  | loop (buf : ℕ) (count done : ℤ)
  | copy (size buf chars : ℕ) (count done : ℤ)
  | returned (value : ℤ)

/-- The places of the page that the call has taken or announced, and has not copied. -/
def Pc.Covers : Pc → ℕ → Prop
  | .loop .., _ => False
  | .copy size _ chars _ _, i => size ≤ i ∧ i < size + chars
  | .returned _, _ => False

/-- **One `read_pipe` and one `write_pipe`**, with the buffers of the callers. -/
structure Pair where
  ring : Ring
  reader : Pc
  writer : Pc
  readBuf : ℕ → UInt8
  writeBuf : ℕ → UInt8

namespace Pair

variable (s : Pair)

/-- `read_pipe` goes on, to the next byte it copies; `none` while it sleeps. -/
def readStep : Option Pair :=
  match s.reader with
  | .loop buf count done =>
    if count ≤ 0 then some { s with reader := .returned done }
    else if s.ring.size = 0 then
      if s.ring.count ≠ 2 then some { s with reader := .returned done } else none
    else
      let chars := s.ring.readChars count
      some { s with
        ring := s.ring.advanceTail chars
        reader := .copy s.ring.tail buf chars.toNat (count - chars) (done + chars) }
  | .copy _ buf 0 count done => some { s with reader := .loop buf count done }
  | .copy size buf (chars + 1) count done =>
    some { s with
      readBuf := Function.update s.readBuf buf (s.ring.page size)
      reader := .copy (size + 1) (buf + 1) chars count done }
  | .returned _ => none

/-- `write_pipe` goes on, to the next byte it copies; `none` while it sleeps. -/
def writeStep : Option Pair :=
  match s.writer with
  | .loop buf count done =>
    if count ≤ 0 then some { s with writer := .returned done }
    else if s.ring.room = 0 then
      if s.ring.count ≠ 2 then
        some { s with writer := .returned (if done ≠ 0 then done else -1) }
      else none
    else
      let chars := s.ring.writeChars count
      some { s with
        ring := s.ring.advanceHead chars
        writer := .copy s.ring.head buf chars.toNat (count - chars) (done + chars) }
  | .copy _ buf 0 count done => some { s with writer := .loop buf count done }
  | .copy size buf (chars + 1) count done =>
    some { s with
      ring := s.ring.store size (s.writeBuf buf)
      writer := .copy (size + 1) (buf + 1) chars count done }
  | .returned _ => none

/-- **`write_pipe` is about to store** into a place that `read_pipe` has taken and has not
copied out. -/
def Overwrites : Prop :=
  ∃ size buf chars count done, s.writer = .copy size buf (chars + 1) count done ∧
    s.reader.Covers size

/-- **`read_pipe` is about to copy out** a place that `write_pipe` has announced and has not
filled. -/
def CopiesUnfilled : Prop :=
  ∃ size buf chars count done, s.reader = .copy size buf (chars + 1) count done ∧
    s.writer.Covers size

/-- The places of a chunk that `read_pipe` takes are not being filled. -/
def ReadsApart : Prop :=
  ∀ buf count done i, s.reader = .loop buf count done → 0 < count → s.ring.size ≠ 0 →
    s.ring.tail ≤ i → (i : ℤ) < s.ring.tail + s.ring.readChars count → ¬s.writer.Covers i

/-- The places of a chunk that `write_pipe` announces are not being copied out. -/
def WritesApart : Prop :=
  ∀ buf count done i, s.writer = .loop buf count done → 0 < count → s.ring.room ≠ 0 →
    s.ring.head ≤ i → (i : ℤ) < s.ring.head + s.ring.writeChars count → ¬s.reader.Covers i

/-- **A step**: one of the two goes on, where that is let through. -/
inductive Step (readOk writeOk : Pair → Prop) (s : Pair) : Pair → Prop
  | read {s' : Pair} (hok : readOk s) (hs : s.readStep = some s') : Step readOk writeOk s s'
  | write {s' : Pair} (hok : writeOk s) (hs : s.writeStep = some s') : Step readOk writeOk s s'

/-- Both have been called, on any pipe and with any counts. -/
def Start : Prop := s.ring.Ok ∧ (∃ buf count, s.reader = .loop buf count 0) ∧
  ∃ buf count, s.writer = .loop buf count 0

/-- **What is being copied** is copied by one of the two. -/
def Apart : Prop := ∀ i, ¬(s.reader.Covers i ∧ s.writer.Covers i)

end Pair

variable {s s' : Pair}

/-! ### What the two do -/

/-- `read_pipe` covers less after a step, or has begun a chunk. -/
theorem readStep_covers (hs : s.readStep = some s') : s'.writer = s.writer ∧
    ∀ i, s'.reader.Covers i → s.reader.Covers i ∨
      ∃ buf count done, s.reader = .loop buf count done ∧ 0 < count ∧ s.ring.size ≠ 0 ∧
        s.ring.tail ≤ i ∧ (i : ℤ) < s.ring.tail + s.ring.readChars count := by
  unfold Pair.readStep at hs
  cases hr : s.reader with
  | loop buf count done =>
    rw [hr] at hs
    dsimp only at hs
    split at hs
    · obtain rfl := Option.some.inj hs
      exact ⟨rfl, fun i hi => hi.elim⟩
    · next hpos =>
      split at hs
      · split at hs
        · obtain rfl := Option.some.inj hs
          exact ⟨rfl, fun i hi => hi.elim⟩
        · cases hs
      · next hsize =>
        obtain rfl := Option.some.inj hs
        refine ⟨rfl, fun i hi => Or.inr ⟨buf, count, done, rfl, Int.not_le.mp hpos, hsize, ?_⟩⟩
        obtain ⟨hle, hlt⟩ : s.ring.tail ≤ i ∧ i < s.ring.tail + (s.ring.readChars count).toNat := hi
        omega
  | copy size buf chars count done =>
    rw [hr] at hs
    cases chars with
    | zero =>
      obtain rfl := Option.some.inj hs
      exact ⟨rfl, fun i hi => hi.elim⟩
    | succ chars =>
      obtain rfl := Option.some.inj hs
      refine ⟨rfl, fun i hi => Or.inl ?_⟩
      obtain ⟨hle, hlt⟩ : size + 1 ≤ i ∧ i < size + 1 + chars := hi
      change size ≤ i ∧ i < size + (chars + 1)
      omega
  | returned v =>
    rw [hr] at hs
    cases hs

/-- `write_pipe` covers less after a step, or has begun a chunk. -/
theorem writeStep_covers (hs : s.writeStep = some s') : s'.reader = s.reader ∧
    ∀ i, s'.writer.Covers i → s.writer.Covers i ∨
      ∃ buf count done, s.writer = .loop buf count done ∧ 0 < count ∧ s.ring.room ≠ 0 ∧
        s.ring.head ≤ i ∧ (i : ℤ) < s.ring.head + s.ring.writeChars count := by
  unfold Pair.writeStep at hs
  cases hw : s.writer with
  | loop buf count done =>
    rw [hw] at hs
    dsimp only at hs
    split at hs
    · obtain rfl := Option.some.inj hs
      exact ⟨rfl, fun i hi => hi.elim⟩
    · next hpos =>
      split at hs
      · split at hs
        · obtain rfl := Option.some.inj hs
          exact ⟨rfl, fun i hi => hi.elim⟩
        · cases hs
      · next hroom =>
        obtain rfl := Option.some.inj hs
        refine ⟨rfl, fun i hi => Or.inr ⟨buf, count, done, rfl, Int.not_le.mp hpos, hroom, ?_⟩⟩
        obtain ⟨hle, hlt⟩ : s.ring.head ≤ i ∧ i < s.ring.head + (s.ring.writeChars count).toNat :=
          hi
        omega
  | copy size buf chars count done =>
    rw [hw] at hs
    cases chars with
    | zero =>
      obtain rfl := Option.some.inj hs
      exact ⟨rfl, fun i hi => hi.elim⟩
    | succ chars =>
      obtain rfl := Option.some.inj hs
      refine ⟨rfl, fun i hi => Or.inl ?_⟩
      obtain ⟨hle, hlt⟩ : size + 1 ≤ i ∧ i < size + 1 + chars := hi
      change size ≤ i ∧ i < size + (chars + 1)
      omega
  | returned v =>
    rw [hw] at hs
    cases hs

namespace Pair

theorem Start.apart (h : s.Start) : s.Apart := by
  obtain ⟨-, ⟨buf, count, hr⟩, -⟩ := h
  rintro i ⟨hi, -⟩
  rw [hr] at hi
  exact hi

theorem Apart.step (h : s.Apart) (hs : Step ReadsApart WritesApart s s') : s'.Apart := by
  cases hs with
  | read hok hs =>
    obtain ⟨hw, hcov⟩ := readStep_covers hs
    rintro i ⟨hri, hwi⟩
    rw [hw] at hwi
    rcases hcov i hri with hold | ⟨buf, count, done, hr, hpos, hsize, hle, hlt⟩
    · exact h i ⟨hold, hwi⟩
    · exact hok buf count done i hr hpos hsize hle hlt hwi
  | write hok hs =>
    obtain ⟨hr, hcov⟩ := writeStep_covers hs
    rintro i ⟨hri, hwi⟩
    rw [hr] at hri
    rcases hcov i hwi with hold | ⟨buf, count, done, hw, hpos, hroom, hle, hlt⟩
    · exact h i ⟨hri, hold⟩
    · exact hok buf count done i hw hpos hroom hle hlt hri

theorem Apart.safe (h : s.Apart) : ¬s.Overwrites ∧ ¬s.CopiesUnfilled := by
  constructor
  · rintro ⟨size, buf, chars, count, done, hw, hcov⟩
    refine h size ⟨hcov, ?_⟩
    rw [hw]
    exact ⟨Nat.le_refl size, Nat.lt_add_of_pos_right (Nat.succ_pos chars)⟩
  · rintro ⟨size, buf, chars, count, done, hr, hcov⟩
    refine h size ⟨?_, hcov⟩
    rw [hr]
    exact ⟨Nat.le_refl size, Nat.lt_add_of_pos_right (Nat.succ_pos chars)⟩

/-- Any step. -/
abbrev AnyStep : Pair → Pair → Prop := Step (fun _ => True) fun _ => True

/-- **`read_pipe` alone** comes to every place it covers. -/
theorem reads_on {size buf chars : ℕ} {count done : ℤ} {i : ℕ}
    (hr : s.reader = .copy size buf chars count done) (hi : s.reader.Covers i)
    (hw : s.writer.Covers i) :
    ∃ s', Relation.ReflTransGen AnyStep s s' ∧ s'.CopiesUnfilled := by
  rw [hr] at hi
  obtain ⟨hle, hlt⟩ : size ≤ i ∧ i < size + chars := hi
  induction chars generalizing s size buf with
  | zero => omega
  | succ chars ih =>
    rcases Nat.eq_or_lt_of_le hle with rfl | hlt'
    · exact ⟨s, .refl, size, buf, chars, count, done, hr, hw⟩
    · have hstep : s.readStep = some { s with
          readBuf := Function.update s.readBuf buf (s.ring.page size)
          reader := .copy (size + 1) (buf + 1) chars count done } := by
        unfold readStep
        rw [hr]
      obtain ⟨s', hs', hbad⟩ := ih (s := { s with
          readBuf := Function.update s.readBuf buf (s.ring.page size)
          reader := .copy (size + 1) (buf + 1) chars count done }) rfl hw hlt' (by omega)
      exact ⟨s', hs'.head (.read trivial hstep), hbad⟩

/-- **`write_pipe` alone** comes to every place it covers. -/
theorem writes_on {size buf chars : ℕ} {count done : ℤ} {i : ℕ}
    (hw : s.writer = .copy size buf chars count done) (hi : s.writer.Covers i)
    (hr : s.reader.Covers i) : ∃ s', Relation.ReflTransGen AnyStep s s' ∧ s'.Overwrites := by
  rw [hw] at hi
  obtain ⟨hle, hlt⟩ : size ≤ i ∧ i < size + chars := hi
  induction chars generalizing s size buf with
  | zero => omega
  | succ chars ih =>
    rcases Nat.eq_or_lt_of_le hle with rfl | hlt'
    · exact ⟨s, .refl, size, buf, chars, count, done, hw, hr⟩
    · have hstep : s.writeStep = some { s with
          ring := s.ring.store size (s.writeBuf buf)
          writer := .copy (size + 1) (buf + 1) chars count done } := by
        unfold writeStep
        rw [hw]
      obtain ⟨s', hs', hbad⟩ := ih (s := { s with
          ring := s.ring.store size (s.writeBuf buf)
          writer := .copy (size + 1) (buf + 1) chars count done }) rfl hr hlt' (by omega)
      exact ⟨s', hs'.head (.write trivial hstep), hbad⟩

end Pair

/-- **The copies keep out of each other's way** in a run in which no chunk is begun over places
that the other call is still copying; and where one is begun so, the call that begins it may
come to them first. -/
theorem copies_apart (s : Pair) :
    (Reachable Pair.Start (Pair.Step Pair.ReadsApart Pair.WritesApart) s →
      ¬s.Overwrites ∧ ¬s.CopiesUnfilled) ∧
    (¬s.ReadsApart → ∃ s', Relation.ReflTransGen Pair.AnyStep s s' ∧ s'.CopiesUnfilled) ∧
    (¬s.WritesApart → ∃ s', Relation.ReflTransGen Pair.AnyStep s s' ∧ s'.Overwrites) := by
  refine ⟨fun h => ?_, fun h => ?_, fun h => ?_⟩
  · have hok : s.Apart := h.inv (fun _ => Pair.Start.apart) fun _ _ => Pair.Apart.step
    exact hok.safe
  · unfold Pair.ReadsApart at h
    push Not at h
    obtain ⟨buf, count, done, i, hr, hpos, hsize, hle, hlt, hcov⟩ := h
    obtain ⟨s₁, hs₁⟩ : ∃ s₁ : Pair, s₁ = { s with
        ring := s.ring.advanceTail (s.ring.readChars count)
        reader := .copy s.ring.tail buf (s.ring.readChars count).toNat
          (count - s.ring.readChars count) (done + s.ring.readChars count) } := ⟨_, rfl⟩
    have hstep : s.readStep = some s₁ := by
      unfold Pair.readStep
      rw [hr, hs₁]
      dsimp only
      rw [if_neg (Int.not_le.mpr hpos), if_neg hsize]
    have hreader : s₁.reader = .copy s.ring.tail buf (s.ring.readChars count).toNat
        (count - s.ring.readChars count) (done + s.ring.readChars count) := by rw [hs₁]
    have hcov₁ : s₁.reader.Covers i := by
      rw [hreader]
      change s.ring.tail ≤ i ∧ i < s.ring.tail + (s.ring.readChars count).toNat
      omega
    obtain ⟨s', hs', hbad⟩ := Pair.reads_on hreader hcov₁ (by rw [hs₁]; exact hcov)
    exact ⟨s', hs'.head (.read trivial hstep), hbad⟩
  · unfold Pair.WritesApart at h
    push Not at h
    obtain ⟨buf, count, done, i, hw, hpos, hroom, hle, hlt, hcov⟩ := h
    obtain ⟨s₁, hs₁⟩ : ∃ s₁ : Pair, s₁ = { s with
        ring := s.ring.advanceHead (s.ring.writeChars count)
        writer := .copy s.ring.head buf (s.ring.writeChars count).toNat
          (count - s.ring.writeChars count) (done + s.ring.writeChars count) } := ⟨_, rfl⟩
    have hstep : s.writeStep = some s₁ := by
      unfold Pair.writeStep
      rw [hw, hs₁]
      dsimp only
      rw [if_neg (Int.not_le.mpr hpos), if_neg hroom]
    have hwriter : s₁.writer = .copy s.ring.head buf (s.ring.writeChars count).toNat
        (count - s.ring.writeChars count) (done + s.ring.writeChars count) := by rw [hs₁]
    have hcov₁ : s₁.writer.Covers i := by
      rw [hwriter]
      change s.ring.head ≤ i ∧ i < s.ring.head + (s.ring.writeChars count).toNat
      omega
    obtain ⟨s', hs', hbad⟩ := Pair.writes_on hwriter hcov₁ (by rw [hs₁]; exact hcov)
    exact ⟨s', hs'.head (.write trivial hstep), hbad⟩

/-- One byte is written to an empty pipe, and one is read. -/
def oneByte : Pair where
  ring := ⟨0, 0, fun _ => 0, 2⟩
  reader := .loop 0 1 0
  writer := .loop 0 1 0
  readBuf _ := 0
  writeBuf _ := 65

/-- **The byte is handed out before it is there**: `write_pipe` has moved the head and sleeps in
`get_fs_byte`. -/
theorem not_copiesApart : ¬∀ s, Reachable Pair.Start Pair.AnyStep s →
    ¬s.Overwrites ∧ ¬s.CopiesUnfilled := by
  intro hall
  have hstart : oneByte.Start := ⟨⟨by decide, by decide⟩, ⟨0, 1, rfl⟩, ⟨0, 1, rfl⟩⟩
  have hwrite : oneByte.writeStep = some { oneByte with
      ring := ⟨1, 0, fun _ => 0, 2⟩
      writer := .copy 0 0 1 0 1 } := by rfl
  have hread : ({ oneByte with
      ring := ⟨1, 0, fun _ => 0, 2⟩
      writer := .copy 0 0 1 0 1 } : Pair).readStep = some { oneByte with
        ring := ⟨1, 1, fun _ => 0, 2⟩
        writer := .copy 0 0 1 0 1
        reader := .copy 0 0 1 0 1 } := by rfl
  have hfirst : Reachable Pair.Start Pair.AnyStep _ :=
    (Reachable.start hstart).next (.write trivial hwrite)
  exact (hall _ (hfirst.next (.read trivial hread))).2 ⟨0, 0, 0, 0, 1, rfl, by decide, by decide⟩

end Linux011.Pipe

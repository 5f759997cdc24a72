import Linux011.Lib.Run
import Linux011.Pipe.Ring

/-!
# A pipe is a queue

Any number of tasks call `read_pipe` and `write_pipe` on one pipe. The copies between the page
and the buffers of the callers do not sleep, so that a chunk is copied at once; between two
chunks, or where a call sleeps, other tasks may run. A call that sleeps is at the head of its
loop again, and goes on whenever it likes: `wake_up` has nothing to do but to make it.

The bytes that have been accepted are those that have been handed out followed by those in the
ring (`Linux011.Pipe.State.Ok`).
-/

namespace Linux011.Pipe

/-! ### `read_pipe` and `write_pipe` -/

/-- **A call under way**, at the head of its loop: what it was called with, and its variables. -/
inductive Call
  | read (asked : ℤ) (buf : ℕ) (count read : ℤ)
  | write (asked : ℤ) (buf : ℕ) (count written : ℤ)

/-- **The pipe and its users**: the memory of each task, whether it has a `SIGPIPE`, and the call
it is in. For the record, the bytes accepted and handed out so far, and the indices of the page
that have been used. -/
structure State where
  ring : Ring
  user : ℕ → ℕ → UInt8
  sigpipe : ℕ → Bool
  call : ℕ → Option Call
  accepted : List UInt8
  taken : List UInt8
  used : List ℕ

/-- `while (chars-->0) put_fs_byte(((char *)inode->i_size)[size++],buf++)`. -/
def copyOut (t size buf : ℕ) : ℕ → State → State
  | 0, s => s
  | chars + 1, s =>
    copyOut t (size + 1) (buf + 1) chars { s with
      user := Function.update s.user t (Function.update (s.user t) buf (s.ring.page size))
      taken := s.taken ++ [s.ring.page size]
      used := size :: s.used }

/-- `while (chars-->0) ((char *)inode->i_size)[size++]=get_fs_byte(buf++)`. -/
def copyIn (t size buf : ℕ) : ℕ → State → State
  | 0, s => s
  | chars + 1, s =>
    copyIn t (size + 1) (buf + 1) chars { s with
      ring := s.ring.store size (s.user t buf)
      accepted := s.accepted ++ [s.user t buf]
      used := size :: s.used }

/-- What one round of a loop comes to. -/
inductive Outcome
  | ret (value : ℤ) (s : State)
  | sleep
  | go (s : State) (c : Call)

/-- A round of `read_pipe`. -/
def readPipe (t : ℕ) (asked : ℤ) (buf : ℕ) (count read : ℤ) (s : State) : Outcome :=
  if count ≤ 0 then .ret read s
  else if s.ring.size = 0 then
    if s.ring.count ≠ 2 then .ret read s else .sleep
  else
    let chars := s.ring.readChars count
    let size := s.ring.tail
    let s := { s with ring := s.ring.advanceTail chars }
    .go (copyOut t size buf chars.toNat s)
      (.read asked (buf + chars.toNat) (count - chars) (read + chars))

/-- A round of `write_pipe`. -/
def writePipe (t : ℕ) (asked : ℤ) (buf : ℕ) (count written : ℤ) (s : State) : Outcome :=
  if count ≤ 0 then .ret written s
  else if s.ring.room = 0 then
    if s.ring.count ≠ 2 then
      .ret (if written ≠ 0 then written else -1)
        { s with sigpipe := Function.update s.sigpipe t true }
    else .sleep
  else
    let chars := s.ring.writeChars count
    let size := s.ring.head
    let s := { s with ring := s.ring.advanceHead chars }
    .go (copyIn t size buf chars.toNat s)
      (.write asked (buf + chars.toNat) (count - chars) (written + chars))

/-- A round of a call. -/
def Call.round (t : ℕ) (c : Call) (s : State) : Outcome :=
  match c with
  | .read asked buf count done => readPipe t asked buf count done s
  | .write asked buf count done => writePipe t asked buf count done s

namespace State

/-- The task is in the call `c`, or in none. -/
def setCall (s : State) (t : ℕ) (c : Option Call) : State :=
  { s with call := Function.update s.call t c }

/-- **A step**: a task makes a call or goes on with it, or other tasks change the count of the
inode and the memory of the users. -/
inductive Step (s : State) : State → Prop
  | read {t buf : ℕ} {count : ℤ} (hidle : s.call t = none) :
      Step s (s.setCall t (some (.read count buf count 0)))
  | write {t buf : ℕ} {count : ℤ} (hidle : s.call t = none) :
      Step s (s.setCall t (some (.write count buf count 0)))
  | go {t : ℕ} {c c' : Call} {s' : State} (hc : s.call t = some c) (hr : c.round t s = .go s' c') :
      Step s (s'.setCall t (some c'))
  | ret {t : ℕ} {c : Call} {v : ℤ} {s' : State} (hc : s.call t = some c)
      (hr : c.round t s = .ret v s') : Step s (s'.setCall t none)
  | others {count : ℕ} {user : ℕ → ℕ → UInt8} :
      Step s { s with ring := { s.ring with count := count }, user := user }

/-- What `get_pipe_inode` has made; nobody has used it. -/
def Start (s : State) : Prop :=
  s.ring.head = 0 ∧ s.ring.tail = 0 ∧ (∀ t, s.call t = none) ∧ s.accepted = [] ∧ s.taken = [] ∧
    s.used = []

end State

/-- What is left to do and what has been done add up. -/
def Call.Ok : Call → Prop
  | .read asked _ count done => count + done = asked
  | .write asked _ count done => count + done = asked ∧ 0 ≤ done

/-- **What every step keeps.** -/
structure State.Ok (s : State) : Prop where
  ring : s.ring.Ok
  bytes : s.accepted = s.taken ++ s.ring.pending
  used : ∀ i ∈ s.used, i < pageSize
  call : ∀ t c, s.call t = some c → c.Ok

variable {s s' : State} {t size buf chars : ℕ} {c c' : Call}

/-! ### The copies -/

/-- **What has been copied out**: the bytes from `size` on, in their order. -/
theorem copyOut_spec (t size buf chars : ℕ) (s : State) :
    (copyOut t size buf chars s).ring = s.ring ∧
    (copyOut t size buf chars s).accepted = s.accepted ∧
    (copyOut t size buf chars s).taken = s.taken ++ (List.range' size chars).map s.ring.page ∧
    (copyOut t size buf chars s).call = s.call ∧
    ∀ i ∈ (copyOut t size buf chars s).used, i ∈ s.used ∨ i < size + chars := by
  induction chars generalizing size buf s with
  | zero => exact ⟨rfl, rfl, (List.append_nil _).symm, rfl, fun i hi => Or.inl hi⟩
  | succ chars ih =>
    rw [copyOut]
    obtain ⟨hring, hacc, htaken, hcall, hused⟩ := ih (size + 1) (buf + 1)
      { s with
        user := Function.update s.user t (Function.update (s.user t) buf (s.ring.page size))
        taken := s.taken ++ [s.ring.page size]
        used := size :: s.used }
    refine ⟨hring, hacc, ?_, hcall, fun i hi => ?_⟩
    · rw [htaken, List.range'_succ, List.map_cons, List.append_assoc, List.singleton_append]
    · rcases hused i hi with hm | hlt
      · rcases List.mem_cons.mp hm with rfl | hm
        · exact Or.inr (by omega)
        · exact Or.inl hm
      · exact Or.inr (by omega)

/-- **What has been copied in**: the bytes at `buf`, from `size` on; the other places of the page
are as they were. -/
theorem copyIn_spec (t size buf chars : ℕ) (s : State) :
    (∃ page, (copyIn t size buf chars s).ring = { s.ring with page := page } ∧
      (∀ i, i < size ∨ size + chars ≤ i → page i = s.ring.page i) ∧
      (copyIn t size buf chars s).accepted = s.accepted ++ (List.range' size chars).map page) ∧
    (copyIn t size buf chars s).taken = s.taken ∧ (copyIn t size buf chars s).call = s.call ∧
    ∀ i ∈ (copyIn t size buf chars s).used, i ∈ s.used ∨ i < size + chars := by
  induction chars generalizing size buf s with
  | zero => exact ⟨⟨s.ring.page, rfl, fun i _ => rfl, (List.append_nil _).symm⟩, rfl, rfl,
      fun i hi => Or.inl hi⟩
  | succ chars ih =>
    rw [copyIn]
    obtain ⟨⟨page, hring, hpage, hacc⟩, htaken, hcall, hused⟩ := ih (size + 1) (buf + 1)
      { s with
        ring := s.ring.store size (s.user t buf)
        accepted := s.accepted ++ [s.user t buf]
        used := size :: s.used }
    have hfirst : page size = s.user t buf := by
      rw [hpage size (Or.inl (Nat.lt_succ_self size))]
      exact Function.update_self ..
    refine ⟨⟨page, hring, fun i hi => ?_, ?_⟩, htaken, hcall, fun i hi => ?_⟩
    · rw [hpage i (by omega)]
      exact Function.update_of_ne (by omega) ..
    · rw [hacc, List.range'_succ, List.map_cons, hfirst, List.append_assoc, List.singleton_append]
    · rcases hused i hi with hm | hlt
      · rcases List.mem_cons.mp hm with rfl | hm
        · exact Or.inr (by omega)
        · exact Or.inl hm
      · exact Or.inr (by omega)

/-! ### The rounds -/

/-- **A round of `read_pipe`** that moves a chunk. -/
theorem State.Ok.readPipe (h : s.Ok) {asked count read : ℤ} (hc : count + read = asked)
    (hr : readPipe t asked buf count read s = .go s' c') : s'.Ok ∧ c'.Ok ∧ s'.call = s.call := by
  unfold Pipe.readPipe at hr
  split at hr
  · cases hr
  · next hpos =>
    split at hr
    · split at hr <;> cases hr
    · next hsize =>
      obtain ⟨chars, hchars, -, hle, hlec, hend⟩ :=
        Ring.readChars_spec h.ring (Int.not_le.mp hpos) hsize
      dsimp only at hr
      rw [hchars, Int.toNat_natCast] at hr
      obtain ⟨rfl, rfl⟩ := Outcome.go.inj hr
      obtain ⟨hring, hacc, htaken, hcall, hused⟩ := copyOut_spec t s.ring.tail buf chars
        { s with ring := s.ring.advanceTail chars }
      refine ⟨⟨?_, ?_, fun i hi => ?_, ?_⟩, ?_, hcall⟩
      · rw [hring]
        exact h.ring.advanceTail
      · rw [hring, hacc, htaken, List.append_assoc]
        exact h.bytes.trans (congrArg _ (Ring.pending_take h.ring hle hend))
      · rcases hused i hi with hi | hi
        · exact h.used i hi
        · omega
      · rw [hcall]
        exact h.call
      · change count - chars + (read + chars) = asked
        omega

/-- **A round of `write_pipe`** that moves a chunk. -/
theorem State.Ok.writePipe (h : s.Ok) {asked count written : ℤ} (hc : count + written = asked)
    (hw : 0 ≤ written) (hr : writePipe t asked buf count written s = .go s' c') :
    s'.Ok ∧ c'.Ok ∧ s'.call = s.call := by
  unfold Pipe.writePipe at hr
  split at hr
  · cases hr
  · next hpos =>
    split at hr
    · split at hr <;> cases hr
    · next hroom =>
      obtain ⟨chars, hchars, -, hle, hlec, hend⟩ :=
        Ring.writeChars_spec h.ring (Int.not_le.mp hpos) hroom
      dsimp only at hr
      rw [hchars, Int.toNat_natCast] at hr
      obtain ⟨rfl, rfl⟩ := Outcome.go.inj hr
      obtain ⟨⟨page, hring, hpage, hacc⟩, htaken, hcall, hused⟩ := copyIn_spec t s.ring.head
        buf chars { s with ring := s.ring.advanceHead chars }
      refine ⟨⟨?_, ?_, fun i hi => ?_, ?_⟩, ?_, hcall⟩
      · rw [hring]
        exact h.ring.advanceHead
      · rw [hring, hacc, htaken, Ring.pending_put h.ring hle hend hpage, ← List.append_assoc]
        exact congrArg (· ++ _) h.bytes
      · rcases hused i hi with hi | hi
        · exact h.used i hi
        · omega
      · rw [hcall]
        exact h.call
      · change count - chars + (written + chars) = asked ∧ 0 ≤ written + (chars : ℤ)
        omega

/-- A call that returns leaves the pipe as it is. -/
theorem State.Ok.ret (h : s.Ok) {v : ℤ} (hr : c.round t s = .ret v s') :
    s'.Ok ∧ s'.call = s.call := by
  cases c with
  | read asked buf count done =>
    unfold Call.round Pipe.readPipe at hr
    dsimp only at hr
    split at hr
    · obtain ⟨-, rfl⟩ := Outcome.ret.inj hr
      exact ⟨h, rfl⟩
    · split at hr
      · split at hr
        · obtain ⟨-, rfl⟩ := Outcome.ret.inj hr
          exact ⟨h, rfl⟩
        · cases hr
      · cases hr
  | write asked buf count written =>
    unfold Call.round Pipe.writePipe at hr
    dsimp only at hr
    split at hr
    · obtain ⟨-, rfl⟩ := Outcome.ret.inj hr
      exact ⟨h, rfl⟩
    · split at hr
      · split at hr
        · obtain ⟨-, rfl⟩ := Outcome.ret.inj hr
          exact ⟨⟨h.ring, h.bytes, h.used, h.call⟩, rfl⟩
        · cases hr
      · cases hr

/-! ### Runs -/

namespace State

theorem Ok.setCall (h : s.Ok) {c : Option Call} (hc : ∀ c' ∈ c, c'.Ok) : (s.setCall t c).Ok := by
  refine ⟨h.ring, h.bytes, h.used, fun t' c' ht' => ?_⟩
  change Function.update s.call t c t' = some c' at ht'
  rw [Function.update_apply] at ht'
  split at ht'
  · exact hc c' ht'
  · exact h.call t' c' ht'

theorem Start.ok (h : s.Start) : s.Ok := by
  obtain ⟨hhead, htail, hcall, hacc, htaken, hused⟩ := h
  refine ⟨⟨?_, ?_⟩, ?_, fun i hi => ?_, fun t c hc => ?_⟩
  · rw [hhead]
    decide
  · rw [htail]
    decide
  · rw [hacc, htaken, Ring.pending, Ring.size, hhead, htail]
    rfl
  · rw [hused] at hi
    cases hi
  · rw [hcall] at hc
    cases hc

theorem Ok.step (h : s.Ok) (hs : Step s s') : s'.Ok := by
  cases hs with
  | read hidle =>
    refine h.setCall fun c hc => ?_
    obtain rfl := Option.some.inj hc
    exact Int.add_zero _
  | write hidle =>
    refine h.setCall fun c hc => ?_
    obtain rfl := Option.some.inj hc
    exact ⟨Int.add_zero _, Int.le_refl 0⟩
  | @go t c c' s' hc hr =>
    have hround : s'.Ok ∧ c'.Ok ∧ s'.call = s.call := by
      cases c with
      | read asked buf count done => exact h.readPipe (h.call t _ hc) hr
      | write asked buf count written => exact h.writePipe (h.call t _ hc).1 (h.call t _ hc).2 hr
    refine hround.1.setCall fun d hd => ?_
    obtain rfl := Option.some.inj hd
    exact hround.2.1
  | ret hc hr => exact (h.ret hr).1.setCall fun d hd => by cases hd
  | others => exact ⟨h.ring, h.bytes, h.used, h.call⟩

end State

end Linux011.Pipe

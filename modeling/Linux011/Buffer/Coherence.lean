import Linux011.Buffer.InFlight

/-!
# What there is in a head

The look of a head is what is in it but for its count, its lock and its links. Where the looks stay
the same no data has been changed.
-/

namespace Linux011.Buffer

/-- A head without its count, its lock and its links. -/
def BufferHead.look (h : BufferHead) : BufferHead := { h.face with lock := false }

/-- A call that has locked a buffer has done so for a reason. -/
def Frame.Due (c : Cache) : Frame → Prop
  | .makeRequest .write _ _ bh => (c.head bh).dirt = true
  | .makeRequest .read _ _ bh => (c.head bh).uptodate = false
  | _ => True

variable {n : ℕ} {s : State n} {t : Fin n} {f : Frame} {c c' : Cache} {b : ℕ}

namespace BufferHead

variable {h h' : BufferHead}

theorem look_tag (hl : h'.look = h.look) : h'.dev = h.dev ∧ h'.blocknr = h.blocknr :=
  ⟨(congrArg BufferHead.dev hl :), (congrArg BufferHead.blocknr hl :)⟩

theorem look_flags (hl : h'.look = h.look) : h'.uptodate = h.uptodate ∧ h'.dirt = h.dirt :=
  ⟨(congrArg BufferHead.uptodate hl :), (congrArg BufferHead.dirt hl :)⟩

theorem look_data (hl : h'.look = h.look) : h'.data = h.data := (congrArg BufferHead.data hl :)

end BufferHead

theorem Frame.due_of_locks (h : f.locks = none) : f.Due c := by
  cases f <;> trivial

theorem Frame.Due.congr (h : f.Due c) (hb : ∀ b, f.locks = some b →
    (c'.head b).uptodate = (c.head b).uptodate ∧ (c'.head b).dirt = (c.head b).dirt) :
    f.Due c' := by
  cases f with
  | makeRequest cmd ahead maj bh =>
    obtain ⟨hu, hd⟩ := hb bh rfl
    cases cmd with
    | read => exact hu.trans h
    | write => exact hd.trans h
  | _ => trivial

/-- A head that is not locked has been locked by no call. -/
theorem State.Tracked.locks_ne (h : s.Tracked) (hb : (s.sys.cache.head b).lock = false)
    (hf : f ∈ (s.task t).stack) : f.locks ≠ some b := by
  intro hfb
  have hpos := State.lockers_pos hf hfb
  have := h.owners b
  rw [hb, Bool.toNat_false] at this
  omega

end Linux011.Buffer

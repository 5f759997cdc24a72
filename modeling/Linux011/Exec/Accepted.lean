import Linux011.Exec.Access
import Linux011.Exec.Execve

/-!
# What a program may take up

`do_execve` lets a program pass only if its parts fit into 48 megabytes and its file is long enough
for them. The rest of the kernel relies on that: `brk` and `end_data` are below the argument pages,
and `do_no_page` looks for no block behind the end of the file.

The sums are those of 32 bits, and the fields are whatever the file says. If a sum comes to 2 ^ 32
or more, what is compared is its rest, and the program passes all the same
(`Linux011.Exec.accepted_iff`).
-/

namespace Linux011.Exec

variable {w : World} {ex : Header} {id : Fs.Id} {b : ℕ → UInt8} {size p argc envc : ℕ}

/-- **The sums**, as they are meant. -/
structure Header.InBounds (ex : Header) (size : ℕ) : Prop where
  space : ex.text + ex.data + ex.bss ≤ 0x3000000
  file : 1024 + ex.text + ex.data + ex.syms ≤ size

/-- **The memory of a task** that runs a program of so many bytes. The last is about the blocks
that `do_no_page` asks for. -/
structure World.InBounds (w : World) (size : ℕ) : Prop where
  code : w.endCode ≤ w.endData
  data : w.endData ≤ w.brk
  brk : w.brk ≤ 0x3000000
  block : ∀ a < w.endData, 1024 * (1 + a / 1024) < size

/-- No sum comes to 2 ^ 32. -/
def Header.Exact (ex : Header) : Prop :=
  ex.text + ex.data + ex.bss < 2 ^ 32 ∧ 1024 + ex.text + ex.data + ex.syms < 2 ^ 32

/-! ### The check -/

/-- What the check has compared. -/
theorem Header.ok_iff : ex.ok size = true ↔ ex.magic = 0o413 ∧ ex.trsize = 0 ∧ ex.drsize = 0 ∧
    (ex.text + ex.data + ex.bss) % 2 ^ 32 ≤ 0x3000000 ∧
      (ex.text + ex.data + ex.syms + 1024) % 2 ^ 32 ≤ size := by
  rw [Header.ok, decide_eq_true_iff]

/-- **The sums of a header that passes** are as they are meant just if they are exact. -/
theorem Header.inBounds_iff (h : ex.ok size = true) (hsize : size < 2 ^ 32) :
    ex.InBounds size ↔ ex.Exact := by
  obtain ⟨-, -, -, hspace, hfile⟩ := Header.ok_iff.mp h
  constructor
  · intro hin
    have hspace' := hin.space
    have hfile' := hin.file
    constructor
    · omega
    · omega
  · rintro ⟨hspace', hfile'⟩
    rw [Nat.mod_eq_of_lt hspace'] at hspace
    rw [Nat.mod_eq_of_lt (by omega)] at hfile
    constructor
    · exact hspace
    · omega

/-! ### The task -/

/-- `end_code`, `end_data` and `brk` are those of the program. -/
structure Header.Sets (ex : Header) (w : World) : Prop where
  code : w.endCode = ex.text
  data : w.endData = ex.end
  brk : w.brk = (ex.bss + ex.end) % 2 ^ 32

/-- Zeroing does not touch them. -/
theorem Header.Sets.clearTail (h : ex.Sets w) (n i : ℕ) :
    wp (clearTail n i) (fun _ w' => ex.Sets w') (fun _ _ => True) w := by
  induction n generalizing w i with
  | zero => exact h
  | succ n ih =>
    rw [Exec.clearTail, wp_ite]
    refine ⟨fun _ => h, fun _ => ?_⟩
    rw [wp_bind]
    refine wp_mono wp_putFsByte (fun _ w' hput => ih ?_ (i + 1)) fun _ _ _ => trivial
    rw [hput.1.same]
    exact ⟨h.code, h.data, h.brk⟩

/-- Whatever comes before, the rest is what counts. -/
theorem wp_bind_last {α β : Type} {m : M α} {f : α → M β} {Q : β → World → Prop}
    (h : ∀ a w, wp (f a) Q (fun _ _ => True) w) (w : World) :
    wp (m >>= f) Q (fun _ _ => True) w := by
  rw [wp_bind, wp]
  split
  · exact h _ _
  · trivial

/-- **The program is started**, and the task has its sizes. -/
theorem startProgram_sets :
    wp (startProgram id ex p argc envc) (fun _ w' => ex.Sets w') (fun _ _ => True) w := by
  rw [startProgram]
  -- nothing that comes before the sizes are set matters
  refine wp_bind_last (fun w _ => ?_) w
  refine wp_bind_last (fun _ => wp_bind_last fun _ => wp_bind_last fun _ => wp_bind_last fun w =>
    wp_bind_last fun _ => wp_bind_last fun _ => wp_bind_last fun _ => wp_bind_last fun limit =>
    wp_bind_last fun sp v => ?_) _
  rw [wp_bind, wp_modify, wp_bind]
  exact wp_mono (Header.Sets.clearTail ⟨rfl, rfl, rfl⟩ pageSize ex.end) (fun _ _ h => h)
    fun _ _ _ => trivial

/-- The sums being exact, so are the sizes of the task. -/
theorem Header.Sets.inBounds (h : ex.Sets w) (hin : ex.InBounds size) : w.InBounds size := by
  have hspace := hin.space
  have hfile := hin.file
  have hend : ex.end = ex.text + ex.data := Nat.mod_eq_of_lt (by omega)
  have hbrk : (ex.bss + ex.end) % 2 ^ 32 = ex.text + ex.data + ex.bss := by
    rw [hend, Nat.add_comm]
    exact Nat.mod_eq_of_lt (by omega)
  constructor
  · rw [h.code, h.data, hend]
    exact Nat.le_add_right _ _
  · rw [h.data, h.brk, hbrk, hend]
    exact Nat.le_add_right _ _
  · rw [h.brk, hbrk]
    exact hspace
  · intro a ha
    rw [h.data, hend] at ha
    have := Nat.mul_div_le a 1024
    omega

/-! ### The result -/

/-- **An accepted program is within bounds**, and so is the task that runs it, just if no sum of its
header comes to 2 ^ 32. -/
theorem accepted_iff (b : ℕ → UInt8) (hsize : size < 2 ^ 32)
    (h : (readHeader b).ok size = true) :
    ((readHeader b).InBounds size ∧ ∀ id p argc envc w r w',
      startProgram id (readHeader b) p argc envc w = .ok r w' → w'.InBounds size) ↔
        (readHeader b).Exact := by
  rw [← Header.inBounds_iff h hsize]
  refine ⟨fun hin => hin.1, fun hin => ⟨hin, fun id p argc envc w r w' hstart => ?_⟩⟩
  exact (wp_ok startProgram_sets hstart).inBounds hin

/-- The first block of a program, with the high bytes of `a_text` and `a_data`. -/
def programBlock (text data : UInt8) (i : ℕ) : UInt8 :=
  if i = 0 then 0o13 else if i = 1 then 1 else if i = 7 then text else if i = 11 then data else 0

/-- 16 megabytes of code. -/
theorem accepted_text : (readHeader (programBlock 1 0)).InBounds 0x1000400 ∧
    ∀ id p argc envc w r w',
      startProgram id (readHeader (programBlock 1 0)) p argc envc w = .ok r w' →
        w'.InBounds 0x1000400 :=
  (accepted_iff (programBlock 1 0) (by decide) (by decide)).mpr ⟨by decide, by decide⟩

/-- Two gigabytes of code and two of data come to nothing. -/
theorem accepted_wraps : ¬∀ (b : ℕ → UInt8) (size : ℕ), size < 2 ^ 32 →
    (readHeader b).ok size = true → (readHeader b).InBounds size := by
  intro h
  have hspace := (h (programBlock 0x80 0x80) 1024 (by decide) (by decide)).space
  exact absurd hspace (by decide)

end Linux011.Exec

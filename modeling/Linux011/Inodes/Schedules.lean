import Linux011.Inodes.OneCopy

/-!
# Schedules

A run can be replayed from what the tasks do in turn (`Linux011.Inodes.Iget.State.replay`). Three
runs are: a call of `iget` from an empty table; a call of `iget` that returns another slot than
one that was under way at the same time; and the count that comes to zero with 65536 references.
-/

namespace Linux011.Inodes.Iget

open Relation (ReflTransGen)

variable {M : Mounts} {s s' : State}

/-! ### What the tasks do in turn -/

/-- What is done next. -/
inductive Act
  | iget (dev nr : ℕ)
  /-- The reference at this place is given back. -/
  | iput (k : ℕ)
  /-- The call at this place goes on. -/
  | run (k : ℕ) (io : Option DInode)

namespace State

/-- The state that comes of it. -/
def act (M : Mounts) (s : State) : Act → Option State
  | .iget dev nr =>
    some { s with
      calls := ⟨(dev, nr), [.iget dev nr], s.time⟩ :: s.calls, time := s.time + 1 }
  | .iput k =>
    match s.refs.drop k with
    | [] => none
    | r :: l₂ =>
      some { s with
        refs := s.refs.take k ++ l₂
        calls := ⟨(0, 0), [.iput r.slot], s.time⟩ :: s.calls
        time := s.time + 1 }
  | .run k io =>
    match s.calls.drop k with
    | [] => none
    | c :: l₂ =>
      match c.stack with
      | [] => none
      | f :: st =>
        match f.step M s.table io with
        | .go t fs => some (s.after t (s.calls.take k) c l₂ (fs ++ st) f.result)
        | _ => none

/-- One after the other, with no more references than fit. -/
def replay (M : Mounts) (s : State) : List Act → Option State
  | [] => some s
  | a :: as =>
    match s.act M a with
    | none => none
    | some t => if (t.held M).length ≤ 0xffff then replay M t as else none

end State

/-- **What is replayed is a step.** -/
theorem act_step {a : Act} (h : s.act M a = some s') : Step M s s' := by
  cases a with
  | iget dev nr =>
    obtain rfl := Option.some.inj h
    exact .iget dev nr
  | iput k =>
    unfold State.act at h
    rcases hr : s.refs.drop k with _ | ⟨r, l₂⟩
    · simp only [hr] at h
      cases h
    · simp only [hr] at h
      obtain rfl := Option.some.inj h
      refine .iput ?_
      rw [← hr, List.take_append_drop]
  | run k io =>
    unfold State.act at h
    rcases hc : s.calls.drop k with _ | ⟨c, l₂⟩
    · simp only [hc] at h
      cases h
    rcases hf : c.stack with _ | ⟨f, st⟩
    · simp only [hc, hf] at h
      cases h
    rcases hgo : f.step M s.table io with _ | _ | _ | ⟨t, fs⟩
    · simp only [hc, hf, hgo] at h
      cases h
    · simp only [hc, hf, hgo] at h
      cases h
    · simp only [hc, hf, hgo] at h
      cases h
    · simp only [hc, hf, hgo] at h
      obtain rfl := Option.some.inj h
      refine .run io ?_ hf hgo
      rw [← hc, List.take_append_drop]

/-- **What is replayed is a run.** -/
theorem replay_steps {as : List Act} (h : s.replay M as = some s') :
    ReflTransGen (fun s s' => Step M s s' ∧ s'.Fits M) s s' := by
  induction as generalizing s with
  | nil =>
    obtain rfl := Option.some.inj h
    exact .refl
  | cons a as ih =>
    unfold State.replay at h
    rcases ha : s.act M a with _ | t
    · rw [ha] at h
      cases h
    · rw [ha] at h
      dsimp only at h
      split at h
      · next hlen =>
        have hfits : t.Fits M := fun i => List.count_le_length.trans hlen
        exact .head ⟨act_step ha, hfits⟩ (ih h)
      · cases h

/-! ### Nothing mounted -/

/-- Nothing is mounted. -/
def bare : Mounts := ⟨fun _ => 0, fun _ => none, []⟩

theorem bare_ok : bare.Ok := fun _ _ h => by cases h

/-- With nothing mounted, a slot has the inode that `iget` was called for. -/
theorem Named.bare {t : Table} {i : ℕ} (hi : i < nrInode) (hdev : (t.slot i).dev ≠ 0) :
    Named bare t (t.key i) i :=
  ⟨hi, hdev, .refl, fun _ h => by cases h⟩

/-- An inode of a file, with one link. -/
def file : DInode := fun x => if x.val = 13 then 1 else 0

/-- The table as the kernel is loaded. -/
def emptyTable : State := ⟨⟨fun _ => Slot.zero, 0, []⟩, [], [], [], 0⟩

theorem emptyTable_start : Start bare emptyTable := by
  refine ⟨⟨fun i => rfl, fun i j _ _ hdev => absurd rfl hdev, fun p hp => ?_, fun i => ?_,
    fun n hn => ?_⟩, fun i => Nat.zero_le _, fun r hr => ?_, rfl, rfl⟩
  · cases hp
  · exact ⟨fun hm => absurd hm Bool.false_ne_true, fun hm => by cases hm⟩
  · cases hn
  · cases hr

/-- **One task alone** gets its inode. -/
theorem one_copy_alone : ∃ s, Reachable (Start bare) (fun s s' => Step bare s s' ∧ s'.Fits bare) s ∧
    s.refs.map (fun r => (r.dev, r.nr, r.slot)) = [(1, 5, 1)] ∧
    ∀ i, (s.table.slot i).count = (s.held bare).count i := by
  have hrun : (emptyTable.replay bare [.iget 1 5, .run 0 none, .run 0 none, .run 0 none,
      .run 0 (some file), .run 0 none, .run 0 none]).map
      (fun s => s.refs.map fun r => (r.dev, r.nr, r.slot)) = some [(1, 5, 1)] := by decide
  obtain ⟨s, hs, hrefs⟩ := Option.map_eq_some_iff.mp hrun
  have hreach : Reachable (Start bare) (fun s s' => Step bare s s' ∧ s'.Fits bare) s :=
    ⟨emptyTable, emptyTable_start, replay_steps hs⟩
  exact ⟨s, hreach, hrefs, (one_copy bare_ok hreach).2.2.1⟩

/-! ### Two slots for one inode -/

/-- All slots but two are in use, and the second of these is still to be written to the disk. -/
def crowdedSlot (i : ℕ) : Slot :=
  if i = 1 ∨ 32 ≤ i then Slot.zero
  else if i = 2 then { Slot.zero with dirt := true, dev := 3, num := 9 }
  else { Slot.zero with dev := 2, num := i + 1, count := 1 }

def crowdedRefs : List Reference :=
  ((List.range nrInode).filter fun i => i ≠ 1 ∧ i ≠ 2).map fun i => ⟨2, i + 1, i⟩

def crowded : State := ⟨⟨crowdedSlot, 0, []⟩, [], crowdedRefs, [], 0⟩

theorem crowded_start : Start bare crowded := by
  have hcount : ∀ i, (crowdedSlot i).count = (crowded.held bare).count i := by
    intro i
    by_cases hi : i < nrInode
    · revert i
      decide
    · have hge : 32 ≤ i := Nat.le_of_not_lt hi
      have hnone : i ∉ crowded.held bare := by
        intro hmem
        have hall : ∀ j ∈ crowded.held bare, j < nrInode := by decide
        exact hi (hall i hmem)
      rw [List.count_eq_zero.mpr hnone]
      unfold crowdedSlot
      rw [if_pos (Or.inr hge)]
      rfl
  have hmount : ∀ i, (crowdedSlot i).mount = false := by
    intro i
    unfold crowdedSlot
    split
    · rfl
    · split <;> rfl
  refine ⟨⟨hcount, ?_, fun p hp => ?_, fun i => ?_, fun n hn => ?_⟩, fun i => ?_, fun r hr => ?_,
    rfl, rfl⟩
  · have hall : ∀ i < nrInode, ∀ j < nrInode, (crowdedSlot i).dev ≠ 0 →
        crowded.table.key j = crowded.table.key i → i = j := by decide
    exact fun i j hi hj => hall i hi j hj
  · cases hp
  · exact ⟨fun hm => absurd ((hmount i).symm.trans hm) Bool.false_ne_true, fun hm => by cases hm⟩
  · cases hn
  · exact List.count_le_length.trans (by decide)
  · have hall : ∀ r ∈ crowdedRefs, r.slot < nrInode ∧ (crowdedSlot r.slot).dev ≠ 0 ∧
        crowded.table.key r.slot = (r.dev, r.nr) := by decide
    obtain ⟨hlt, hdev, hkey⟩ := hall r hr
    rw [← hkey]
    exact Named.bare hlt hdev

/-- **A reference that is given back too early.** The second call is asleep in `get_empty_inode`
when the first one returns slot 1; the reference is given back, and slot 1 is used for another
inode. The second call finds the inode in no slot, and returns slot 2. -/
def early : List Act :=
  [.iget 1 5, .run 0 none, .run 0 none, .run 0 none,
    .iget 1 5, .run 0 none, .run 0 none, .run 0 none,
    .run 1 (some file), .run 1 none, .run 1 none, .iput 0, .run 0 none,
    .iget 1 6, .run 0 none, .run 0 none,
    .run 2 (some file), .run 2 none, .run 2 none, .run 2 none, .run 2 (some file), .run 2 none,
    .run 2 none]

theorem replay_early : (crowded.replay bare early).map
    (fun s => s.returns.map fun r => (r.args, r.slot, r.since, r.till)) =
    some [((1, 5), 2, 4, 22), ((1, 5), 1, 0, 10)] := by decide +kernel

theorem early_returns : ∃ s, Reachable (Start bare) (Step bare) s ∧ ∃ r ∈ s.returns,
    ∃ r' ∈ s.returns, r.args = r'.args ∧ r.since ≤ r'.till ∧ r'.since ≤ r.till ∧
      r.slot ≠ r'.slot := by
  obtain ⟨s, hs, hreturns⟩ := Option.map_eq_some_iff.mp replay_early
  have hreach : Reachable (Start bare) (fun s s' => Step bare s s' ∧ s'.Fits bare) s :=
    ⟨crowded, crowded_start, replay_steps hs⟩
  refine ⟨s, hreach.mono fun _ _ h => h.1, ?_⟩
  obtain ⟨r, rest, hr, hfirst, hrest⟩ := List.map_eq_cons_iff.mp hreturns
  obtain ⟨r', rest', hr', hsecond, -⟩ := List.map_eq_cons_iff.mp hrest
  have hmem : r' ∈ s.returns := by
    rw [hr, hr']
    exact List.mem_cons_of_mem _ List.mem_cons_self
  refine ⟨r, hr ▸ List.mem_cons_self, r', hmem, ?_⟩
  simp only [Prod.mk.injEq] at hfirst hsecond
  obtain ⟨hargs, hslot, hsince, htill⟩ := hfirst
  obtain ⟨hargs', hslot', hsince', htill'⟩ := hsecond
  refine ⟨hargs.trans hargs'.symm, ?_, ?_, ?_⟩
  all_goals omega

/-! ### One reference too many -/

/-- The inode in slot 0 has all the references that its count has room for. -/
def fullSlot (i : ℕ) : Slot :=
  if i = 0 then { Slot.zero with dev := 1, num := 5, count := 0xffff } else Slot.zero

def full : State := ⟨⟨fullSlot, 0, []⟩, [], List.replicate 0xffff ⟨1, 5, 0⟩, [], 0⟩

theorem full_start : Start bare full := by
  have hheld : ∀ i, (full.held bare).count i = if i = 0 then 0xffff else 0 := by
    intro i
    have hlist : full.held bare = List.replicate 0xffff 0 := by
      change [] ++ (List.map Reference.slot (List.replicate 0xffff ⟨1, 5, 0⟩) ++ []) = _
      rw [List.nil_append, List.append_nil, List.map_replicate]
    rw [hlist, List.count_replicate]
    by_cases hi : i = 0
    · rw [hi, if_pos rfl, if_pos (beq_self_eq_true 0)]
    · rw [if_neg hi, if_neg fun h => hi (beq_iff_eq.mp h).symm]
  have hother : ∀ i, i ≠ 0 → fullSlot i = Slot.zero := fun i hi => if_neg hi
  refine ⟨⟨fun i => ?_, fun i j _ _ hdev hkey => ?_, fun p hp => ?_, fun i => ?_, fun n hn => ?_⟩,
    fun i => ?_, fun r hr => ?_, rfl, rfl⟩
  · change (fullSlot i).count = _
    rw [hheld]
    by_cases hi : i = 0
    · rw [hi, if_pos rfl]
      rfl
    · rw [hother i hi, if_neg hi]
      rfl
  · by_cases hi : i = 0
    · by_cases hj : j = 0
      · rw [hi, hj]
      · have hdevs : (fullSlot j).dev = (fullSlot i).dev := congrArg Prod.fst hkey
        rw [hi, hother j hj] at hdevs
        cases hdevs
    · change (fullSlot i).dev ≠ 0 at hdev
      rw [hother i hi] at hdev
      exact absurd rfl hdev
  · cases hp
  · have hm : (fullSlot i).mount = false := by
      by_cases hi : i = 0
      · rw [hi]
        rfl
      · rw [hother i hi]
        rfl
    exact ⟨fun h => absurd (hm.symm.trans h) Bool.false_ne_true, fun h => by cases h⟩
  · cases hn
  · rw [hheld]
    split <;> decide
  · obtain rfl := List.eq_of_mem_replicate hr
    exact Named.bare (t := full.table) (i := 0) (by decide) (by decide)

/-- **The count comes to zero**, as the inode is looked up once more. -/
theorem full_wraps : ∃ s, Reachable (Start bare) (Step bare) s ∧ (s.table.slot 0).count = 0 ∧
    0 < (s.held bare).count 0 := by
  have hcalled : Reachable (Start bare) (Step bare) _ :=
    (Reachable.start full_start).next (act_step (a := .iget 1 5) rfl)
  have hempty := hcalled.next (act_step (a := .run 0 none) rfl)
  have hfound := hempty.next (act_step (a := .run 0 none) rfl)
  have hcounted := hfound.next (act_step (a := .run 0 none) rfl)
  refine ⟨_, hcounted, rfl, List.count_pos_iff.mpr ?_⟩
  refine List.mem_append_right _ (List.mem_append_left _ ?_)
  exact List.mem_map_of_mem (List.mem_replicate.mpr ⟨by decide, rfl⟩)

/-- **Not one slot for all who call for it**, if a reference is given back too early; **nor is the
count the number of references**, if they are too many. -/
theorem not_oneCopy :
    (¬∀ M : Mounts, M.Ok → ∀ s, Reachable (Start M) (Step M) s → ∀ r ∈ s.returns,
      ∀ r' ∈ s.returns, r.args = r'.args → r.since ≤ r'.till → r'.since ≤ r.till →
        r.slot = r'.slot) ∧
    ¬∀ M : Mounts, M.Ok → ∀ s, Reachable (Start M) (Step M) s →
      ∀ i, (s.table.slot i).count = (s.held M).count i := by
  constructor
  · intro hall
    obtain ⟨s, hs, r, hr, r', hr', hargs, hsince, htill, hne⟩ := early_returns
    exact hne (hall bare bare_ok s hs r hr r' hr' hargs hsince htill)
  · intro hall
    obtain ⟨s, hs, hzero, hpos⟩ := full_wraps
    have hcount := hall bare bare_ok s hs 0
    omega

end Linux011.Inodes.Iget

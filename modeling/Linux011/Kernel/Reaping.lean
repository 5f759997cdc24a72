import Linux011.Kernel.Exit
import Mathlib.Combinatorics.Pigeonhole

/-!
# Who reaps whom

`sys_waitpid` removes a zombie whose father is the caller, and `sys_fork` adds a task with
a pid nobody has: the loop of `find_empty_process` ends, because 65 numbers in a row
cannot all be in use. With the two parts of `do_exit` these are all the steps, so the tasks
are a family in every reachable state, and what `tell_father` and `release` print when
they do not find a task is never printed (`Linux011.Kernel.Process.process_table`).
-/

namespace Linux011.Kernel.Process

open Family (Entry Role Keeps)

variable {s s' : Sys} {i j p q nr cur n : ℕ} {pid code x y : ℤ} {options : BitVec 32}
  {used : ℤ → Bool}

/-! ### Waitpid -/

/-- The state after `release` has found the task in slot `i`. -/
def Sys.without (s : Sys) (i p : ℕ) : Sys :=
  { s.setTask i none with released := s.released ++ [s.birth p] }

/-- **`release`** finds the task. -/
theorem wp_release (hp : s.task i = some p) (hone : 1 ≤ i) (hlt : i < 64)
    (hno : ∀ j, s.task j = some p → j = i) :
    wp (release (some p)) (fun _ s' => s' = s.without i p) NoHalt s := by
  unfold release
  dsimp only
  rw [wp_bind]
  refine wp_post (wp_forUntil (fun k s' => s' = s ∧ k ≤ i) (fun _ s' => s' = s.without i p)
    ⟨rfl, hone⟩ ?_) ?_
  · rintro k s' - hk ⟨rfl, hki⟩
    rw [wp_bind, wp_get]
    refine wp_ite.mpr ⟨fun hk => ?_, fun hk => ⟨rfl, ?_⟩⟩
    · rw [wp_bind, wp_modify, wp_pure, hno k hk]
      rfl
    · have : k ≠ i := fun hki => hk (hki ▸ hp)
      omega
  · rintro (_ | _) s' hs'
    · have := hs'.2
      omega
    · exact hs'

theorem Sys.family_without : (s.without i p).family = s.family.remove i (s.entry p) := by
  unfold Sys.family Family.remove
  congr 1
  funext j
  change (Function.update s.task i none j).map s.entry = _
  by_cases hj : j = i
  · rw [hj, Function.update_self, Function.update_self]
    rfl
  · rw [Function.update_of_ne hj, Function.update_of_ne hj]

/-- **A zombie is removed**, by its father. -/
structure Reaps (cur i p : ℕ) (s s' : Sys) : Prop where
  inv : Inv s'
  ne_zero : i ≠ 0
  task : s.task i = some p
  zombie : (s.proc p).state = .zombie
  father : (s.proc p).father = (s.proc cur).pid
  family : s'.family = s.family.remove i (s.entry p)

/-- What `sys_waitpid` does: it removes a child, or nobody. -/
def Waits (cur : ℕ) (s s' : Sys) : Prop := Stays s s' ∨ ∃ i p, Reaps cur i p s s'

/-- What the task does next makes no difference to the family. -/
theorem Waits.of_family {s'' : Sys} (h : Waits cur s s') (hf : s''.family = s'.family)
    (hc : s''.console = s'.console) : Waits cur s s'' := by
  rcases h with h | ⟨i, p, h⟩
  · exact Or.inl ⟨⟨hf ▸ h.inv.ok, hc.trans h.inv.console⟩, hf ▸ h.keeps⟩
  · exact Or.inr ⟨i, p, ⟨hf ▸ h.inv.ok, hc.trans h.inv.console⟩, h.ne_zero, h.task, h.zombie,
      h.father, hf.trans h.family⟩

theorem Sys.zombie_flag (h : (s.proc p).state = .zombie) : (s.entry p).zombie = true := by
  unfold Sys.entry
  rw [h]
  rfl

/-- **The loop of `sys_waitpid`** releases a zombie child, if it finds one. -/
theorem wp_waitLoop {flag : Bool} (hi : Inv s) (hn : n < 64) :
    wp (waitLoop cur pid options n flag) (fun _ s' => Waits cur s s' ∧ s'.ctl = s.ctl ∧
      (s'.proc cur).state = (s.proc cur).state) NoHalt s := by
  have hsame : Waits cur s s ∧ s.ctl = s.ctl ∧ (s.proc cur).state = (s.proc cur).state :=
    ⟨Or.inl (.of_quiet hi (.refl s)), rfl, rfl⟩
  induction n generalizing flag with
  | zero => exact hsame
  | succ n ih =>
    have hrest : ∀ flag, wp (waitLoop cur pid options n flag) (fun _ s' => Waits cur s s' ∧
      s'.ctl = s.ctl ∧ (s'.proc cur).state = (s.proc cur).state) NoHalt s :=
      fun flag => ih (by omega)
    rw [waitLoop, wp_bind, wp_get]
    cases hp : s.task (n + 1) with
    | none => exact hrest flag
    | some p =>
      dsimp only
      refine wp_ite.mpr ⟨fun _ => hrest flag, fun hcur => wp_ite.mpr ⟨fun _ => hrest flag,
        fun hf => wp_ite.mpr ⟨fun _ => hrest flag, fun _ => ?_⟩⟩⟩
      cases hst : (s.proc p).state with
      | stopped => exact wp_ite.mpr ⟨fun _ => hrest flag, fun _ => hsame⟩
      | running => exact hrest true
      | interruptible => exact hrest true
      | uninterruptible => exact hrest true
      | zombie =>
        dsimp only
        rw [wp_bind, wp_modify, wp_bind]
        obtain ⟨s₁, hs₁⟩ : ∃ s₁, (s.setProc cur fun t =>
            { t with
              cutime := t.cutime + (s.proc p).utime
              cstime := t.cstime + (s.proc p).stime }) = s₁ := ⟨_, rfl⟩
        have hq : Quiet s s₁ := hs₁ ▸ (Quiet.refl s).setProc rfl rfl rfl
        have hi₁ := hq.inv hi
        have hp₁ : s₁.task (n + 1) = some p := hq.task ▸ hp
        rw [hs₁]
        refine wp_post (wp_release hp₁ (by omega) hn fun j hj => hi₁.slot_eq hj hp₁) ?_
        rintro - s' rfl
        have hfam : (s₁.without (n + 1) p).family = s.family.remove (n + 1) (s.entry p) := by
          rw [Sys.family_without, hq.family, hq.entry]
        refine ⟨Or.inr ⟨n + 1, p, ⟨?_, hq.console.trans hi.console⟩, by omega, hp, hst,
          not_not.mp hf, hfam⟩, hq.ctl, hq.state cur⟩
        rw [hfam]
        exact hi.ok.remove (Sys.family_slot hp) (by omega) (Sys.zombie_flag hst)

/-- **`sys_waitpid`.** -/
theorem wp_sysWaitpid (hi : Inv s) (hctl : (s.ctl cur).role = .normal)
    (hst : (s.proc cur).state = .running) :
    wp (sysWaitpid cur pid options) (fun _ s' => Waits cur s s') NoHalt s := by
  unfold sysWaitpid
  rw [wp_bind]
  refine wp_post (wp_waitLoop hi (by omega)) ?_
  rintro ⟨r, flag⟩ s₁ ⟨hw, hctl₁, hst₁⟩
  rw [← hctl₁] at hctl
  have huser : Waits cur s (s₁.setCtl cur .user) :=
    hw.of_family (Sys.family_setCtl (by rw [hctl]; rfl)) rfl
  match r, flag with
  | some (v, code), _ => exact huser
  | none, false => exact huser
  | none, true =>
    refine wp_ite.mpr ⟨fun _ => huser, fun _ => ?_⟩
    rw [wp_bind, wp_modify, wp_pure]
    refine hw.of_family ((Sys.family_setCtl (by change _ = (s₁.ctl cur).role; rw [hctl]; rfl)).trans
      (Sys.family_congr rfl (fun i p hp => ?_) rfl rfl rfl)) rfl
    -- a task that goes to sleep was no zombie
    by_cases hpc : p = cur
    · rw [hpc]
      unfold Sys.entry
      rw [Sys.proc_setProc_self, hst₁, hst]
      rfl
    · exact Sys.entry_setProc_of_ne hpc

/-- It goes on when it is woken. -/
theorem wp_resumeWaitpid (hi : Inv s) (hctl : (s.ctl cur).role = .normal)
    (hst : (s.proc cur).state = .running) :
    wp (resumeWaitpid cur pid options) (fun _ s' => Waits cur s s') NoHalt s := by
  unfold resumeWaitpid
  rw [wp_bind, wp_modify, wp_bind, wp_get]
  obtain ⟨s₁, hs₁⟩ : ∃ s₁, (s.setProc cur fun t =>
    { t with signal := t.signal &&& ~~~sigBit sigchld }) = s₁ := ⟨_, rfl⟩
  have hq : Quiet s s₁ := hs₁ ▸ (Quiet.refl s).signal cur
  rw [hs₁]
  have hctl₁ : (s₁.ctl cur).role = .normal := hq.ctl ▸ hctl
  refine wp_ite.mpr ⟨fun _ => ?_, fun _ => ?_⟩
  · refine wp_post (wp_sysWaitpid (hq.inv hi) hctl₁ ((hq.state cur).trans hst)) fun _ s' hw => ?_
    rcases hw with hw | ⟨i, p, hw⟩
    · exact Or.inl ⟨hw.inv, hq.family ▸ hw.keeps⟩
    · refine Or.inr ⟨i, p, hw.inv, hw.ne_zero, hq.task ▸ hw.task, ?_, ?_, ?_⟩
      · rw [← hq.state, hw.zombie]
      · rw [← hq.father, hw.father, hq.pid]
      · rw [hw.family, hq.family, hq.entry]
  · exact Or.inl ((Stays.of_quiet hi hq).setCtl (by rw [hctl₁]; rfl))

/-! ### Numbers -/

/-- The pid after so many steps of the counter. -/
def pidAfter (k : ℕ) (x : ℤ) : ℤ := if x + k < 2 ^ 31 then x + k else x + k - (2 ^ 31 - 1)

theorem nextPid_eq (h0 : 0 ≤ x) (hlt : x < 2 ^ 31) : nextPid x = pidAfter 1 x := by
  rw [nextPid, pidAfter]
  split <;> split <;> split <;> omega

theorem nextPid_range (h0 : 0 ≤ x) (hlt : x < 2 ^ 31) : 1 ≤ nextPid x ∧ nextPid x < 2 ^ 31 := by
  rw [nextPid_eq h0 hlt, pidAfter]
  split <;> omega

theorem pidAfter_nextPid (h0 : 0 ≤ x) (hlt : x < 2 ^ 31) {k : ℕ} (hk : k < 2 ^ 30) :
    pidAfter k (nextPid x) = pidAfter (k + 1) x := by
  rw [nextPid_eq h0 hlt, pidAfter, pidAfter, pidAfter]
  split <;> split <;> split <;> omega

theorem pidAfter_inj {k l : ℕ} (hk : k < 2 ^ 30) (hl : l < 2 ^ 30)
    (h : pidAfter (k + 1) x = pidAfter (l + 1) x) : k = l := by
  rw [pidAfter, pidAfter] at h
  split at h <;> split at h <;> omega

/-- The number the loop finds is free. -/
theorem freePid_some (h0 : 0 ≤ x) (hlt : x < 2 ^ 31) (h : freePid used n x = some y) :
    1 ≤ y ∧ y < 2 ^ 31 ∧ used y = false := by
  induction n generalizing x with
  | zero => cases h
  | succ n ih =>
    have hnext := nextPid_range h0 hlt
    rw [freePid] at h
    split at h
    · exact ih (by omega) hnext.2 h
    · next hfree =>
      obtain rfl := Option.some.inj h
      exact ⟨hnext.1, hnext.2, by simpa using hfree⟩

/-- If it finds none, all it has looked at are in use. -/
theorem freePid_none (h0 : 0 ≤ x) (hlt : x < 2 ^ 31) (hn : n < 2 ^ 30)
    (h : freePid used n x = none) : ∀ k, k < n → used (pidAfter (k + 1) x) = true := by
  induction n generalizing x with
  | zero => exact fun k hk => by omega
  | succ n ih =>
    have hnext := nextPid_range h0 hlt
    rw [freePid] at h
    split at h
    · next hused =>
      intro k hk
      cases k with
      | zero => rwa [← nextPid_eq h0 hlt]
      | succ k =>
        rw [← pidAfter_nextPid h0 hlt (by omega)]
        exact ih (by omega) hnext.2 (by omega) h k (by omega)
    · cases h

namespace Sys

theorem pidUsed_iff : s.pidUsed pid = true ↔ ∃ i p, i < 64 ∧ s.task i = some p ∧
    (s.proc p).pid = pid := by
  rw [pidUsed, List.any_eq_true]
  constructor
  · rintro ⟨i, hi, h⟩
    cases hp : s.task i with
    | none =>
      rw [hp] at h
      cases h
    | some p =>
      rw [hp] at h
      exact ⟨i, p, List.mem_range.mp hi, hp, beq_iff_eq.mp h⟩
  · rintro ⟨i, p, hi, hp, hpid⟩
    refine ⟨i, List.mem_range.mpr hi, ?_⟩
    rw [hp]
    exact beq_iff_eq.mpr hpid

/-- **There is always a free pid**: 65 numbers cannot all belong to 64 tasks. -/
theorem exists_freePid (s : Sys) (h0 : 0 ≤ x) (hlt : x < 2 ^ 31) :
    ∃ y, freePid s.pidUsed 65 x = some y := by
  cases h : freePid s.pidUsed 65 x with
  | some y => exact ⟨y, rfl⟩
  | none =>
    exfalso
    have hused := freePid_none h0 hlt (by omega) h
    have hslot : ∀ k, k < 65 → ∃ i, i < 64 ∧ ∃ p, s.task i = some p ∧
        (s.proc p).pid = pidAfter (k + 1) x := by
      intro k hk
      obtain ⟨i, p, hi, hp, hpid⟩ := pidUsed_iff.mp (hused k hk)
      exact ⟨i, hi, p, hp, hpid⟩
    choose! f hf using hslot
    obtain ⟨k, hk, l, hl, hne, heq⟩ := Finset.exists_ne_map_eq_of_card_lt_of_maps_to
      (s := Finset.range 65) (t := Finset.range 64) (f := f) (by simp)
      fun k hk => by simpa using (hf k (by simpa using hk)).1
    rw [Finset.mem_range] at hk hl
    obtain ⟨-, p, hp, hpid⟩ := hf k hk
    obtain ⟨-, q, hq, hpid'⟩ := hf l hl
    rw [heq, hq] at hp
    obtain rfl := Option.some.inj hp
    exact hne (pidAfter_inj (by omega) (by omega) (hpid.symm.trans hpid'))

end Sys

/-! ### Fork -/

/-- **`find_empty_process`** takes a free pid and finds the first empty slot. -/
theorem wp_findEmptyProcess (h0 : 0 ≤ s.lastPid) (hlt : s.lastPid < 2 ^ 31) :
    wp findEmptyProcess (fun r s' => ∃ y, 1 ≤ y ∧ y < 2 ^ 31 ∧ s.pidUsed y = false ∧
      (s.lastPid = 0 → s.pidUsed 1 = false → y = 1) ∧ s' = { s with lastPid := y } ∧
      ∀ nr, r = some nr → 1 ≤ nr ∧ nr < 64 ∧ s.task nr = none ∧
        ∀ j, 1 ≤ j → j < nr → s.task j ≠ none) NoHalt s := by
  obtain ⟨y, hy⟩ := s.exists_freePid h0 hlt
  obtain ⟨h1, h2, hfree⟩ := freePid_some h0 hlt hy
  unfold findEmptyProcess
  rw [wp_bind, wp_get, hy]
  refine ⟨y, h1, h2, hfree, fun hl hone => ?_, rfl, fun nr hnr => ?_⟩
  · rw [hl, freePid, show nextPid 0 = 1 by decide, if_neg (by rw [hone]; simp)] at hy
    exact (Option.some.inj hy).symm
  · obtain ⟨hno, hmem, hlow⟩ := List.find?_range'_eq_some.mp hnr
    rw [List.mem_range'_1] at hmem
    refine ⟨hmem.1, by omega, Option.isNone_iff_eq_none.mp hno, fun j hj hjn hnone => ?_⟩
    have := hlow j hj hjn
    rw [hnone] at this
    cases this

/-- **`copy_process`** adds a child, or nobody. -/
theorem wp_copyProcess {page : Option ℕ} {room : Bool} (hfree : s.task nr = none)
    (hpage : ∀ p, page = some p → ∀ j, s.task j ≠ some p) :
    wp (copyProcess cur nr page room) (fun _ s' => s'.console = s.console ∧
      (s'.family = s.family ∨ ∃ p, page = some p ∧ s'.family = s.family.add nr
        ⟨p, s.lastPid, (s.proc cur).pid, false, .normal, s.births⟩)) NoHalt s := by
  unfold copyProcess
  cases page with
  | none => exact ⟨rfl, Or.inl rfl⟩
  | some p =>
    have hp := hpage p rfl
    have hne : ∀ {j q}, s.task j = some q → q ≠ p := by
      rintro j q hq rfl
      exact hp j hq
    rw [wp_bind, wp_modify, wp_bind, wp_modify]
    refine wp_ite.mpr ⟨fun _ => ?_, fun _ => ?_⟩
    · refine ⟨rfl, Or.inr ⟨p, rfl, ?_⟩⟩
      unfold Sys.family Family.add
      congr 1
      funext j
      change (Function.update s.task nr (some p) j).map _ = _
      by_cases hj : j = nr
      · rw [hj, Function.update_self, Function.update_self]
        change some (Entry.mk _ _ _ _ _ _) = _
        simp [Sys.setProc, Sys.setTask, Sys.setCtl, child, Ctl.role]
      · rw [Function.update_of_ne hj, Function.update_of_ne hj]
        change _ = (s.task j).map s.entry
        cases hq : s.task j with
        | none => rfl
        | some q =>
          change some (Entry.mk _ _ _ _ _ _) = some (Entry.mk _ _ _ _ _ _)
          simp [Sys.setProc, Sys.setTask, Sys.setCtl, Function.update_of_ne (hne hq)]
    · refine ⟨rfl, Or.inl ?_⟩
      have htask : Function.update (Function.update s.task nr (some p)) nr none = s.task := by
        rw [Function.update_idem, ← hfree, Function.update_eq_self]
      refine Sys.family_congr htask (fun j q hq => ?_) rfl rfl rfl
      exact Sys.entry_setProc_of_ne (s := s.setTask nr (some p))
        (f := fun _ => child (s.proc cur) s.lastPid) (hne hq)

/-- **`sys_fork`**, by init or its descendants, or for the first time by task 0. -/
theorem wp_fork {page : Option ℕ} {room : Bool} (hi : Inv s)
    (he : Enabled s (.fork cur page room)) :
    wp (perform (.fork cur page room)) (fun _ s' => Stays s s') NoHalt s := by
  obtain ⟨⟨⟨i, -, hp⟩, hst⟩, hctl, hpage⟩ := he
  have hslot := Sys.family_slot hp
  have hrole : (s.entry cur).role = .main ∨ (s.entry cur).role = .normal := by
    change (s.ctl cur).role = _ ∨ (s.ctl cur).role = _
    rcases hctl with hctl | hctl <;> rw [hctl]
    · exact Or.inr rfl
    · exact Or.inl rfl
  obtain ⟨hmain, hfirst, hnone⟩ := hi.ok.forks hslot hrole
  rw [perform, wp_bind, wp_modify]
  -- task 0 has forked now
  obtain ⟨s₁, hs₁⟩ : ∃ s₁, (if s.ctl cur = .main then s.setCtl cur .idle else s) = s₁ := ⟨_, rfl⟩
  rw [hs₁]
  have hsame : s₁.task = s.task ∧ s₁.proc = s.proc ∧ s₁.lastPid = s.lastPid ∧
      s₁.births = s.births ∧ s₁.console = s.console := by
    rw [← hs₁]
    split <;> exact ⟨rfl, rfl, rfl, rfl, rfl⟩
  obtain ⟨htask, hproc, hlast, hbirths, hcons⟩ := hsame
  have hst₁ : Stays s s₁ ∧ ∀ e, s₁.family.slot 0 = some e → e.role ≠ .main := by
    by_cases hc : s.ctl cur = .main
    · have hr : (s.entry cur).role = .main := by
        change (s.ctl cur).role = _
        rw [hc]
        rfl
      obtain rfl := hmain.mpr hr
      rw [if_pos hc] at hs₁
      have hfam : s₁.family = s.family.put 0 { s.entry cur with role := .idle } := by
        have hput : (s.setCtl cur .idle).family = s.family.put 0 ((s.setCtl cur .idle).entry cur) :=
          Sys.family_put (fun j hj => hi.slot_eq hj hp) hp rfl
            (fun q hq => Sys.entry_setCtl_of_ne hq) rfl rfl rfl
        rw [← hs₁, hput, Sys.entry_setCtl_self]
        rfl
      refine ⟨⟨⟨hfam ▸ hi.ok.settle hslot, hcons.trans hi.console⟩,
        hfam ▸ .put hslot rfl rfl id⟩, fun e he => ?_⟩
      rw [hfam, Family.slot_put_self] at he
      rw [← Option.some.inj he]
      simp
    · rw [if_neg hc] at hs₁
      rw [← hs₁]
      refine ⟨.of_quiet hi (.refl s), fun e he hr => ?_⟩
      have hne : i ≠ 0 := by
        rintro rfl
        rw [hslot] at he
        rw [← Option.some.inj he] at hr
        rcases hctl with hctl | hctl
        · change (s.ctl cur).role = _ at hr
          rw [hctl] at hr
          cases hr
        · exact hc hctl
      rw [hi.ok.idle hslot hne he] at hr
      cases hr
  obtain ⟨hst₁, hm⟩ := hst₁
  have hused : ∀ y, s₁.pidUsed y = s.pidUsed y := fun y => by rw [Sys.pidUsed, htask, hproc]; rfl
  have hrange := hst₁.inv.ok.lastPid
  -- a number, and a slot
  rw [wp_bind, sysFork, wp_bind]
  refine wp_post (wp_findEmptyProcess hrange.1 hrange.2) ?_
  rintro r s₂ ⟨y, hy1, hylt, hfree, hone, rfl, hnr⟩
  have hok := hst₁.inv.ok.setPid (by omega : (0 : ℤ) ≤ y) hylt hm
  have hst₂ : Stays s { s₁ with lastPid := y } := ⟨⟨hok, hst₁.inv.console⟩, hst₁.keeps⟩
  cases r with
  | none => exact hst₂
  | some nr =>
    obtain ⟨hnr1, hnrlt, hempty, hlow⟩ := hnr nr rfl
    refine wp_post (wp_copyProcess (s := { s₁ with lastPid := y }) hempty
      fun p hpe j hj => hpage p hpe ⟨j, hst₁.inv.lt hj, htask ▸ hj⟩) ?_
    rintro - s' ⟨hc', hfam | ⟨p, rfl, hfam⟩⟩
    · exact ⟨⟨hfam ▸ hok, hc'.trans hst₁.inv.console⟩, hfam ▸ hst₁.keeps⟩
    · have hslot1 : s.family.slot 1 = none ↔ s.task 1 = none := Option.map_eq_none_iff
      have hempty' : ({ s₁ with lastPid := y } : Sys).family.slot nr = none :=
        Sys.family_slot_none hempty
      have hinit : nr ≠ 1 → s₁.task 1 ≠ none := fun h => hlow 1 le_rfl (by omega)
      refine ⟨⟨?_, hc'.trans hst₁.inv.console⟩, ?_⟩
      · rw [hfam]
        refine hok.add hy1 ?_ (fun j f hf => ?_) rfl (by omega) hnrlt (fun h1 => ?_) hempty' hm rfl
          rfl (fun h1 hno => ?_) fun h1 => ?_
        · rintro ⟨j, f, hf, hpid⟩
          obtain ⟨hj, hfe⟩ := Sys.task_of_family hf
          rw [hfe] at hpid
          exact absurd (Sys.pidUsed_iff.mpr ⟨j, _, hst₁.inv.lt hj, hj, hpid⟩) (by rw [hfree]; simp)
        · obtain ⟨hj, -⟩ := Sys.task_of_family hf
          intro hfp
          rw [show f.page = p from hfp] at hj
          exact hpage p rfl ⟨j, hst₁.inv.lt hj, htask ▸ hj⟩
        · -- the first child is init
          have h0 := hfirst.mpr (hslot1.mpr (htask ▸ h1 ▸ hempty))
          obtain ⟨hl, hno⟩ := hnone h0
          refine hone (hlast.trans hl) ?_
          rw [hused, Bool.eq_false_iff]
          intro hu
          obtain ⟨j, q, -, hq, hpid⟩ := Sys.pidUsed_iff.mp hu
          obtain ⟨e, he, he0⟩ := hi.ok.zero
          have hj : j = 0 := by
            by_contra hj
            have := hno j hj
            rw [Sys.family_slot hq] at this
            cases this
          rw [← hj, Sys.family_slot hq] at he
          rw [← Option.some.inj he] at he0
          have : (s.proc q).pid = 0 := he0
          omega
        · exact hinit h1 (Option.map_eq_none_iff.mp hno)
        · -- anybody else forks as a living task
          have hi0 : i ≠ 0 := fun h0 => hinit h1 (htask ▸ hslot1.mp (hfirst.mp h0))
          have hc : s.ctl cur ≠ .main := by
            intro hc
            refine hi0 (hmain.mpr ?_)
            change (s.ctl cur).role = _
            rw [hc]
            rfl
          have hs : s₁ = s := by rw [← hs₁, if_neg hc]
          refine ⟨i, s.entry cur, by omega, ?_, ?_, ?_, ?_⟩
          · rw [hs]
            exact hslot
          · rw [hs]
            rfl
          · change ((s.proc cur).state == .zombie) = false
            rw [hst]
            rfl
          · change (s.ctl cur).role ≠ _
            rw [hctl.resolve_right hc]
            simp [Ctl.role]
      · rw [hfam]
        exact hst₂.keeps.trans (.add hempty')

/-! ### Runs -/

/-- **One step** keeps the invariant, and removes a zombie at most. -/
theorem Inv.step {a : Act} (hi : Inv s) (he : Enabled s a) :
    wp (perform a) (fun _ s' => Stays s s' ∨ ∃ cur i p, Reaps cur i p s s' ∧
      ((∃ pid options, a = .waitpid cur pid options) ∨ a = .resumeWaitpid cur)) NoHalt s := by
  cases a with
  | fork cur page room => exact wp_post (wp_fork hi he) fun _ _ h => Or.inl h
  | exit cur code =>
    obtain ⟨⟨⟨i, -, hp⟩, -⟩, hctl, h1⟩ := he
    have hi0 : i ≠ 0 := by
      rintro rfl
      rcases hi.ok.task0 _ (Sys.family_slot hp) with hr | ⟨hr, -⟩ <;>
        change (s.ctl cur).role = _ at hr <;> rw [hctl] at hr <;> cases hr
    have hi1 : i ≠ 1 := by
      rintro rfl
      exact h1 hp
    exact wp_post (wp_doExit hi hp (by omega)) fun _ _ h => Or.inl h
  | sleepExit cur =>
    obtain ⟨⟨-, hst⟩, -⟩ := he
    refine Or.inl (.of_family hi (Sys.family_congr rfl (fun i p _ => ?_) rfl rfl rfl) rfl)
    by_cases hp : p = cur
    · rw [hp]
      unfold Sys.entry
      rw [Sys.proc_setProc_self, hst]
      rfl
    · exact Sys.entry_setProc_of_ne hp
  | finishExit cur =>
    obtain ⟨⟨⟨i, -, hp⟩, -⟩, code, hc⟩ := he
    rw [perform, wp_bind, wp_get, hc]
    exact wp_post (wp_finishExit hi hp hc) fun _ _ h => Or.inl h
  | waitpid cur pid options =>
    obtain ⟨⟨-, hst⟩, hctl⟩ := he
    rw [perform, wp_bind]
    refine wp_post (wp_sysWaitpid hi (by rw [hctl]; rfl) hst) fun _ s' hw => ?_
    rcases hw with hw | ⟨i, p, hw⟩
    · exact Or.inl hw
    · exact Or.inr ⟨cur, i, p, hw, Or.inl ⟨pid, options, rfl⟩⟩
  | resumeWaitpid cur =>
    obtain ⟨⟨-, hst⟩, pid, options, hctl⟩ := he
    rw [perform, wp_bind, wp_get, hctl]
    dsimp only
    rw [wp_bind]
    refine wp_post (wp_resumeWaitpid hi (by rw [hctl]; rfl) hst) fun _ s' hw => ?_
    rcases hw with hw | ⟨i, p, hw⟩
    · exact Or.inl hw
    · exact Or.inr ⟨cur, i, p, hw, Or.inr rfl⟩
  | wake p =>
    obtain ⟨-, hst⟩ := he
    refine Or.inl (.of_family hi (Sys.family_congr rfl (fun i q _ => ?_) rfl rfl rfl) rfl)
    by_cases hq : q = p
    · rw [hq]
      unfold Sys.entry
      rw [Sys.proc_setProc_self, beq_false_of_ne hst]
      rfl
    · exact Sys.entry_setProc_of_ne hq
  | adjust p signal pgrp session leader utime stime =>
    exact Or.inl (.of_quiet hi ((Quiet.refl s).setProc rfl rfl rfl))

theorem Inv.boot (h : Boot s) : Inv s := by
  obtain ⟨p, ht, hp, hc, hl, hcons, hb, hbp, hrel⟩ := h
  have h0 : s.family.slot 0 = some (s.entry p) := Sys.family_slot (by rw [ht, Function.update_self])
  have hno : ∀ i, i ≠ 0 → s.family.slot i = none := fun i hi =>
    Sys.family_slot_none (by rw [ht, Function.update_of_ne hi])
  have honly : ∀ {i e}, s.family.slot i = some e → i = 0 ∧ e = s.entry p := by
    intro i e he
    by_cases hi : i = 0
    · rw [hi, h0] at he
      exact ⟨hi, (Option.some.inj he).symm⟩
    · rw [hno i hi] at he
      cases he
  have hpid : (s.entry p).pid = 0 := by
    change (s.proc p).pid = 0
    rw [hp]
    rfl
  have hbirth : (s.entry p).birth = 0 := hbp
  refine ⟨⟨⟨?_, ?_, ?_, ?_, ⟨_, h0, hpid⟩, ?_, ?_, ?_, ?_, ?_, ?_, ?_⟩, ?_, ?_, ?_, ?_, ?_⟩, hcons⟩
  · intro i e he
    rw [(honly he).1]
    omega
  · exact fun i j e f he hf _ => (honly he).1.trans (honly hf).1.symm
  · exact fun i j e f he hf _ => (honly he).1.trans (honly hf).1.symm
  · exact fun i j e f he hf _ => (honly he).1.trans (honly hf).1.symm
  · intro e he
    have := (honly he).1
    omega
  · exact fun i e he hi => absurd (honly he).1 hi
  · intro i e he
    rw [(honly he).2, hbirth]
    change 0 < s.births
    omega
  · intro i e he hmem
    change _ ∈ s.released at hmem
    rw [hrel] at hmem
    cases hmem
  · intro k hk hne
    change k < s.births at hk
    exact absurd (by omega : (s.entry p).birth = k) (hne 0 _ h0)
  · intro k hk
    change k ∈ s.released at hk
    rw [hrel] at hk
    cases hk
  · change 0 ≤ s.lastPid ∧ s.lastPid < 2 ^ 31
    rw [hl]
    omega
  · intro e he
    refine Or.inr ⟨?_, hl, hno⟩
    rw [(honly he).2]
    change (s.ctl p).role = _
    rw [hc]
    rfl
  · exact fun i e he hi => absurd (honly he).1 hi
  · intro e he
    have := (honly he).1
    omega
  · intro i hi hne
    exact absurd (hno i (by omega)) hne
  · intro i e hi he
    have := (honly he).1
    omega

theorem Inv.reachable (h : Reachable Boot Step s) : Inv s := by
  refine h.inv (fun _ h0 => Inv.boot h0) fun s s' hi ⟨a, he, hp⟩ => ?_
  rcases wp_ok (hi.step he) hp with hs | ⟨cur, i, p, hs, -⟩
  · exact hs.inv
  · exact hs.inv

/-- A task that has not exited. -/
def Sys.Living (s : Sys) (p : ℕ) : Prop :=
  (s.proc p).state ≠ .zombie ∧ ∀ code, s.ctl p ≠ .exiting code

/-- **A step removes the zombie** in slot `i`: it is a `waitpid` of its father. -/
def RemovedBy (a : Act) (i p : ℕ) (s s' : Sys) : Prop :=
  (s.proc p).state = .zombie ∧ s'.task i = none ∧ ∃ cur,
    ((∃ pid options, a = .waitpid cur pid options) ∨ a = .resumeWaitpid cur) ∧
      (s.proc p).father = (s.proc cur).pid

/-- **The process table.** Pids are distinct and positive, and everybody but task 0 and
init has a father who has not exited. Every step goes through, without a panic, and a
task only leaves as a zombie, by the `waitpid` of its father; every task there has been is
in the table or has been released, once. Nothing is ever printed on the console. -/
theorem process_table (h : Reachable Boot Step s) :
    (∀ i j p q, s.task i = some p → s.task j = some q → (s.proc p).pid = (s.proc q).pid → i = j) ∧
    (∀ i p, i ≠ 0 → s.task i = some p → 1 ≤ (s.proc p).pid) ∧
    (∀ i p, 2 ≤ i → s.task i = some p →
      ∃ j q, s.task j = some q ∧ (s.proc q).pid = (s.proc p).father ∧ s.Living q) ∧
    (∀ a, Enabled s a → ∃ s', perform a s = .ok () s' ∧ ∀ i p, s.task i = some p →
      s'.task i = some p ∧ ((s.proc p).state = .zombie → (s'.proc p).state = .zombie) ∨
        RemovedBy a i p s s') ∧
    (∀ k, k < s.births → (∃ i p, s.task i = some p ∧ s.birth p = k ∧ k ∉ s.released) ∨
      (∀ i p, s.task i = some p → s.birth p ≠ k) ∧ s.released.count k = 1) ∧
    s.console = [] := by
  have hi := Inv.reachable h
  refine ⟨fun i j p q hp hq hpid => ?_, fun i p h0 hp => ?_, fun i p h2 hp => ?_, fun a he => ?_,
    fun k hk => ?_, hi.console⟩
  · exact hi.ok.pid i j _ _ (Sys.family_slot hp) (Sys.family_slot hq) hpid
  · exact hi.ok.pos i _ (Sys.family_slot hp) h0
  · obtain ⟨j, f, -, hf, hpid, hz, hr⟩ := hi.ok.father i _ h2 (Sys.family_slot hp)
    obtain ⟨hq, hfe⟩ := Sys.task_of_family hf
    rw [hfe] at hpid hz hr
    refine ⟨j, f.page, hq, hpid, fun hzom => ?_, fun code hc => hr ?_⟩
    · rw [Sys.zombie_flag hzom] at hz
      cases hz
    · change (s.ctl f.page).role = _
      rw [hc]
      rfl
  · obtain ⟨⟨⟩, s', hp, hs⟩ := wp_returns (hi.step he)
    refine ⟨s', hp, fun i p hip => ?_⟩
    have stays : ∀ e', s'.family.slot i = some e' → e'.page = p →
        ((s.entry p).zombie = true → e'.zombie = true) →
        s'.task i = some p ∧ ((s.proc p).state = .zombie → (s'.proc p).state = .zombie) := by
      rintro e' he' rfl hz
      obtain ⟨hq, hfe⟩ := Sys.task_of_family he'
      refine ⟨hq, fun hzom => ?_⟩
      have := hz (Sys.zombie_flag hzom)
      rw [hfe] at this
      exact beq_iff_eq.mp this
    rcases hs with hs | ⟨cur, k, q, hs, ha⟩
    · obtain ⟨e', he', hpage, -, hz⟩ := hs.keeps i _ (Sys.family_slot hip)
      exact Or.inl (stays e' he' hpage hz)
    · by_cases hik : i = k
      · subst hik
        rw [hs.task] at hip
        obtain rfl := Option.some.inj hip
        refine Or.inr ⟨hs.zombie, ?_, cur, ha, hs.father⟩
        have := Family.slot_remove_self (t := s.family) (i := i) (e := s.entry q)
        rw [← hs.family] at this
        exact Option.map_eq_none_iff.mp this
      · refine Or.inl (stays (s.entry p) ?_ rfl id)
        rw [hs.family, Family.slot_remove_of_ne hik, Sys.family_slot hip]
  · by_cases hin : ∃ i p, s.task i = some p ∧ s.birth p = k
    · obtain ⟨i, p, hp, rfl⟩ := hin
      exact Or.inl ⟨i, p, hp, rfl, hi.ok.present i _ (Sys.family_slot hp)⟩
    · refine Or.inr ⟨fun i p hp hb => hin ⟨i, p, hp, hb⟩, hi.ok.gone k hk fun i e he hb => ?_⟩
      obtain ⟨hp, hfe⟩ := Sys.task_of_family he
      rw [hfe] at hb
      exact hin ⟨i, _, hp, hb⟩

/-- The table before `main` has forked, with task 0 in page 0. -/
def main₀ : Sys where
  task := Function.update (fun _ => none) 0 (some 0)
  proc _ := initTask
  ctl _ := .main
  lastPid := 0
  console := []
  births := 1
  birth _ := 0
  released := []

/-- It has forked, and init is in page 1. -/
theorem process_table_init : ∃ s : Sys, s.task 1 = some 1 ∧ (s.proc 1).pid = 1 ∧
    (∀ i p, i ≠ 0 → s.task i = some p → 1 ≤ (s.proc p).pid) ∧ s.console = [] := by
  have hboot : Reachable Boot Step main₀ :=
    .start ⟨0, rfl, rfl, rfl, rfl, rfl, rfl, rfl, rfl⟩
  have he : Enabled main₀ (.fork 0 (some 1) true) := by
    refine ⟨⟨⟨0, by omega, rfl⟩, rfl⟩, Or.inr rfl, ?_⟩
    rintro p hp ⟨i, -, hi⟩
    obtain rfl := Option.some.inj hp
    by_cases h0 : i = 0
    · rw [h0] at hi
      cases hi
    · change Function.update (fun _ => none) 0 (some 0) i = some 1 at hi
      rw [Function.update_of_ne h0] at hi
      cases hi
  obtain ⟨s', hs', h1, h2⟩ : ∃ s', perform (.fork 0 (some 1) true) main₀ = .ok () s' ∧
      s'.task 1 = some 1 ∧ (s'.proc 1).pid = 1 := ⟨_, rfl, rfl, rfl⟩
  obtain ⟨-, hpos, -, -, -, hcons⟩ := process_table (hboot.next ⟨_, he, hs'⟩)
  exact ⟨s', h1, h2, hpos, hcons⟩

end Linux011.Kernel.Process

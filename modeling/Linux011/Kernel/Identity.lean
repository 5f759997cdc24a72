import Mathlib.Data.BitVec
import Mathlib.Tactic.Common

/-!
# Changes of identity

`sys_setreuid`, `sys_setuid`, `sys_setregid` and `sys_setgid` of `kernel/sys.c`. An id is an
`unsigned short` and the arguments are integers, so that an id is compared as it is and stored
modulo 65536.

A task that is not the superuser chooses among the ids it has (`Linux011.Kernel.Within`); so it is
step by step, and the ids it has never become more. Where the second of two ids is refused, the
first has not been changed, or it is put back.
-/

namespace Linux011.Kernel

/-! ### The calls -/

/-- The ids of a task. -/
structure Ids where
  uid : BitVec 16
  euid : BitVec 16
  gid : BitVec 16
  egid : BitVec 16
  sgid : BitVec 16
  deriving DecidableEq

/-- An id, where it is compared with an integer. -/
def asInt (id : BitVec 16) : ℤ := id.toNat

/-- An integer, where it is stored as an id. -/
def asId (n : ℤ) : BitVec 16 := BitVec.ofInt 16 n

/-- `suser`. -/
def Ids.suser (t : Ids) : Bool := t.euid = 0#16

/-- `-EPERM`. -/
def ePerm : ℤ := -1

/-- `sys_setregid`: what it returns, and the ids. -/
def sysSetregid (rgid egid : ℤ) (t : Ids) : ℤ × Ids :=
  if 0 < rgid ∧ ¬(asInt t.gid = rgid ∨ t.suser) then (ePerm, t)
  else
    let t := if 0 < rgid then { t with gid := asId rgid } else t
    if 0 < egid then
      if asInt t.gid = egid ∨ asInt t.egid = egid ∨ asInt t.sgid = egid ∨ t.suser then
        (0, { t with egid := asId egid })
      else (ePerm, t)
    else (0, t)

/-- `sys_setgid`. -/
def sysSetgid (gid : ℤ) : Ids → ℤ × Ids := sysSetregid gid gid

/-- `sys_setreuid`: what it returns, and the ids. -/
def sysSetreuid (ruid euid : ℤ) (t : Ids) : ℤ × Ids :=
  let oldRuid := t.uid
  if 0 < ruid ∧ ¬(asInt t.euid = ruid ∨ asInt oldRuid = ruid ∨ t.suser) then (ePerm, t)
  else
    let t := if 0 < ruid then { t with uid := asId ruid } else t
    if 0 < euid then
      if asInt oldRuid = euid ∨ asInt t.euid = euid ∨ t.suser then
        (0, { t with euid := asId euid })
      else (ePerm, { t with uid := oldRuid })
    else (0, t)

/-- `sys_setuid`. -/
def sysSetuid (uid : ℤ) : Ids → ℤ × Ids := sysSetreuid uid uid

/-- A call. -/
inductive IdCall
  | setreuid (ruid euid : ℤ)
  | setuid (uid : ℤ)
  | setregid (rgid egid : ℤ)
  | setgid (gid : ℤ)

/-- What a call returns, and the ids. -/
def IdCall.run : IdCall → Ids → ℤ × Ids
  | .setreuid ruid euid => sysSetreuid ruid euid
  | .setuid uid => sysSetuid uid
  | .setregid rgid egid => sysSetregid rgid egid
  | .setgid gid => sysSetgid gid

/-- **Calls, one after another.** -/
def afterCalls (calls : List IdCall) (t : Ids) : Ids := calls.foldl (fun t c => (c.run t).2) t

variable {t t' t'' : Ids} {c : IdCall} {a b : ℤ}

/-! ### One call -/

/-- What is compared is what is stored. -/
theorem asId_asInt (id : BitVec 16) : asId (asInt id) = id := by
  rw [asId, asInt, BitVec.ofInt_natCast, BitVec.ofNat_toNat, BitVec.setWidth_eq]

/-- **The ids are among those that there were.** -/
structure Within (t t' : Ids) : Prop where
  uid : t'.uid = t.uid ∨ t'.uid = t.euid
  euid : t'.euid = t.uid ∨ t'.euid = t.euid
  gid : t'.gid = t.gid ∨ t'.gid = t.egid ∨ t'.gid = t.sgid
  egid : t'.egid = t.gid ∨ t'.egid = t.egid ∨ t'.egid = t.sgid
  sgid : t'.sgid = t.sgid

theorem Within.refl (t : Ids) : Within t t :=
  ⟨Or.inl rfl, Or.inr rfl, Or.inl rfl, Or.inr (Or.inl rfl), rfl⟩

theorem Within.trans (h : Within t t') (h' : Within t' t'') : Within t t'' := by
  have hg : ∀ id, id = t'.gid ∨ id = t'.egid ∨ id = t'.sgid →
      id = t.gid ∨ id = t.egid ∨ id = t.sgid := by
    rintro id (rfl | rfl | rfl)
    · exact h.gid
    · exact h.egid
    · exact Or.inr (Or.inr h.sgid)
  have hu : ∀ id, id = t'.uid ∨ id = t'.euid → id = t.uid ∨ id = t.euid := by
    rintro id (rfl | rfl)
    · exact h.uid
    · exact h.euid
  exact ⟨hu _ h'.uid, hu _ h'.euid, hg _ h'.gid, hg _ h'.egid, h'.sgid.trans h.sgid⟩

/-- **The user ids**: a task that is not the superuser takes one that it has. -/
theorem within_setreuid (hs : t.suser = false) : Within t (sysSetreuid a b t).2 := by
  have hone : ∀ n, asInt t.uid = n ∨ asInt t.euid = n → asId n = t.uid ∨ asId n = t.euid := by
    rintro n (rfl | rfl)
    · exact Or.inl (asId_asInt t.uid)
    · exact Or.inr (asId_asInt t.euid)
  rw [sysSetreuid]
  split
  · exact Within.refl t
  · next hr =>
    -- the first assignment, if there is one
    obtain ⟨u, hu, heq⟩ : ∃ u, (u = t.uid ∨ u = t.euid) ∧
        (if 0 < a then { t with uid := asId a } else t) = { t with uid := u } := by
      split
      · next ha =>
        refine ⟨asId a, hone a ?_, rfl⟩
        by_contra hno
        refine hr ⟨ha, ?_⟩
        rintro (he | ho | hsu)
        · exact hno (Or.inr he)
        · exact hno (Or.inl ho)
        · rw [hs] at hsu
          exact absurd hsu Bool.false_ne_true
      · exact ⟨t.uid, Or.inl rfl, rfl⟩
    rw [heq]
    dsimp only
    split
    · split
      · next hb =>
        refine ⟨hu, hone b ?_, Or.inl rfl, Or.inr (Or.inl rfl), rfl⟩
        rcases hb with ho | he | hsu
        · exact Or.inl ho
        · exact Or.inr he
        · exact absurd (hs.symm.trans hsu) Bool.false_ne_true
      · exact Within.refl t
    · exact ⟨hu, Or.inr rfl, Or.inl rfl, Or.inr (Or.inl rfl), rfl⟩

/-- A task that is not the superuser may set the group id to what it is. -/
theorem setGid_eq (hs : t.suser = false) (hr : ¬(0 < a ∧ ¬(asInt t.gid = a ∨ t.suser))) :
    (if 0 < a then { t with gid := asId a } else t) = t := by
  split
  · next ha =>
    have hg : asInt t.gid = a := by
      by_contra hno
      refine hr ⟨ha, ?_⟩
      rintro (he | hsu)
      · exact hno he
      · exact absurd (hs.symm.trans hsu) Bool.false_ne_true
    rw [← hg, asId_asInt]
  · rfl

/-- **The group ids.** -/
theorem within_setregid (hs : t.suser = false) : Within t (sysSetregid a b t).2 := by
  rw [sysSetregid]
  split
  · exact Within.refl t
  · next hr =>
    rw [setGid_eq hs hr]
    dsimp only
    split
    · split
      · next hb =>
        refine ⟨Or.inl rfl, Or.inr rfl, Or.inl rfl, ?_, rfl⟩
        rcases hb with rfl | rfl | rfl | hsu
        · exact Or.inl (asId_asInt t.gid)
        · exact Or.inr (Or.inl (asId_asInt t.egid))
        · exact Or.inr (Or.inr (asId_asInt t.sgid))
        · exact absurd (hs.symm.trans hsu) Bool.false_ne_true
      · exact Within.refl t
    · exact Within.refl t

/-- **One call** of a task that is not the superuser. -/
theorem within_run (he : t.euid ≠ 0#16) (c : IdCall) : Within t (c.run t).2 := by
  have hs : t.suser = false := decide_eq_false he
  cases c with
  | setreuid ruid euid => exact within_setreuid hs
  | setuid uid => exact within_setreuid hs
  | setregid rgid egid => exact within_setregid hs
  | setgid gid => exact within_setregid hs

/-! ### Refused calls -/

theorem zero_ne_ePerm : (0 : ℤ) ≠ ePerm := by decide

/-- What is refused has not happened: the old user id is put back. -/
theorem refused_setreuid (h : (sysSetreuid a b t).1 = ePerm) : (sysSetreuid a b t).2 = t := by
  obtain ⟨t₁, ht₁⟩ : ∃ t₁, (if 0 < a then { t with uid := asId a } else t) = t₁ := ⟨_, rfl⟩
  have hback : { t₁ with uid := t.uid } = t := by
    rw [← ht₁]
    split <;> rfl
  rw [sysSetreuid, ht₁] at h ⊢
  split at h
  · next hr => rw [if_pos hr]
  · next hr =>
    rw [if_neg hr]
    dsimp only at h ⊢
    split at h
    · next hb =>
      rw [if_pos hb]
      split at h
      · exact absurd h zero_ne_ePerm
      · next hno =>
        rw [if_neg hno]
        exact hback
    · exact absurd h zero_ne_ePerm

/-- The group id has not been changed: the superuser is not refused, and others have it. -/
theorem refused_setregid (h : (sysSetregid a b t).1 = ePerm) : (sysSetregid a b t).2 = t := by
  obtain ⟨t₁, ht₁⟩ : ∃ t₁, (if 0 < a then { t with gid := asId a } else t) = t₁ := ⟨_, rfl⟩
  have hsu : t₁.suser = t.suser := by
    rw [← ht₁]
    split <;> rfl
  rw [sysSetregid, ht₁] at h ⊢
  split at h
  · next hr => rw [if_pos hr]
  · next hr =>
    rw [if_neg hr]
    dsimp only at h ⊢
    split at h
    · next hb =>
      rw [if_pos hb]
      split at h
      · exact absurd h zero_ne_ePerm
      · next hno =>
        have hs : t.suser = false := by
          rw [← hsu, ← Bool.not_eq_true]
          exact fun hs => hno (Or.inr (Or.inr (Or.inr hs)))
        rw [if_neg hno, ← ht₁]
        exact setGid_eq hs hr
    · exact absurd h zero_ne_ePerm

theorem refused_run (h : (c.run t).1 = ePerm) : (c.run t).2 = t := by
  cases c with
  | setreuid ruid euid => exact refused_setreuid h
  | setuid uid => exact refused_setreuid h
  | setregid rgid egid => exact refused_setregid h
  | setgid gid => exact refused_setregid h

/-! ### Sequences of calls -/

/-- As long as the task is not the superuser. -/
theorem within_afterCalls {calls : List IdCall}
    (h : ∀ l, l <+: calls → (afterCalls l t).euid ≠ 0#16) : Within t (afterCalls calls t) := by
  induction calls using List.reverseRecOn with
  | nil => exact Within.refl t
  | append_singleton calls c ih =>
    have hlast : afterCalls (calls ++ [c]) t = (c.run (afterCalls calls t)).2 := by
      rw [afterCalls, List.foldl_append]
      rfl
    rw [hlast]
    have hbefore := ih fun l hl => h l (hl.trans (List.prefix_append calls [c]))
    exact hbefore.trans (within_run (h calls (List.prefix_append calls [c])) c)

/-- **Changes of identity are confined and atomic**: a task that is not the superuser, and does not
become it, has no user id but the two, and no group id but the three, it had at the start; and of a
call that returns `-EPERM` nothing remains. -/
theorem identity_confined (t : Ids) :
    (∀ calls : List IdCall, (∀ l, l <+: calls → (afterCalls l t).euid ≠ 0#16) →
      let t' := afterCalls calls t
      (t'.uid = t.uid ∨ t'.uid = t.euid) ∧ (t'.euid = t.uid ∨ t'.euid = t.euid) ∧
        (t'.gid = t.gid ∨ t'.gid = t.egid ∨ t'.gid = t.sgid) ∧
        (t'.egid = t.gid ∨ t'.egid = t.egid ∨ t'.egid = t.sgid)) ∧
      ∀ c : IdCall, (c.run t).1 = ePerm → (c.run t).2 = t := by
  constructor
  · intro calls h
    have hw := within_afterCalls h
    exact ⟨hw.uid, hw.euid, hw.gid, hw.egid⟩
  · intro c hc
    exact refused_run hc

/-- A task with two user ids exchanges them. -/
theorem identity_confined_exchange :
    (sysSetreuid 7 5 ⟨5#16, 7#16, 1#16, 1#16, 1#16⟩).2 = ⟨7#16, 5#16, 1#16, 1#16, 1#16⟩ ∧
      (IdCall.run (.setuid 9) ⟨5#16, 7#16, 1#16, 1#16, 1#16⟩).2 = ⟨5#16, 7#16, 1#16, 1#16, 1#16⟩ :=
  ⟨by decide, (identity_confined ⟨5#16, 7#16, 1#16, 1#16, 1#16⟩).2 (.setuid 9) (by decide)⟩

end Linux011.Kernel

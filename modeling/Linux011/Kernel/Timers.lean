import Linux011.Lib.Run
import Mathlib.Data.List.Perm.Basic
import Mathlib.Data.Int.Order.Basic

/-!
# Kernel timers

The timer list of `kernel/sched.c`, read off the links: every entry has the number of
ticks that are to pass after the entry before it. `Linux011.Kernel.expiries` turns that
into the tick at which each entry is called, and
`Linux011.Kernel.calledAt_eq` says that this is when `do_timer` calls it.

`add_timer` moves the new entry down the list, past the entries that come before it,
and takes their ticks off its own. It does not take its own ticks off the entry that
follows it, so every entry after the new one is late from then on
(`Linux011.Kernel.onTime_iff`).
-/

namespace Linux011.Kernel

variable {F : Type}

/-- `TIME_REQUESTS`. -/
def timeRequests : ℕ := 64

/-- `struct timer_list`, in use. -/
structure Timer (F : Type) where
  jiffies : ℤ
  fn : F
  deriving DecidableEq

/-- The swap loop of `add_timer`: `p` is in front of the list. -/
def sinkTimer (p : Timer F) : List (Timer F) → List (Timer F)
  | [] => [p]
  | q :: rest =>
    if q.jiffies < p.jiffies then q :: sinkTimer { p with jiffies := p.jiffies - q.jiffies } rest
    else p :: q :: rest

/-- `add_timer`: the list it leaves and what it calls at once; `none` is the panic. -/
def addTimer (next_timer : List (Timer F)) (jiffies : ℤ) (fn : Option F) :
    Option (List (Timer F) × List F) :=
  match fn with
  | none => some (next_timer, [])
  | some fn =>
    if jiffies ≤ 0 then some (next_timer, [fn])
    else if timeRequests ≤ next_timer.length then none
    else some (sinkTimer ⟨jiffies, fn⟩ next_timer, [])

/-- `next_timer->jiffies--`, with which `do_timer` begins. -/
def countDown : List (Timer F) → List (Timer F)
  | [] => []
  | p :: rest => { p with jiffies := p.jiffies - 1 } :: rest

/-- The loop of `do_timer`: the entries that are due are taken off and called. -/
def expire : List (Timer F) → List (Timer F) × List F
  | [] => ([], [])
  | p :: rest =>
    if p.jiffies ≤ 0 then ((expire rest).1, p.fn :: (expire rest).2) else (p :: rest, [])

/-- The part of `do_timer` that is about the list. -/
def doTimer (next_timer : List (Timer F)) : List (Timer F) × List F := expire (countDown next_timer)

/-- **What the `k`-th tick from now calls**, when no timer is added. The tick `0` is the
one that is under way: a function that it calls may add a timer while others are still
to be called. -/
def calledAt : ℕ → List (Timer F) → List F
  | 0, l => (expire l).2
  | k + 1, l => calledAt k (countDown (expire l).1)

/-- **A step of the list.** A tick begins when all that was due has been called; a
function that is called may add timers. -/
inductive TimerStep (l : List (Timer F)) : List (Timer F) → Prop
  | add {jiffies : ℤ} {fn : Option F} {l' : List (Timer F)} {called : List F}
      (h : addTimer l jiffies fn = some (l', called)) : TimerStep l l'
  | tick (h : ∀ p ∈ l.head?, 0 < p.jiffies) : TimerStep l (countDown l)
  | call {p : Timer F} {rest : List (Timer F)} (hl : l = p :: rest) (h : p.jiffies ≤ 0) :
      TimerStep l rest

/-- The lists that `add_timer` and `do_timer` lead to. -/
def TimersReachable (l : List (Timer F)) : Prop := Reachable (fun l => l = []) TimerStep l

/-! ### When each timer expires -/

/-- The tick at which each entry is due, from the tick `now` on. -/
def expiries (now : ℤ) : List (Timer F) → List (ℤ × F)
  | [] => []
  | p :: rest => (now + p.jiffies, p.fn) :: expiries (now + p.jiffies) rest

/-- No entry is due before the one in front of it. -/
def Ordered (l : List (Timer F)) : Prop := ∀ p ∈ l, 0 ≤ p.jiffies

section Expiries

variable {l l' : List (Timer F)} {p : Timer F} {now e : ℤ} {f : F} {k : ℕ}

theorem le_of_mem_expiries (h : Ordered l) (he : (e, f) ∈ expiries now l) : now ≤ e := by
  induction l generalizing now with
  | nil => cases he
  | cons q rest ih =>
    have hq := h q List.mem_cons_self
    rcases List.mem_cons.mp he with he | he
    · obtain rfl := congrArg Prod.fst he
      change now ≤ now + q.jiffies
      omega
    · have := ih (fun p hp => h p (List.mem_cons_of_mem _ hp)) he
      omega

theorem expiries_countDown : expiries now (countDown l) = expiries (now - 1) l := by
  cases l with
  | nil => rfl
  | cons p rest =>
    have hnow : now + (p.jiffies - 1) = now - 1 + p.jiffies := by omega
    simp only [countDown, expiries, hnow]

theorem Ordered.expire (h : Ordered l) : Ordered (expire l).1 := by
  induction l with
  | nil => exact h
  | cons q rest ih =>
    rw [Kernel.expire]
    split
    · exact ih fun p hp => h p (List.mem_cons_of_mem _ hp)
    · exact h

theorem head_expire : ∀ p ∈ (Kernel.expire l).1.head?, 0 < p.jiffies := by
  induction l with
  | nil => simp [Kernel.expire]
  | cons q rest ih =>
    rw [Kernel.expire]
    split
    · exact ih
    · next hq =>
      rintro p hp
      obtain rfl := Option.some.inj hp
      omega

theorem Ordered.countDown (h : Ordered l) (hhead : ∀ p ∈ l.head?, 0 < p.jiffies) :
    Ordered (countDown l) := by
  cases l with
  | nil => exact h
  | cons q rest =>
    have hq := hhead q rfl
    intro p hp
    rcases List.mem_cons.mp hp with rfl | hp
    · change 0 ≤ q.jiffies - 1
      omega
    · exact h p (List.mem_cons_of_mem _ hp)

/-- **The loop calls what is due now**, and leaves the rest. -/
theorem expire_spec (h : Ordered l) (now : ℤ) :
    (Kernel.expire l).2 = ((expiries now l).filter fun x => x.1 = now).map Prod.snd ∧
      expiries now (Kernel.expire l).1 = (expiries now l).filter fun x => x.1 ≠ now := by
  induction l with
  | nil => exact ⟨rfl, rfl⟩
  | cons q rest ih =>
    have hrest : Ordered rest := fun p hp => h p (List.mem_cons_of_mem _ hp)
    have hq := h q List.mem_cons_self
    rw [Kernel.expire]
    split
    · next hdue =>
      have hzero : now + q.jiffies = now := by omega
      obtain ⟨hcalled, hleft⟩ := ih hrest
      simp only [expiries, hzero]
      refine ⟨?_, ?_⟩
      · rw [List.filter_cons_of_pos (by simp), List.map_cons, hcalled]
      · rw [List.filter_cons_of_neg (by simp), hleft]
    · next hdue =>
      have hlater : ∀ x ∈ expiries now (q :: rest), x.1 ≠ now := by
        rintro ⟨e, f⟩ hx
        rcases List.mem_cons.mp hx with hx | hx
        · obtain rfl := congrArg Prod.fst hx
          change now + q.jiffies ≠ now
          omega
        · have := le_of_mem_expiries hrest hx
          change e ≠ now
          omega
      refine ⟨?_, ?_⟩
      · rw [List.filter_eq_nil_iff.mpr fun x hx => by simpa using hlater x hx]
        rfl
      · rw [List.filter_eq_self.mpr fun x hx => by simpa using hlater x hx]

/-- **Every entry is called at the tick at which it is due.** -/
theorem calledAt_eq (h : Ordered l) (k : ℕ) (now : ℤ) :
    calledAt k l = ((expiries now l).filter fun x => x.1 = now + k).map Prod.snd := by
  induction k generalizing l now with
  | zero =>
    rw [calledAt, (expire_spec h now).1]
    simp
  | succ k ih =>
    rw [calledAt, ih (h.expire.countDown head_expire) (now + 1), expiries_countDown,
      Int.add_sub_cancel, (expire_spec h now).2, List.filter_filter]
    refine congrArg _ (List.filter_congr fun x _ => ?_)
    have hk : now + 1 + (k : ℤ) = now + ((k + 1 : ℕ) : ℤ) := by
      push_cast
      omega
    rw [hk]
    rw [← Bool.decide_and]
    refine decide_eq_decide.mpr ⟨fun hx => hx.1, fun hx => ⟨hx, ?_⟩⟩
    push_cast at hx
    simp
    omega

/-! ### Adding a timer -/

theorem Ordered.sink (h : Ordered l) (hp : 0 < p.jiffies) : Ordered (sinkTimer p l) := by
  induction l generalizing p with
  | nil =>
    rintro q hq
    obtain rfl := List.mem_singleton.mp hq
    omega
  | cons q rest ih =>
    rw [sinkTimer]
    split
    · next hlt =>
      rintro x hx
      rcases List.mem_cons.mp hx with rfl | hx
      · exact h _ List.mem_cons_self
      · refine ih (fun y hy => h y (List.mem_cons_of_mem _ hy)) ?_ x hx
        change 0 < p.jiffies - q.jiffies
        omega
    · rintro x hx
      rcases List.mem_cons.mp hx with rfl | hx
      · omega
      · exact h x hx

/-- Every list that can be reached is in order. -/
theorem TimersReachable.ordered (h : TimersReachable l) : Ordered l := by
  refine h.inv (I := Ordered) (by rintro _ rfl p hp; cases hp) ?_
  rintro l l' hl (⟨hadd⟩ | ⟨hhead⟩ | ⟨rfl, -⟩)
  · unfold addTimer at hadd
    split at hadd
    · cases hadd
      exact hl
    · split at hadd
      · cases hadd
        exact hl
      · split at hadd
        · cases hadd
        · next hj _ =>
          cases hadd
          exact hl.sink (p := ⟨_, _⟩) (not_le.mp hj)
  · exact hl.countDown hhead
  · exact fun p hp => hl p (List.mem_cons_of_mem _ hp)

/-- **Where the new entry goes**: behind those that are due before it. Those that were due
later are late by the ticks it has left. -/
theorem expiries_sink (now : ℤ) (hl : Ordered l) (hp : 0 < p.jiffies) :
    ∃ l₁ l₂ late, l = l₁ ++ l₂ ∧ 0 < late ∧
      (∀ x ∈ expiries now l₁, x.1 < now + p.jiffies) ∧
      (∃ now', expiries now l = expiries now l₁ ++ expiries now' l₂ ∧
        (∀ x ∈ expiries now' l₂, now + p.jiffies ≤ x.1) ∧
        expiries now (sinkTimer p l) =
          expiries now l₁ ++ (now + p.jiffies, p.fn) :: expiries (now' + late) l₂) := by
  induction l generalizing p now with
  | nil => exact ⟨[], [], 1, rfl, by omega, by simp [expiries], now, by simp [expiries, sinkTimer]⟩
  | cons q rest ih =>
    have hq := hl q List.mem_cons_self
    have hrest : Ordered rest := fun y hy => hl y (List.mem_cons_of_mem _ hy)
    rw [sinkTimer]
    split
    · next hlt =>
      obtain ⟨l₁, l₂, late, rfl, hlate, hbefore, now', hexp, hafter, hsink⟩ :=
        ih (p := { p with jiffies := p.jiffies - q.jiffies }) (now + q.jiffies) hrest
          (by change 0 < p.jiffies - q.jiffies; omega)
      have hdue : now + q.jiffies + (p.jiffies - q.jiffies) = now + p.jiffies := by omega
      simp only [hdue] at hbefore hafter hsink
      refine ⟨q :: l₁, l₂, late, rfl, hlate, fun x hx => ?_, now', ?_, hafter, ?_⟩
      · rcases List.mem_cons.mp hx with rfl | hx
        · change now + q.jiffies < now + p.jiffies
          omega
        · exact hbefore x hx
      · rw [expiries, hexp]
        rfl
      · rw [expiries, hsink]
        rfl
    · next hle =>
      refine ⟨[], q :: rest, p.jiffies, rfl, hp, by simp [expiries], now, rfl, fun x hx => ?_, rfl⟩
      rcases List.mem_cons.mp hx with rfl | hx
      · change now + p.jiffies ≤ now + q.jiffies
        omega
      · have := le_of_mem_expiries hrest hx
        omega

end Expiries

/-! ### Timers on time -/

/-- **The timer is called at the tick it was added for, and the others as before.** -/
def OnTime (l : List (Timer F)) (j : ℤ) (f : F) : Prop :=
  ∃ l', addTimer l j (some f) = some (l', []) ∧
    ∀ k : ℕ, (calledAt k l').Perm (calledAt k l ++ if (k : ℤ) = j then [f] else [])

/-- **A timer is on time exactly when all that are pending are due before it.** -/
theorem onTime_iff {l : List (Timer F)} {j : ℤ} {f : F} (hl : TimersReachable l) (hj : 0 < j)
    (hfree : l.length < timeRequests) :
    OnTime l j f ↔ ∀ x ∈ expiries 0 l, x.1 < j := by
  have hord := hl.ordered
  have hadd : addTimer l j (some f) = some (sinkTimer ⟨j, f⟩ l, []) := by
    rw [addTimer, if_neg (by omega), if_neg (by omega)]
  have hord' : Ordered (sinkTimer ⟨j, f⟩ l) := hord.sink hj
  obtain ⟨l₁, l₂, late, rfl, hlate, hbefore, now', hexp, hafter, hsink⟩ :=
    expiries_sink (p := ⟨j, f⟩) 0 hord hj
  simp only [Int.zero_add] at hbefore hafter hsink
  have hcalled : ∀ k : ℕ, calledAt k (sinkTimer ⟨j, f⟩ (l₁ ++ l₂)) =
      ((expiries 0 l₁).filter fun x => x.1 = (k : ℤ)).map Prod.snd ++
        ((if (k : ℤ) = j then [f] else []) ++
          ((expiries (now' + late) l₂).filter fun x => x.1 = (k : ℤ)).map Prod.snd) := by
    intro k
    rw [calledAt_eq hord' k 0, hsink, List.filter_append, List.map_append, Int.zero_add,
      List.filter_cons]
    by_cases hk : (k : ℤ) = j
    · rw [if_pos hk, if_pos (by simp [hk])]
      rfl
    · rw [if_neg hk, if_neg (by simpa using Ne.symm hk)]
      rfl
  have hcalled₀ : ∀ k : ℕ, calledAt k (l₁ ++ l₂) =
      ((expiries 0 l₁).filter fun x => x.1 = (k : ℤ)).map Prod.snd ++
        ((expiries now' l₂).filter fun x => x.1 = (k : ℤ)).map Prod.snd := by
    intro k
    rw [calledAt_eq hord k 0, hexp, List.filter_append, List.map_append, Int.zero_add]
  rw [hexp]
  constructor
  · rintro ⟨l', hl', hperm⟩ x hx
    obtain rfl : sinkTimer ⟨j, f⟩ (l₁ ++ l₂) = l' := by
      rw [hadd] at hl'
      exact congrArg Prod.fst (Option.some.inj hl')
    rcases List.mem_append.mp hx with hx | hx
    · exact hbefore x hx
    -- the first entry behind the new one is called too late
    exfalso
    cases l₂ with
    | nil => cases hx
    | cons q rest =>
      have hq := hafter (now' + q.jiffies, q.fn) List.mem_cons_self
      change j ≤ now' + q.jiffies at hq
      have hk := hperm (now' + q.jiffies).toNat
      rw [hcalled, hcalled₀] at hk
      have hto : ((now' + q.jiffies).toNat : ℤ) = now' + q.jiffies := Int.toNat_of_nonneg (by omega)
      have hrest : Ordered rest := fun p hp =>
        hord p (List.mem_append_right _ (List.mem_cons_of_mem _ hp))
      have hnone : (expiries (now' + late) (q :: rest)).filter
          (fun x => x.1 = now' + q.jiffies) = [] := by
        refine List.filter_eq_nil_iff.mpr fun x hx => ?_
        rcases List.mem_cons.mp hx with rfl | hx
        · simp
          omega
        · have := le_of_mem_expiries hrest hx
          simp
          omega
      have hsome : 0 < ((expiries now' (q :: rest)).filter
          (fun x => x.1 = now' + q.jiffies)).length := by
        rw [expiries, List.filter_cons_of_pos (by simp)]
        simp
      have hlen := hk.length_eq
      simp only [hto, hnone, List.length_append, List.length_map, List.length_nil] at hlen
      omega
  · intro hall
    refine ⟨_, hadd, fun k => ?_⟩
    obtain rfl : l₂ = [] := by
      cases l₂ with
      | nil => rfl
      | cons q rest =>
        have hq := hafter (now' + q.jiffies, q.fn) List.mem_cons_self
        have := hall (now' + q.jiffies, q.fn) (List.mem_append_right _ List.mem_cons_self)
        exact absurd hq (not_le.mpr this)
    rw [hcalled, hcalled₀]
    simp [expiries]

/-- One timer has been added. -/
theorem timersReachable_one (j : ℤ) (hj : 0 < j) : TimersReachable [(⟨j, 'a'⟩ : Timer Char)] := by
  have hadd : addTimer [] j (some 'a') = some ([(⟨j, 'a'⟩ : Timer Char)], []) := by
    rw [addTimer, if_neg (by omega), if_neg (by decide)]
    rfl
  exact Reachable.next (Reachable.start rfl) (.add hadd)

/-- A timer that is due at the second tick, and one that is added for the third. -/
theorem onTime_iff_late : OnTime [(⟨2, 'a'⟩ : Timer Char)] 3 'b' ↔
    ∀ x ∈ expiries 0 [(⟨2, 'a'⟩ : Timer Char)], x.1 < 3 :=
  onTime_iff (timersReachable_one 2 (by decide)) (by decide) (by decide)

/-- **The timer that is pending is late**: it is due at the fifth tick, and a timer that is
added for the third makes it the eighth. -/
theorem not_onTime : ¬∀ (l : List (Timer Char)) (j : ℤ) (f : Char), TimersReachable l → 0 < j →
    l.length < timeRequests → OnTime l j f := by
  intro h
  have hr := timersReachable_one 5 (by decide)
  have hlate := (onTime_iff hr (j := 3) (f := 'b') (by decide) (by decide)).mp
    (h _ 3 'b' hr (by decide) (by decide))
  exact absurd (hlate (5, 'a') (by decide)) (by decide)

end Linux011.Kernel

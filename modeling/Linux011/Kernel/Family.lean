import Linux011.Lib.Run
import Mathlib.Algebra.Group.Int.Defs
import Mathlib.Data.Int.Notation
import Mathlib.Tactic.Common
import Mathlib.Logic.Function.Basic

/-!
# Fathers, children and init

What the process table is for, without signals, groups and times: a finite family of
tasks that know each other by number. A task is born with a number that is not in use, as
the child of one that lives; a task that begins to exit gives its children to init, and
becomes a zombie some time later; a zombie is removed.

`Linux011.Kernel.Family.Ok` is what holds of it. There is one lemma for each change: a
task is born (`Ok.add`), begins to exit (`Ok.leave`), becomes a zombie (`Ok.die`) and is
removed (`Ok.remove`). That no father is missing needs the number to stand for one task at
a time, and a father to be alive: once a task has begun to exit nobody is its child.
-/

namespace Linux011.Kernel

namespace Family

/-- What a task may still do. -/
inductive Role
  /-- Task 0, which has not forked. -/
  | main
  /-- Task 0, which has. -/
  | idle
  | normal
  /-- The children have been given away. -/
  | exiting
  deriving DecidableEq

/-- **A task**: where it is kept, its numbers, and how many came before it. -/
structure Entry where
  page : ℕ
  pid : ℤ
  father : ℤ
  zombie : Bool
  role : Role
  birth : ℕ

/-- The task may have children. -/
def Entry.Alive (e : Entry) : Prop := e.zombie = false ∧ e.role ≠ .exiting

end Family

open Family

/-- **A family of tasks.** `births` counts all there have been, `released` lists those
that have been removed. -/
structure Family where
  slot : ℕ → Option Entry
  lastPid : ℤ
  births : ℕ
  released : List ℕ

namespace Family

section

variable (t : Family)

/-! ### What happens -/

/-- A task changes. -/
def put (i : ℕ) (e : Entry) : Family := { t with slot := Function.update t.slot i (some e) }

/-- A number is taken. -/
def setPid (pid : ℤ) : Family := { t with lastPid := pid }

/-- A task is born. -/
def add (nr : ℕ) (e : Entry) : Family :=
  { t with slot := Function.update t.slot nr (some e), births := t.births + 1 }

/-- A child of `pid` gets a new father. -/
def adopted (pid : ℤ) (e : Entry) : Entry :=
  { e with father := if e.father = pid then 1 else e.father }

/-- The children of `pid` get a new father. -/
def adopt (pid : ℤ) : Family := { t with slot := fun i => (t.slot i).map (adopted pid) }

/-- A task is removed. -/
def remove (i : ℕ) (e : Entry) : Family :=
  { t with slot := Function.update t.slot i none, released := t.released ++ [e.birth] }

/-- A task has the number. -/
def InUse (pid : ℤ) : Prop := ∃ i e, t.slot i = some e ∧ e.pid = pid

end

variable {t t' : Family} {i j nr page : ℕ} {c c' e f : Entry} {pid : ℤ}

@[simp] theorem slot_put_self : (t.put i e).slot i = some e := Function.update_self ..

theorem slot_put_of_ne (h : j ≠ i) : (t.put i e).slot j = t.slot j := Function.update_of_ne h ..

@[simp] theorem slot_add_self : (t.add nr e).slot nr = some e := Function.update_self ..

theorem slot_add_of_ne (h : j ≠ nr) : (t.add nr e).slot j = t.slot j := Function.update_of_ne h ..

@[simp] theorem slot_remove_self : (t.remove i e).slot i = none := Function.update_self ..

theorem slot_remove_of_ne (h : j ≠ i) : (t.remove i e).slot j = t.slot j :=
  Function.update_of_ne h ..

@[simp] theorem slot_adopt : (t.adopt pid).slot i = (t.slot i).map (adopted pid) := rfl

theorem slot_add_of_some (hfree : t.slot nr = none) (hf : t.slot j = some f) :
    (t.add nr e).slot j = some f := by
  rw [slot_add_of_ne, hf]
  rintro rfl
  rw [hfree] at hf
  cases hf

/-- Who is there after a birth. -/
theorem slot_add (h : (t.add nr e).slot j = some f) :
    j = nr ∧ f = e ∨ j ≠ nr ∧ t.slot j = some f := by
  by_cases hj : j = nr
  · rw [hj, slot_add_self] at h
    exact Or.inl ⟨hj, (Option.some.inj h).symm⟩
  · rw [slot_add_of_ne hj] at h
    exact Or.inr ⟨hj, h⟩

/-- Who is there after a change. -/
theorem slot_put (h : (t.put i e).slot j = some f) :
    j = i ∧ f = e ∨ j ≠ i ∧ t.slot j = some f := by
  by_cases hj : j = i
  · rw [hj, slot_put_self] at h
    exact Or.inl ⟨hj, (Option.some.inj h).symm⟩
  · rw [slot_put_of_ne hj] at h
    exact Or.inr ⟨hj, h⟩

/-- Who is there after a removal. -/
theorem slot_remove (h : (t.remove i e).slot j = some f) : j ≠ i ∧ t.slot j = some f := by
  by_cases hj : j = i
  · rw [hj, slot_remove_self] at h
    cases h
  · rw [slot_remove_of_ne hj] at h
    exact ⟨hj, h⟩

/-! ### Numbers -/

/-- What tells a task from the others. -/
def Entry.key (e : Entry) : ℕ × ℤ × ℕ := (e.page, e.pid, e.birth)

/-- **Every task is in the table once**: pages and numbers are its own, and every task
there has been is in the table or was removed, and removed once. -/
structure Numbered (t : Family) : Prop where
  lt : ∀ i e, t.slot i = some e → i < 64
  page : ∀ i j e f, t.slot i = some e → t.slot j = some f → e.page = f.page → i = j
  pid : ∀ i j e f, t.slot i = some e → t.slot j = some f → e.pid = f.pid → i = j
  birth : ∀ i j e f, t.slot i = some e → t.slot j = some f → e.birth = f.birth → i = j
  zero : ∃ e, t.slot 0 = some e ∧ e.pid = 0
  one : ∀ e, t.slot 1 = some e → e.pid = 1
  pos : ∀ i e, t.slot i = some e → i ≠ 0 → 1 ≤ e.pid
  birth_lt : ∀ i e, t.slot i = some e → e.birth < t.births
  present : ∀ i e, t.slot i = some e → e.birth ∉ t.released
  gone : ∀ k, k < t.births → (∀ i e, t.slot i = some e → e.birth ≠ k) → t.released.count k = 1
  counted : ∀ k, k ∈ t.released → k < t.births
  lastPid : 0 ≤ t.lastPid ∧ t.lastPid < 2 ^ 31

/-- Only the numbers matter. -/
theorem Numbered.of_key (h : Numbered t)
    (hk : ∀ j, (t'.slot j).map Entry.key = (t.slot j).map Entry.key) (hl : t'.lastPid = t.lastPid)
    (hb : t'.births = t.births) (hr : t'.released = t.released) : Numbered t' := by
  have back : ∀ {j e'}, t'.slot j = some e' → ∃ e, t.slot j = some e ∧ e'.page = e.page ∧
      e'.pid = e.pid ∧ e'.birth = e.birth := by
    intro j e' he'
    have hkj := hk j
    rw [he'] at hkj
    obtain ⟨e, he, hee⟩ := Option.map_eq_some_iff.mp hkj.symm
    obtain ⟨h1, h2⟩ := Prod.mk.inj hee
    obtain ⟨h2, h3⟩ := Prod.mk.inj h2
    exact ⟨e, he, h1.symm, h2.symm, h3.symm⟩
  have forth : ∀ {j e}, t.slot j = some e → ∃ e', t'.slot j = some e' ∧ e'.pid = e.pid ∧
      e'.birth = e.birth := by
    intro j e he
    have hkj := hk j
    rw [he] at hkj
    obtain ⟨e', he', hee⟩ := Option.map_eq_some_iff.mp hkj
    obtain ⟨-, h2⟩ := Prod.mk.inj hee
    obtain ⟨h2, h3⟩ := Prod.mk.inj h2
    exact ⟨e', he', h2, h3⟩
  constructor
  · intro i e he
    obtain ⟨e₀, he₀, -⟩ := back he
    exact h.lt i e₀ he₀
  · intro i j e f he hf hef
    obtain ⟨e₀, he₀, hpe, -⟩ := back he
    obtain ⟨f₀, hf₀, hpf, -⟩ := back hf
    exact h.page i j e₀ f₀ he₀ hf₀ (by rw [← hpe, ← hpf, hef])
  · intro i j e f he hf hef
    obtain ⟨e₀, he₀, -, hpe, -⟩ := back he
    obtain ⟨f₀, hf₀, -, hpf, -⟩ := back hf
    exact h.pid i j e₀ f₀ he₀ hf₀ (by rw [← hpe, ← hpf, hef])
  · intro i j e f he hf hef
    obtain ⟨e₀, he₀, -, -, hpe⟩ := back he
    obtain ⟨f₀, hf₀, -, -, hpf⟩ := back hf
    exact h.birth i j e₀ f₀ he₀ hf₀ (by rw [← hpe, ← hpf, hef])
  · obtain ⟨e, he, hp⟩ := h.zero
    obtain ⟨e', he', hp', -⟩ := forth he
    exact ⟨e', he', hp'.trans hp⟩
  · intro e he
    obtain ⟨e₀, he₀, -, hp, -⟩ := back he
    exact hp.trans (h.one e₀ he₀)
  · intro i e he hi
    obtain ⟨e₀, he₀, -, hp, -⟩ := back he
    rw [hp]
    exact h.pos i e₀ he₀ hi
  · intro i e he
    obtain ⟨e₀, he₀, -, -, hp⟩ := back he
    rw [hp, hb]
    exact h.birth_lt i e₀ he₀
  · intro i e he
    obtain ⟨e₀, he₀, -, -, hp⟩ := back he
    rw [hp, hr]
    exact h.present i e₀ he₀
  · intro k hlt hno
    rw [hr]
    refine h.gone k (hb ▸ hlt) fun i e he => ?_
    obtain ⟨e', he', -, hp'⟩ := forth he
    rw [← hp']
    exact hno i e' he'
  · intro k hk
    rw [hb]
    exact h.counted k (hr ▸ hk)
  · rw [hl]
    exact h.lastPid

/-- A task whose numbers stay. -/
theorem Numbered.put (h : Numbered t) (hc : t.slot i = some c) (hk : c'.key = c.key) :
    Numbered (t.put i c') := by
  refine h.of_key (fun j => ?_) rfl rfl rfl
  by_cases hj : j = i
  · rw [hj, slot_put_self, hc, Option.map_some, Option.map_some, hk]
  · rw [slot_put_of_ne hj]

theorem Numbered.adopt (h : Numbered t) (pid : ℤ) : Numbered (t.adopt pid) := by
  refine h.of_key (fun j => ?_) rfl rfl rfl
  rw [slot_adopt, Option.map_map]
  rfl

theorem Numbered.setPid (h : Numbered t) (h0 : 0 ≤ pid) (hlt : pid < 2 ^ 31) :
    Numbered (t.setPid pid) :=
  { h with lastPid := ⟨h0, hlt⟩ }

/-- **A task is born** with numbers nobody has. -/
theorem Numbered.add (h : Numbered t) (hpos : 1 ≤ e.pid) (hpid : ¬t.InUse e.pid)
    (hpage : ∀ j f, t.slot j = some f → f.page ≠ e.page) (hb : e.birth = t.births)
    (hnr : nr ≠ 0) (hlt : nr < 64) (hone : nr = 1 → e.pid = 1) (hfree : t.slot nr = none) :
    Numbered (t.add nr e) := by
  have hold : ∀ {j f}, t.slot j = some f → (t.add nr e).slot j = some f :=
    fun hf => slot_add_of_some hfree hf
  -- what nobody else has
  have hnew : ∀ {α : Type} (g : Entry → α), (∀ j f, t.slot j = some f → g f ≠ g e) →
      (∀ i j e f, t.slot i = some e → t.slot j = some f → g e = g f → i = j) →
      ∀ i j e' f, (t.add nr e).slot i = some e' → (t.add nr e).slot j = some f → g e' = g f →
        i = j := by
    intro α g hg hinj i j e' f he' hf hgf
    rcases slot_add he' with ⟨hi, rfl⟩ | ⟨-, he₀⟩
    · rcases slot_add hf with ⟨hj, -⟩ | ⟨-, hf₀⟩
      · exact hi.trans hj.symm
      · exact absurd hgf.symm (hg j f hf₀)
    · rcases slot_add hf with ⟨-, rfl⟩ | ⟨-, hf₀⟩
      · exact absurd hgf (hg i e' he₀)
      · exact hinj i j e' f he₀ hf₀ hgf
  constructor
  · intro j f hf
    rcases slot_add hf with ⟨rfl, -⟩ | ⟨-, hf⟩
    · exact hlt
    · exact h.lt j f hf
  · exact hnew Entry.page hpage h.page
  · exact hnew Entry.pid (fun j f hf hp => hpid ⟨j, f, hf, hp⟩) h.pid
  · exact hnew Entry.birth (fun j f hf hp => by
      have := h.birth_lt j f hf
      omega) h.birth
  · obtain ⟨f, hf, hp⟩ := h.zero
    exact ⟨f, hold hf, hp⟩
  · intro f hf
    rcases slot_add hf with ⟨h1, rfl⟩ | ⟨-, hf⟩
    · exact hone h1.symm
    · exact h.one f hf
  · intro j f hf hj
    rcases slot_add hf with ⟨-, rfl⟩ | ⟨-, hf⟩
    · exact hpos
    · exact h.pos j f hf hj
  · intro j f hf
    change f.birth < t.births + 1
    rcases slot_add hf with ⟨-, rfl⟩ | ⟨-, hf⟩
    · omega
    · have := h.birth_lt j f hf
      omega
  · intro j f hf hrel
    rcases slot_add hf with ⟨-, rfl⟩ | ⟨-, hf⟩
    · have := h.counted _ hrel
      omega
    · exact h.present j f hf hrel
  · intro k hk hno
    have hne : k ≠ t.births := by
      rintro rfl
      exact hno nr e (slot_add_self) hb
    have hk' : k < t.births + 1 := hk
    exact h.gone k (by omega) fun j f hf => hno j f (hold hf)
  · intro k hk
    have := h.counted k hk
    change k < t.births + 1
    omega
  · exact h.lastPid

/-- **A task is removed**, for the first and last time. -/
theorem Numbered.remove (h : Numbered t) (hc : t.slot i = some c) (hi : i ≠ 0) :
    Numbered (t.remove i c) := by
  have hkept : ∀ {j f}, j ≠ i → t.slot j = some f → (t.remove i c).slot j = some f := by
    intro j f hj hf
    rw [slot_remove_of_ne hj, hf]
  have hcount : ∀ k, (t.remove i c).released.count k =
      t.released.count k + if c.birth = k then 1 else 0 := by
    intro k
    simp only [Family.remove, List.count_append, List.count_singleton, beq_iff_eq]
  constructor
  · exact fun j f hf => h.lt j f (slot_remove hf).2
  · exact fun j k e f he hf => h.page j k e f (slot_remove he).2 (slot_remove hf).2
  · exact fun j k e f he hf => h.pid j k e f (slot_remove he).2 (slot_remove hf).2
  · exact fun j k e f he hf => h.birth j k e f (slot_remove he).2 (slot_remove hf).2
  · obtain ⟨e, he, hp⟩ := h.zero
    exact ⟨e, hkept (Ne.symm hi) he, hp⟩
  · exact fun e he => h.one e (slot_remove he).2
  · exact fun j e he => h.pos j e (slot_remove he).2
  · exact fun j e he => h.birth_lt j e (slot_remove he).2
  · intro j e he hrel
    obtain ⟨hj, he⟩ := slot_remove he
    rcases List.mem_append.mp hrel with hrel | hrel
    · exact h.present j e he hrel
    · exact hj (h.birth j i e c he hc (List.mem_singleton.mp hrel))
  · intro k hk hno
    rw [hcount]
    by_cases hkc : c.birth = k
    · rw [if_pos hkc, List.count_eq_zero.mpr (hkc ▸ h.present i c hc)]
    · rw [if_neg hkc, Nat.add_zero]
      refine h.gone k hk fun j e he => ?_
      by_cases hj : j = i
      · rw [hj, hc] at he
        exact fun hb => hkc ((congrArg Entry.birth (Option.some.inj he)).trans hb)
      · exact hno j e (hkept hj he)
  · intro k hk
    rcases List.mem_append.mp hk with hk | hk
    · exact h.counted k hk
    · rw [List.mem_singleton.mp hk]
      exact h.birth_lt i c hc
  · exact h.lastPid

/-! ### Who stays -/

/-- **Nobody is removed**, and a zombie stays one. -/
def Keeps (t t' : Family) : Prop :=
  ∀ i e, t.slot i = some e → ∃ e', t'.slot i = some e' ∧ e'.page = e.page ∧ e'.pid = e.pid ∧
    (e.zombie = true → e'.zombie = true)

theorem Keeps.refl (t : Family) : Keeps t t := fun _ e he => ⟨e, he, rfl, rfl, id⟩

theorem Keeps.trans {t'' : Family} (h : Keeps t t') (h' : Keeps t' t'') : Keeps t t'' := by
  intro i e he
  obtain ⟨e', he', hp, hn, hz⟩ := h i e he
  obtain ⟨e'', he'', hp', hn', hz'⟩ := h' i e' he'
  exact ⟨e'', he'', hp'.trans hp, hn'.trans hn, fun h => hz' (hz h)⟩

theorem Keeps.put (hc : t.slot i = some c) (hp : c'.page = c.page) (hn : c'.pid = c.pid)
    (hz : c.zombie = true → c'.zombie = true) : Keeps t (t.put i c') := by
  intro j e he
  by_cases hj : j = i
  · subst hj
    rw [hc] at he
    obtain rfl := Option.some.inj he
    exact ⟨c', slot_put_self, hp, hn, hz⟩
  · exact ⟨e, by rw [slot_put_of_ne hj, he], rfl, rfl, id⟩

theorem Keeps.adopt (t : Family) (pid : ℤ) : Keeps t (t.adopt pid) := fun i e he =>
  ⟨adopted pid e, by rw [slot_adopt, he]; rfl, rfl, rfl, id⟩

theorem Keeps.add (hfree : t.slot nr = none) : Keeps t (t.add nr e) := fun _ f hf =>
  ⟨f, slot_add_of_some hfree hf, rfl, rfl, id⟩

/-! ### Fathers -/

/-- **Every task has a father who lives.** Task 0 is not alone once it has forked, for its
child is init, which never leaves and adopts whoever loses a father. -/
structure Ok (t : Family) : Prop extends Numbered t where
  task0 : ∀ e, t.slot 0 = some e →
    e.role = .idle ∨ e.role = .main ∧ t.lastPid = 0 ∧ ∀ i, i ≠ 0 → t.slot i = none
  role : ∀ i e, t.slot i = some e → i ≠ 0 → e.role = .normal ∨ e.role = .exiting
  init : ∀ e, t.slot 1 = some e → e.Alive
  hasInit : ∀ i, 2 ≤ i → t.slot i ≠ none → t.slot 1 ≠ none
  father : ∀ i e, 2 ≤ i → t.slot i = some e →
    ∃ j f, 1 ≤ j ∧ t.slot j = some f ∧ f.pid = e.father ∧ f.Alive

/-- Task 0 has forked, where there is another task. -/
theorem Ok.idle (h : Ok t) (hc : t.slot i = some c) (hi : i ≠ 0) (he : t.slot 0 = some e) :
    e.role = .idle := by
  rcases h.task0 e he with hr | ⟨-, -, hno⟩
  · exact hr
  · rw [hno i hi] at hc
    cases hc

/-- A task that has begun to exit is neither task 0 nor init. -/
theorem Ok.exiting (h : Ok t) (hc : t.slot i = some c) (hr : c.role = .exiting) : 2 ≤ i := by
  have h0 : i ≠ 0 := by
    rintro rfl
    rcases h.task0 c hc with hr' | ⟨hr', -⟩ <;> rw [hr] at hr' <;> cases hr'
  have h1 : i ≠ 1 := by
    rintro rfl
    exact (h.init c hc).2 hr
  omega

/-- Nor is a zombie that is not task 0. -/
theorem Ok.zombie (h : Ok t) (hc : t.slot i = some c) (hi : i ≠ 0) (hz : c.zombie = true) :
    2 ≤ i := by
  have h1 : i ≠ 1 := by
    rintro rfl
    have := (h.init c hc).1
    rw [hz] at this
    cases this
  omega

/-- A task that has begun to exit is nobody's father. -/
theorem Ok.no_child (h : Ok t) (hc : t.slot i = some c) (hno : ¬c.Alive) (hj : 2 ≤ j)
    (he : t.slot j = some e) : ∃ k f, 1 ≤ k ∧ t.slot k = some f ∧ f.pid = e.father ∧ f.Alive ∧
      k ≠ i := by
  obtain ⟨k, f, hk, hf, hp, hal⟩ := h.father j e hj he
  refine ⟨k, f, hk, hf, hp, hal, ?_⟩
  rintro rfl
  rw [hc] at hf
  obtain rfl := Option.some.inj hf
  exact hno hal

/-- **The task that forks** is task 0 the first time, and only then. -/
theorem Ok.forks (h : Ok t) (hc : t.slot i = some c) (hr : c.role = .main ∨ c.role = .normal) :
    (i = 0 ↔ c.role = .main) ∧ (i = 0 ↔ t.slot 1 = none) ∧
      (i = 0 → t.lastPid = 0 ∧ ∀ j, j ≠ 0 → t.slot j = none) := by
  by_cases hi : i = 0
  · subst hi
    rcases h.task0 c hc with hr' | ⟨hr', hl, hno⟩
    · rw [hr'] at hr
      rcases hr with hr | hr <;> cases hr
    · exact ⟨by simp [hr'], by simp [hno 1 (by omega)], fun _ => ⟨hl, hno⟩⟩
  · have h1 : t.slot 1 ≠ none := by
      by_cases h1 : i = 1
      · rw [← h1, hc]
        simp
      · exact h.hasInit i (by omega) (by rw [hc]; simp)
    refine ⟨⟨fun h0 => absurd h0 hi, fun hm => ?_⟩, by simp [hi, h1], fun h0 => absurd h0 hi⟩
    rcases h.role i c hc hi with hr' | hr' <;> rw [hm] at hr' <;> cases hr'

/-- Task 0 forks. -/
theorem Ok.settle (h : Ok t) (hc : t.slot 0 = some c) :
    Ok (t.put 0 { c with role := .idle }) where
  toNumbered := h.toNumbered.put hc rfl
  task0 e he := by
    rw [slot_put_self] at he
    exact Or.inl (Option.some.inj he ▸ rfl)
  role j e he hj := by
    rw [slot_put_of_ne hj] at he
    exact h.role j e he hj
  init e he := by
    rw [slot_put_of_ne (by omega)] at he
    exact h.init e he
  hasInit j hj he := by
    rw [slot_put_of_ne (by omega)] at he ⊢
    exact h.hasInit j hj he
  father j e hj he := by
    rw [slot_put_of_ne (by omega)] at he
    obtain ⟨k, f, hk, hf, hp, hal⟩ := h.father j e hj he
    exact ⟨k, f, hk, by rw [slot_put_of_ne (by omega), hf], hp, hal⟩

/-- A number is taken. -/
theorem Ok.setPid (h : Ok t) (h0 : 0 ≤ pid) (hlt : pid < 2 ^ 31)
    (hm : ∀ e, t.slot 0 = some e → e.role ≠ .main) : Ok (t.setPid pid) :=
  { h with
    toNumbered := h.toNumbered.setPid h0 hlt
    task0 := fun e he => (h.task0 e he).imp_right fun hr => absurd hr.1 (hm e he) }

/-- **A task is born.** The first is init; every other one has a father who lives and is
not task 0. -/
theorem Ok.add (h : Ok t) (hpos : 1 ≤ e.pid) (hpid : ¬t.InUse e.pid)
    (hpage : ∀ j f, t.slot j = some f → f.page ≠ e.page) (hb : e.birth = t.births)
    (hnr : nr ≠ 0) (hlt : nr < 64) (hone : nr = 1 → e.pid = 1) (hfree : t.slot nr = none)
    (hm : ∀ e, t.slot 0 = some e → e.role ≠ .main) (hr : e.role = .normal)
    (hz : e.zombie = false) (hinit : nr ≠ 1 → t.slot 1 ≠ none)
    (hf : nr ≠ 1 → ∃ j f, 1 ≤ j ∧ t.slot j = some f ∧ f.pid = e.father ∧ f.Alive) :
    Ok (t.add nr e) := by
  have hold : ∀ {j f}, t.slot j = some f → (t.add nr e).slot j = some f :=
    fun hf => slot_add_of_some hfree hf
  refine ⟨h.toNumbered.add hpos hpid hpage hb hnr hlt hone hfree, ?_, ?_, ?_, ?_, ?_⟩
  · intro f hf
    rw [slot_add_of_ne (Ne.symm hnr)] at hf
    exact (h.task0 f hf).imp_right fun hr => absurd hr.1 (hm f hf)
  · intro j f hf hj
    rcases slot_add hf with ⟨-, rfl⟩ | ⟨-, hf⟩
    · exact Or.inl hr
    · exact h.role j f hf hj
  · intro f hf
    rcases slot_add hf with ⟨-, rfl⟩ | ⟨-, hf⟩
    · exact ⟨hz, by rw [hr]; simp⟩
    · exact h.init f hf
  · intro j hj hne
    by_cases h1 : nr = 1
    · rw [← h1, slot_add_self]
      simp
    · rw [slot_add_of_ne (Ne.symm h1)]
      exact hinit h1
  · intro j f hj hf'
    rcases slot_add hf' with ⟨rfl, rfl⟩ | ⟨-, hf₀⟩
    · obtain ⟨k, g, hk, hg, hp, hal⟩ := hf (by omega)
      exact ⟨k, g, hk, hold hg, hp, hal⟩
    · obtain ⟨k, g, hk, hg, hp, hal⟩ := h.father j f hj hf₀
      exact ⟨k, g, hk, hold hg, hp, hal⟩

/-- **A task begins to exit**: init has its children. -/
theorem Ok.leave (h : Ok t) (hc : t.slot i = some c) (hi : 2 ≤ i) :
    Ok ((t.adopt c.pid).put i { adopted c.pid c with role := .exiting }) := by
  obtain ⟨t', ht'⟩ : ∃ t', (t.adopt c.pid).put i { adopted c.pid c with role := .exiting } = t' :=
    ⟨_, rfl⟩
  -- who is who
  have hself : t'.slot i = some { adopted c.pid c with role := .exiting } := by
    rw [← ht', slot_put_self]
  have hother : ∀ j, j ≠ i → t'.slot j = (t.slot j).map (adopted c.pid) := fun j hj => by
    rw [← ht', slot_put_of_ne hj, slot_adopt]
  have hback : ∀ {j e}, t'.slot j = some e → ∃ e₀, t.slot j = some e₀ ∧
      e.father = (adopted c.pid e₀).father ∧ (j ≠ i → e = adopted c.pid e₀) := by
    intro j e he
    by_cases hj : j = i
    · subst hj
      rw [hself] at he
      obtain rfl := Option.some.inj he
      exact ⟨c, hc, rfl, fun hne => absurd rfl hne⟩
    · rw [hother j hj] at he
      obtain ⟨e₀, he₀, rfl⟩ := Option.map_eq_some_iff.mp he
      exact ⟨e₀, he₀, rfl, fun _ => rfl⟩
  have hnone : ∀ j, t'.slot j = none ↔ t.slot j = none := fun j => by
    by_cases hj : j = i
    · rw [hj, hself, hc]
      simp
    · rw [hother j hj, Option.map_eq_none_iff]
  rw [ht']
  refine ⟨?_, ?_, ?_, ?_, ?_, ?_⟩
  · rw [← ht']
    exact (h.toNumbered.adopt c.pid).put (c := adopted c.pid c) (by rw [slot_adopt, hc]; rfl) rfl
  · intro e he
    obtain ⟨e₀, he₀, -, hsame⟩ := hback he
    rw [hsame (by omega)]
    have hidle := h.idle hc (by omega) he₀
    exact Or.inl hidle
  · intro j e he hj
    obtain ⟨e₀, he₀, -, hsame⟩ := hback he
    by_cases hji : j = i
    · subst hji
      rw [hself] at he
      exact Or.inr (Option.some.inj he ▸ rfl)
    · rw [hsame hji]
      exact h.role j e₀ he₀ hj
  · intro e he
    obtain ⟨e₀, he₀, -, hsame⟩ := hback he
    rw [hsame (by omega)]
    exact h.init e₀ he₀
  · intro j hj hne
    rw [Ne, hnone] at hne ⊢
    exact h.hasInit j hj hne
  · intro j e hj he
    obtain ⟨e₀, he₀, hfa, -⟩ := hback he
    obtain ⟨k, f, hk, hf, hp, hal⟩ := h.father j e₀ hj he₀
    by_cases hki : e₀.father = c.pid
    · -- an orphan: init is there
      obtain ⟨g, hg⟩ := Option.ne_none_iff_exists'.mp (h.hasInit i hi (by rw [hc]; simp))
      refine ⟨1, adopted c.pid g, le_rfl, by rw [hother 1 (by omega), hg]; rfl, ?_, h.init g hg⟩
      rw [hfa]
      change g.pid = if e₀.father = c.pid then 1 else e₀.father
      rw [if_pos hki, h.one g hg]
    · have hki' : k ≠ i := by
        rintro rfl
        rw [hc] at hf
        exact hki (by rw [← hp, Option.some.inj hf])
      refine ⟨k, adopted c.pid f, hk, by rw [hother k hki', hf]; rfl, ?_, hal⟩
      rw [hfa]
      change f.pid = if e₀.father = c.pid then 1 else e₀.father
      rw [if_neg hki, hp]

/-- **A task becomes a zombie**, some time after it has begun to exit. -/
theorem Ok.die (h : Ok t) (hc : t.slot i = some c) (hr : c.role = .exiting) :
    Ok (t.put i { c with zombie := true }) := by
  have hi := h.exiting hc hr
  refine ⟨h.toNumbered.put hc rfl, ?_, ?_, ?_, ?_, ?_⟩
  · intro e he
    rw [slot_put_of_ne (by omega)] at he
    exact Or.inl (h.idle hc (by omega) he)
  · intro j e he hj
    rcases slot_put he with ⟨-, rfl⟩ | ⟨-, he⟩
    · exact Or.inr hr
    · exact h.role j e he hj
  · intro e he
    rw [slot_put_of_ne (by omega)] at he
    exact h.init e he
  · intro j hj hne
    rw [slot_put_of_ne (by omega)]
    exact h.hasInit i hi (by rw [hc]; simp)
  · intro j e hj he
    obtain ⟨e₀, he₀, hfa⟩ : ∃ e₀, t.slot j = some e₀ ∧ e.father = e₀.father := by
      rcases slot_put he with ⟨rfl, rfl⟩ | ⟨-, he⟩
      · exact ⟨c, hc, rfl⟩
      · exact ⟨e, he, rfl⟩
    obtain ⟨k, f, hk, hf, hp, hal, hki⟩ := h.no_child hc (fun hal => hal.2 hr) hj he₀
    exact ⟨k, f, hk, by rw [slot_put_of_ne hki, hf], hp.trans hfa.symm, hal⟩

/-- **A zombie is removed.** -/
theorem Ok.remove (h : Ok t) (hc : t.slot i = some c) (hi : i ≠ 0) (hz : c.zombie = true) :
    Ok (t.remove i c) := by
  have h2 := h.zombie hc hi hz
  have hkept : ∀ {j f}, j ≠ i → t.slot j = some f → (t.remove i c).slot j = some f := by
    intro j f hj hf
    rw [slot_remove_of_ne hj, hf]
  refine ⟨h.toNumbered.remove hc hi, ?_, ?_, ?_, ?_, ?_⟩
  · exact fun e he => Or.inl (h.idle hc hi (slot_remove he).2)
  · exact fun j e he => h.role j e (slot_remove he).2
  · exact fun e he => h.init e (slot_remove he).2
  · intro j hj hne
    rw [slot_remove_of_ne (by omega)]
    exact h.hasInit i h2 (by rw [hc]; simp)
  · intro j e hj he
    obtain ⟨k, f, hk, hf, hp, hal, hki⟩ := h.no_child hc
      (fun hal => by rw [hal.1] at hz; cases hz) hj (slot_remove he).2
    exact ⟨k, f, hk, hkept hki hf, hp, hal⟩

end Family

end Linux011.Kernel

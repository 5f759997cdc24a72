import Linux011.Lib.Run
import Linux011.Mm.Tasks

/-!
# Runs of the memory manager

The machine of `Linux011.Mm.Mem`, together with who holds the pages that
`get_free_page` has handed out and that are mapped nowhere: the structure of a
task, a task asleep in the middle of `do_no_page`, or somebody else in the kernel
(a pipe, the arguments of an `execve`).

A step is one routine run for one task: a fork, an `execve`, an exit, the reaping
of a zombie, a fault, a store, or a page taken or given back by the kernel. Tasks
take their steps in any order. The only routine that sleeps half way is
`do_no_page`, while it reads the blocks of the executable; it is two steps, and
any number of steps of other tasks may come between them.

`Linux011.Mm.Inv` is what holds in every state a run reaches.
-/

namespace Linux011.Mm

/-! ### The system -/

/-- Who holds a page that is mapped nowhere. -/
inductive Owner where
  /-- The structure of task `n` lives in it. -/
  | struct (n : ℕ)
  /-- Task `n` is reading the executable into it. -/
  | load (n : ℕ)
  /-- Another user of `get_free_page`. -/
  | other
  deriving DecidableEq

/-- **The machine, and who holds which page.** -/
structure Sys where
  mem : Mem
  owner : ℕ → Option Owner
  /-- The tasks asleep in `do_no_page`, with the address that faulted and the page
  they hold. -/
  loading : ℕ → Option (ℕ × ℕ)

namespace Sys

variable (s : Sys)

/-- The pages the kernel holds. -/
def held : Finset ℕ := (Finset.range 4096).filter fun f => s.owner f ≠ none

/-- A page changes hands. -/
def setOwner (page : ℕ) (o : Option Owner) : Sys :=
  { s with owner := Function.update s.owner page o }

/-- A task falls asleep in `do_no_page`, or wakes up. -/
def setLoading (n : ℕ) (l : Option (ℕ × ℕ)) : Sys :=
  { s with loading := Function.update s.loading n l }

/-- The machine itself. -/
def memory : Part Sys Mem := ⟨mem, fun s m => { s with mem := m }⟩

end Sys

/-- The steps of the system. -/
inductive Act where
  | fork (cur nr : ℕ)
  | exec (cur text endData exe : ℕ)
  | exit (cur : ℕ)
  | release (nr : ℕ)
  /-- A not-present fault, up to the point where it sleeps, if it does. -/
  | noPage (cur address iCount : ℕ)
  /-- The blocks have been read: `do_no_page` goes on. -/
  | loaded (cur : ℕ) (content : ℕ → Word)
  | wpFault (cur address : ℕ)
  | writeVerify (cur address : ℕ)
  | store (cur address : ℕ) (v : Word)
  | getPage
  | freePage (page : ℕ)
  | putPage (cur page address : ℕ)

/-- A routine of `Linux011.Mm.M`, run by the system. -/
def inMem {α : Type} (m : M α) : EStateM Halt Sys α := onPart Sys.memory m

theorem wp_inMem {α : Type} {m : M α} {Q : α → Sys → Prop} {E : Halt → Sys → Prop} {s : Sys} :
    wp (inMem m) Q E s ↔
      wp m (fun a m' => Q a { s with mem := m' }) (fun e m' => E e { s with mem := m' }) s.mem :=
  wp_onPart

/-- **What a step does.** -/
def perform : Act → EStateM Halt Sys Unit
  | .fork cur nr => do
    if ← inMem (copyProcess cur nr) then
      modify fun s => s.setOwner (s.mem.task nr).page (some (.struct nr))
    else pure ()
  | .exec cur text endData exe => inMem (execMem cur text endData exe)
  | .exit cur => inMem (doExit cur)
  | .release nr => do
    modify fun s => s.setOwner (s.mem.task nr).page none
    inMem (release nr)
  | .noPage cur address iCount => do
    match ← inMem (doNoPage cur address iCount) with
    | none => pure ()
    | some page =>
      modify fun s => (s.setOwner page (some (.load cur))).setLoading cur (some (address, page))
  | .loaded cur content => do
    match (← get).loading cur with
    | none => pure ()
    | some (address, page) => do
      modify fun s => (s.setOwner page none).setLoading cur none
      inMem (loadPage cur address page content)
  | .wpFault cur address => inMem (doWpPage cur address)
  | .writeVerify cur address => inMem (writeVerify cur address)
  | .store _ address v => inMem (userStore address v)
  | .getPage => do
    match ← inMem getFreePage with
    | none => pure ()
    | some page => modify fun s => s.setOwner page (some .other)
  | .freePage page => do
    modify fun s => s.setOwner page none
    inMem (freePage page)
  | .putPage _ page address => do
    match ← inMem (putPage page address) with
    | none => pure ()
    | some page => modify fun s => s.setOwner page none

/-- A task that runs: it has a structure, is no zombie, and does not sleep. -/
def Running (n : ℕ) (s : Sys) : Prop :=
  n < 64 ∧ (s.mem.task n).inUse = true ∧ (s.mem.task n).zombie = false ∧ s.loading n = none

/-- The entry of an address. -/
def entryAt (m : Mem) (address : ℕ) : Word := m.userEntry (dirIndex address) (tableIndex address)

/-- **When a step can happen**: the slot a fork goes to is unused, `do_execve`
has accepted the header, task 0 neither exits nor faults, a fault is of the kind
the processor reports, and the kernel gives back what it holds. -/
def Enabled (s : Sys) : Act → Prop
  | .fork cur nr => Running cur s ∧ 1 ≤ nr ∧ nr < 64 ∧ (s.mem.task nr).inUse = false
  | .exec cur text _ _ => 1 ≤ cur ∧ Running cur s ∧ text ≤ 0x3000000
  | .exit cur => 1 ≤ cur ∧ Running cur s
  | .release nr =>
    1 ≤ nr ∧ nr < 64 ∧ (s.mem.task nr).inUse = true ∧ (s.mem.task nr).zombie = true
  | .noPage cur address _ => 1 ≤ cur ∧ Running cur s ∧ Mine cur address s.mem ∧
    named (entryAt s.mem address) = none
  | .loaded cur _ => 1 ≤ cur ∧ cur < 64 ∧ s.loading cur ≠ none
  | .wpFault cur address => 1 ≤ cur ∧ Running cur s ∧ Mine cur address s.mem ∧
    named (entryAt s.mem address) ≠ none ∧ writable (entryAt s.mem address) = false
  | .writeVerify cur address => 1 ≤ cur ∧ Running cur s ∧ dirIndex address ∈ userDirs
  | .store cur address _ => 1 ≤ cur ∧ Running cur s ∧ Mine cur address s.mem ∧
    named (entryAt s.mem address) ≠ none ∧ writable (entryAt s.mem address) = true
  | .getPage => True
  | .freePage page => s.owner page = some .other
  | .putPage cur page address => 1 ≤ cur ∧ Running cur s ∧ Mine cur address s.mem ∧
    named (entryAt s.mem address) = none ∧ s.owner page = some .other

/-- **One step**: the routine returns, or the task it runs for is gone. -/
def Step (s s' : Sys) : Prop :=
  ∃ a, Enabled s a ∧ (perform a s = .ok () s' ∨ perform a s = .error .exited s')

/-- The system at boot: main memory is the arena `A`, whose ends are what
`mem_init` is called with. -/
def Boot (A : Arena) (s : Sys) : Prop :=
  ∃ rest : ℕ → ℕ → Word,
    s = ⟨memInit (A.lo * 4096) (A.hi * 4096) rest, fun _ => none, fun _ => none⟩

/-! ### The invariant -/

/-- **What holds of slot `n`**, for every task but task 0. -/
structure SlotInv (n : ℕ) (s : Sys) : Prop where
  inSlot : (s.mem.task n).inUse = true → InSlot n (s.mem.task n)
  /-- A live task has no tables beyond its limit. -/
  beyond : (s.mem.task n).inUse = true → (s.mem.task n).zombie = false →
    ∀ d, dirCount (s.mem.task n).dataLimit ≤ d → d < 16 → s.mem.userDir (16 * n + d) = none
  /-- A slot without a live task is empty. -/
  idle : (s.mem.task n).inUse = false ∨ (s.mem.task n).zombie = true →
    ∀ d, d < 16 → s.mem.userDir (16 * n + d) = none
  struct : (s.mem.task n).inUse = true → s.owner (s.mem.task n).page = some (.struct n)
  /-- A task asleep in `do_no_page` finds the entry as absent as it left it. -/
  loading : ∀ address page, s.loading n = some (address, page) →
    ((s.mem.task n).inUse = true ∧ (s.mem.task n).zombie = false) ∧ Mine n address s.mem ∧
      s.owner page = some (.load n) ∧ named (entryAt s.mem address) = none

/-- **The invariant of the system.** -/
structure Inv (A : Arena) (s : Sys) : Prop where
  ok : MemOk A s.held s.mem
  first : s.mem.task 0 = initTask
  range : ∀ f, s.owner f ≠ none → f < 4096
  slot : ∀ n, 1 ≤ n → n < 64 → SlotInv n s

variable {A : Arena} {s s' : Sys} {n cur nr page address f : ℕ}

/-- Running tasks, but for task 0, live in their slots. -/
theorem Inv.resides (h : Inv A s) (hone : 1 ≤ n) (hr : Running n s) : Resides n s.mem :=
  ⟨hone, hr.1, (h.slot n hone hr.1).inSlot hr.2.1, (h.slot n hone hr.1).beyond hr.2.1 hr.2.2.1⟩

theorem Inv.inSlots (h : Inv A s) : InSlots s.mem := fun n hone hlt => (h.slot n hone hlt).inSlot

/-! ### Pages changing hands -/

theorem Sys.mem_held : f ∈ s.held ↔ f < 4096 ∧ s.owner f ≠ none := by
  rw [held, Finset.mem_filter, Finset.mem_range]

@[simp] theorem Sys.setOwner_mem (s : Sys) (f : ℕ) (o : Option Owner) :
    (s.setOwner f o).mem = s.mem := rfl

theorem Sys.owner_setOwner (s : Sys) (f : ℕ) (o : Option Owner) (x : ℕ) :
    (s.setOwner f o).owner x = if x = f then o else s.owner x := by
  exact Function.update_apply _ _ _ _

theorem Sys.held_give (hf : f < 4096) (o : Owner) :
    (s.setOwner f (some o)).held = insert f s.held := by
  ext x
  rw [mem_held, Finset.mem_insert, mem_held, owner_setOwner]
  by_cases hx : x = f
  · simp [hx, hf]
  · simp [hx]

theorem Sys.held_take (f : ℕ) : (s.setOwner f none).held = s.held.erase f := by
  ext x
  rw [mem_held, Finset.mem_erase, mem_held, owner_setOwner]
  by_cases hx : x = f
  · simp [hx]
  · simp [hx]

/-- A page with an owner is a page the kernel holds. -/
theorem Inv.mem_held (h : Inv A s) {o : Owner} (ho : s.owner f = some o) : f ∈ s.held :=
  Sys.mem_held.mpr ⟨h.range f (by simp [ho]), by simp [ho]⟩

/-- A free page has no owner. -/
theorem Inv.owner_free (h : Inv A s) (hf : A.Main f) (h0 : s.mem.maps.count f = 0) :
    s.owner f = none := by
  by_contra ho
  exact (h.ok.maps.of_count_zero hf h0).2.2 (Sys.mem_held.mpr ⟨hf.lt, ho⟩)

/-! ### Slots that a step leaves alone -/

/-- The pages slot `n` relies on keep their owner. -/
def KeepsOwner (n : ℕ) (s s' : Sys) : Prop :=
  ∀ f, (s.owner f = some (.struct n) → s'.owner f = some (.struct n)) ∧
    (s.owner f = some (.load n) → s'.owner f = some (.load n))

theorem KeepsOwner.of_eq (h : s'.owner = s.owner) (n : ℕ) : KeepsOwner n s s' := fun f => by
  rw [h]
  exact ⟨id, id⟩

/-- A page that was not one of slot `n` changes hands. -/
theorem KeepsOwner.setOwner {o : Option Owner} (hs : s.owner f ≠ some (.struct n))
    (hl : s.owner f ≠ some (.load n)) (h : s'.owner = (s.setOwner f o).owner) :
    KeepsOwner n s s' := fun x => by
  rw [h, Sys.owner_setOwner]
  by_cases hx : x = f
  · subst hx
    exact ⟨fun he => absurd he hs, fun he => absurd he hl⟩
  · rw [if_neg hx]
    exact ⟨id, id⟩

/-- **A slot that is left alone**: no table appears or disappears, and what was
absent stays absent. -/
theorem SlotInv.frame (h : SlotInv n s) (hone : 1 ≤ n) (hlt : n < 64)
    (htask : s'.mem.task n = s.mem.task n)
    (hdirs : ∀ d, d < 16 → s'.mem.userDir (16 * n + d) = s.mem.userDir (16 * n + d))
    (howner : KeepsOwner n s s') (hload : s'.loading n = s.loading n)
    (habs : ∀ k j, k / 16 = n → named (s.mem.userEntry k j) = none →
      named (s'.mem.userEntry k j) = none) : SlotInv n s' where
  inSlot hu := by
    rw [htask] at hu ⊢
    exact h.inSlot hu
  beyond hu hz d hd hd' := by
    rw [htask] at hu hz hd
    rw [hdirs d hd']
    exact h.beyond hu hz d hd hd'
  idle hi d hd := by
    rw [htask] at hi
    rw [hdirs d hd]
    exact h.idle hi d hd
  struct hu := by
    rw [htask] at hu ⊢
    exact (howner _).1 (h.struct hu)
  loading address page hl := by
    rw [hload] at hl
    obtain ⟨hlive, hmine, ho, hn⟩ := h.loading address page hl
    have hr : Resides n s.mem := ⟨hone, hlt, h.inSlot hlive.1, h.beyond hlive.1 hlive.2⟩
    have := (hr.dirIndex hmine).1
    have := hr.dir_lt hmine
    refine ⟨by rwa [htask], ?_, (howner _).2 ho, habs _ _ (by omega) hn⟩
    rw [Mine] at hmine ⊢
    rwa [htask]

/-- **A step that leaves every slot alone.** -/
theorem Inv.frame (h : Inv A s) (hok : MemOk A s'.held s'.mem)
    (hrange : ∀ f, s'.owner f ≠ none → f < 4096) (htask : s'.mem.task = s.mem.task)
    (hdirs : s'.mem.userDir = s.mem.userDir) (howner : ∀ n, KeepsOwner n s s')
    (hload : s'.loading = s.loading)
    (habs : ∀ k j, named (s.mem.userEntry k j) = none → named (s'.mem.userEntry k j) = none) :
    Inv A s' where
  ok := hok
  first := htask ▸ h.first
  range := hrange
  slot n hone hlt := (h.slot n hone hlt).frame hone hlt (by rw [htask]) (fun d _ => by rw [hdirs])
    (howner n) (by rw [hload]) fun k j _ => habs k j

/-- **A step that leaves every slot but one alone.** -/
theorem Inv.frame_but (h : Inv A s) (hone : 1 ≤ cur) (hok : MemOk A s'.held s'.mem)
    (hrange : ∀ f, s'.owner f ≠ none → f < 4096)
    (htask : ∀ n, n ≠ cur → s'.mem.task n = s.mem.task n)
    (hdirs : ∀ k, k / 16 ≠ cur → s'.mem.userDir k = s.mem.userDir k)
    (howner : ∀ n, n ≠ cur → KeepsOwner n s s')
    (hload : ∀ n, n ≠ cur → s'.loading n = s.loading n)
    (hkeep : Keeps (OneSlot cur) s.mem s'.mem) (hslot : cur < 64 → SlotInv cur s') : Inv A s' where
  ok := hok
  first := (htask 0 (by omega)).trans h.first
  range := hrange
  slot n hone' hlt := by
    by_cases hn : n = cur
    · subst hn
      exact hslot hlt
    · refine (h.slot n hone' hlt).frame hone' hlt (htask n hn) (fun d hd => hdirs _ (by omega))
        (howner n hn) (hload n hn) fun k j hk he => ?_
      rw [(hkeep k j fun hS => hn (by rw [OneSlot] at hS; omega)).1, he]

/-- **The slot of a task that has run a fault handler**: a table may have appeared
within the limit. -/
theorem SlotInv.touch (h : SlotInv n s) (hr : Running n s) (htask : s'.mem.task n = s.mem.task n)
    (hdirs : ∀ d, dirCount (s.mem.task n).dataLimit ≤ d → d < 16 →
      s'.mem.userDir (16 * n + d) = s.mem.userDir (16 * n + d))
    (howner : KeepsOwner n s s')
    (hload : ∀ address page, s'.loading n = some (address, page) → Mine n address s.mem ∧
      s'.owner page = some (.load n) ∧ named (entryAt s'.mem address) = none) : SlotInv n s' where
  inSlot hu := by
    rw [htask] at hu ⊢
    exact h.inSlot hu
  beyond hu hz d hd hd' := by
    rw [htask] at hd
    rw [hdirs d hd hd']
    exact h.beyond hr.2.1 hr.2.2.1 d hd hd'
  idle hi := by
    rw [htask, hr.2.1, hr.2.2.1] at hi
    simp at hi
  struct hu := by
    rw [htask] at hu ⊢
    exact (howner _).1 (h.struct hu)
  loading address page hl := by
    obtain ⟨hm, ho, hn⟩ := hload address page hl
    refine ⟨by rw [htask]; exact ⟨hr.2.1, hr.2.2.1⟩, ?_, ho, hn⟩
    rw [Mine] at hm ⊢
    rwa [htask]

/-! ### The steps -/

/-- What every step has to come to: the invariant, or the task is gone and the
invariant holds. -/
def Safe (A : Arena) (a : Act) (s : Sys) : Prop :=
  wp (perform a) (fun _ => Inv A) (fun e s' => e = .exited ∧ Inv A s') s

/-- **A task is gone.** -/
theorem Inv.gone (h : Inv A s) (hone : 1 ≤ cur) (hlt : cur < 64)
    (huse : (s.mem.task cur).inUse = true) (hg : Gone A s'.held cur s.mem s'.mem)
    (hrange : ∀ f, s'.owner f ≠ none → f < 4096)
    (hstruct : ∀ f, s.owner f = some (.struct cur) → s'.owner f = some (.struct cur))
    (howner : ∀ n, n ≠ cur → KeepsOwner n s s')
    (hload : s'.loading = Function.update s.loading cur none) : Inv A s' := by
  refine h.frame_but hone hg.ok hrange (fun n hn => ?_) hg.dirs howner (fun n hn => ?_) hg.keeps ?_
  · rw [hg.task, Function.update_of_ne hn]
  · rw [hload, Function.update_of_ne hn]
  · intro _
    have hcur := h.slot cur hone hlt
    have htask := congrFun hg.task cur
    rw [Function.update_self] at htask
    have hin := hcur.inSlot huse
    exact
      { inSlot := fun _ => by
          rw [htask]
          exact ⟨hin.code, hin.data, hin.start, hin.limits, hin.limit_le⟩
        beyond := fun _ _ d _ hd => hg.empty d hd
        idle := fun _ => hg.empty
        struct := fun _ => by
          rw [htask]
          exact hstruct _ (hcur.struct huse)
        loading := fun address page hl => by
          rw [hload, Function.update_self] at hl
          simp at hl }

/-- The death of a task that changes hands of no page. -/
theorem Inv.dead (h : Inv A s) (hone : 1 ≤ cur) (hr : Running cur s) {m' : Mem}
    (hg : Gone A s.held cur s.mem m') : Inv A { s with mem := m' } := by
  refine h.gone hone hr.1 hr.2.1 hg h.range (fun f hf => hf) (fun n _ => KeepsOwner.of_eq rfl n) ?_
  rw [← hr.2.2.2, Function.update_eq_self]

/-- The death of a task in the middle of a routine. -/
theorem Inv.leaves (h : Inv A s) (hone : 1 ≤ cur) (hr : Running cur s) {e : Halt} {m' : Mem}
    (hl : Leaves A s.held cur s.mem e m') : e = .exited ∧ Inv A { s with mem := m' } :=
  ⟨hl.1, h.dead hone hr hl.2.1⟩

/-- A task whose address faulted: its slot afterwards. -/
theorem Inv.filled (h : Inv A s) (hone : 1 ≤ cur) (hr : Running cur s)
    (ha : Mine cur address s.mem)
    (hf : Filled A s'.held (dirIndex address) (tableIndex address) s.mem s'.mem)
    (hrange : ∀ f, s'.owner f ≠ none → f < 4096) (howner : ∀ n, KeepsOwner n s s')
    (hload : s'.loading = s.loading) : Inv A s' := by
  have hres := h.resides hone hr
  have hdir := hres.dirIndex ha
  have hdir' := hres.dir_lt ha
  refine h.frame_but hone hf.eff.ok hrange (fun n _ => by rw [hf.eff.task])
    (fun k hk => hf.dirs k (by omega)) (fun n _ => howner n) (fun n _ => by rw [hload])
    (hf.eff.keeps.mono (hres.oneSlot ha)) fun hlt => ?_
  refine (h.slot cur hone hlt).touch hr (by rw [hf.eff.task]) (fun d hd _ => hf.dirs _ (by omega))
    (howner cur) fun a p hl => ?_
  rw [hload, hr.2.2.2] at hl
  simp at hl

/-- A task that runs may fork. -/
theorem Inv.parent (h : Inv A s) (hr : Running cur s) : Parent cur s.mem := by
  by_cases hz : cur = 0
  · subst hz
    refine ⟨by omega, ?_, ?_, ?_, ?_, fun _ => ?_⟩ <;> rw [h.first, initTask] <;> simp [dirCount]
  · exact (h.resides (by omega) hr).parent

/-- The slot a child goes to is not the parent's. -/
theorem Running.ne (hr : Running cur s) (hunused : (s.mem.task nr).inUse = false) : cur ≠ nr := by
  rintro rfl
  rw [hr.2.1] at hunused
  simp at hunused

theorem Inv.fork (h : Inv A s) (he : Enabled s (.fork cur nr)) : Safe A (.fork cur nr) s := by
  obtain ⟨hr, hone, hlt, hunused⟩ := he
  have hne := hr.ne hunused
  have hempty := (h.slot nr hone hlt).idle (Or.inl hunused)
  have hpar := h.parent hr
  have hin : ∀ {p : ℕ}, InSlot nr (childTask (s.mem.task cur) nr p) := fun {p} =>
    ⟨rfl, rfl, rfl, hpar.limits, hpar.limit_le⟩
  have hload : s.loading nr = none := by
    cases hl : s.loading nr with
    | none => rfl
    | some l =>
      have := ((h.slot nr hone hlt).loading l.1 l.2 hl).1.1
      rw [hunused] at this
      simp at this
  unfold Safe perform
  rw [wp_bind, wp_inMem]
  refine wp_mono (wp_copyProcess h.ok hpar hone hlt hne hunused hempty) (fun r m' hm => ?_)
    fun _ _ he => he.elim
  cases r with
  | true =>
    obtain ⟨p, hmain, h0, hf⟩ := hm
    have hfree := h.owner_free hmain h0
    have hpage : (m'.task nr).page = p := by rw [hf.task, Function.update_self, childTask]
    rw [if_pos rfl, wp_modify]
    change Inv A (Sys.setOwner _ (m'.task nr).page _)
    rw [hpage]
    have howner : ∀ n,
        KeepsOwner n s ((Sys.mk m' s.owner s.loading).setOwner p (some (.struct nr))) :=
      fun n => KeepsOwner.setOwner (f := p) (by simp [hfree]) (by simp [hfree]) rfl
    refine h.frame_but hone (by rw [Sys.held_give hmain.lt]; exact hf.ok) (fun f hfo => ?_)
      (fun n hn => ?_) hf.dirs (fun n _ => howner n) (fun n _ => rfl) hf.keeps fun _ => ?_
    · rw [Sys.owner_setOwner] at hfo
      by_cases hfp : f = p
      · exact hfp ▸ hmain.lt
      · rw [if_neg hfp] at hfo
        exact h.range f hfo
    · change m'.task n = _
      rw [hf.task, Function.update_of_ne hn]
    · have htask : m'.task nr = childTask (s.mem.task cur) nr p := by
        rw [hf.task, Function.update_self]
      exact
        { inSlot := fun _ => by
            change InSlot nr (m'.task nr)
            rw [htask]
            exact hin
          beyond := fun _ _ d hd hd' => by
            change dirCount (m'.task nr).dataLimit ≤ d at hd
            rw [htask] at hd
            exact hf.beyond d hd hd'
          idle := fun hi => by
            change (m'.task nr).inUse = false ∨ (m'.task nr).zombie = true at hi
            rw [htask, childTask] at hi
            simp at hi
          struct := fun _ => by
            change (Sys.setOwner _ p _).owner (m'.task nr).page = _
            rw [hpage, Sys.owner_setOwner, if_pos rfl]
          loading := fun a q hl => by
            change s.loading nr = _ at hl
            rw [hload] at hl
            simp at hl }
  | false =>
    rw [if_neg (by simp), wp_pure]
    refine h.frame_but hone hm.ok h.range hm.task hm.dirs
      (fun n _ => KeepsOwner.of_eq rfl n) (fun n _ => rfl) hm.keeps fun _ => ?_
    have hu : (m'.task nr).inUse = true → False := fun hu => by
      rw [hm.unused] at hu
      simp at hu
    exact
      { inSlot := fun hu' => (hu hu').elim
        beyond := fun hu' => (hu hu').elim
        idle := fun _ => hm.empty
        struct := fun hu' => (hu hu').elim
        loading := fun a q hl => by
          change s.loading nr = _ at hl
          rw [hload] at hl
          simp at hl }

theorem Inv.exec {text endData exe : ℕ} (h : Inv A s)
    (he : Enabled s (.exec cur text endData exe)) :
    Safe A (.exec cur text endData exe) s := by
  obtain ⟨hone, hr, htext⟩ := he
  unfold Safe perform
  rw [wp_inMem]
  refine wp_mono (wp_execMem h.ok (h.resides hone hr)) ?_ fun _ _ he => he.elim
  rintro - m' ⟨hok, hkeep, -, htask, hempty, hdirs⟩
  refine h.frame_but hone hok h.range (fun n hn => ?_) hdirs
    (fun n _ => KeepsOwner.of_eq rfl n) (fun n _ => rfl) hkeep fun hlt => ?_
  · change m'.task n = _
    rw [htask, Function.update_of_ne hn]
  · have hcur := h.slot cur hone hlt
    have htask' : m'.task cur = execTask (s.mem.task cur) text endData exe := by
      rw [htask, Function.update_self]
    exact
      { inSlot := fun _ => by
          change InSlot cur (m'.task cur)
          rw [htask']
          exact (hcur.inSlot hr.2.1).exec htext
        beyond := fun _ _ d _ hd => hempty d hd
        idle := fun _ => hempty
        struct := fun _ => by
          change s.owner (m'.task cur).page = _
          rw [htask']
          exact hcur.struct hr.2.1
        loading := fun a q hl => by
          change s.loading cur = _ at hl
          rw [hr.2.2.2] at hl
          simp at hl }

theorem Inv.exit (h : Inv A s) (he : Enabled s (.exit cur)) : Safe A (.exit cur) s := by
  obtain ⟨hone, hr⟩ := he
  unfold Safe perform
  rw [wp_inMem]
  exact wp_mono (wp_doExit h.ok (h.resides hone hr))
    (fun _ m' hg => h.dead hone hr hg) fun _ _ he => he.elim

theorem Inv.release (h : Inv A s) (he : Enabled s (.release nr)) : Safe A (.release nr) s := by
  obtain ⟨hone, hlt, huse, hz⟩ := he
  have hnr := h.slot nr hone hlt
  have ho := hnr.struct huse
  have hload : s.loading nr = none := by
    cases hl : s.loading nr with
    | none => rfl
    | some l =>
      have := (hnr.loading l.1 l.2 hl).1.2
      rw [hz] at this
      simp at this
  unfold Safe perform
  rw [wp_bind, wp_modify, wp_inMem]
  refine wp_mono (wp_release h.ok (h.mem_held ho)) ?_ fun _ _ he => he.elim
  rintro - m' ⟨hok, hkeep, -, htask, hdirs⟩
  rw [Sys.setOwner_mem] at hok hkeep htask hdirs
  refine h.frame_but hone (by rw [← Sys.held_take] at hok; exact hok) (fun f hf => ?_)
    (fun n hn => ?_) (fun k _ => congrFun hdirs k) (fun n hn => ?_) (fun n _ => rfl)
    (hkeep.mono fun _ _ hS => hS.elim) fun _ => ?_
  · change (s.setOwner _ none).owner f ≠ none at hf
    rw [Sys.owner_setOwner] at hf
    by_cases hfp : f = (s.mem.task nr).page
    · simp [hfp] at hf
    · rw [if_neg hfp] at hf
      exact h.range f hf
  · change m'.task n = _
    rw [htask, Function.update_of_ne hn]
  · exact KeepsOwner.setOwner (f := (s.mem.task nr).page) (o := none)
      (by rw [ho]; simp [Ne.symm hn]) (by simp [ho]) rfl
  · have hu : (m'.task nr).inUse = true → False := fun hu => by
      rw [htask, Function.update_self] at hu
      simp at hu
    exact
      { inSlot := fun hu' => (hu hu').elim
        beyond := fun hu' => (hu hu').elim
        idle := fun _ d hd => (congrFun hdirs _).trans (hnr.idle (Or.inr hz) d hd)
        struct := fun hu' => (hu hu').elim
        loading := fun a q hl => by
          change s.loading nr = _ at hl
          rw [hload] at hl
          simp at hl }

theorem Inv.noPage {iCount : ℕ} (h : Inv A s) (he : Enabled s (.noPage cur address iCount)) :
    Safe A (.noPage cur address iCount) s := by
  obtain ⟨hone, hr, ha, habs⟩ := he
  have hres := h.resides hone hr
  unfold Safe perform
  rw [wp_bind, wp_inMem]
  refine wp_mono (wp_doNoPage h.ok hres ha h.inSlots habs) (fun r m' hm => ?_)
    fun e m' hl => h.leaves hone hr hl
  cases r with
  | none => exact h.filled hone hr ha hm.1 h.range (fun n => KeepsOwner.of_eq rfl n) rfl
  | some page =>
    obtain ⟨hmain, h0, rfl, -⟩ := hm
    obtain ⟨heff, hmaps⟩ := h.ok.takePage (S := NoEntry) hmain h0
    have hfree := h.owner_free hmain h0
    have hent : (s.mem.takePage page).userEntry = s.mem.userEntry := congrArg Maps.entry hmaps
    have hdir : (s.mem.takePage page).userDir = s.mem.userDir := congrArg Maps.dir hmaps
    have howner : ∀ n, KeepsOwner n s (s.setOwner page (some (.load cur))) := fun n =>
      KeepsOwner.setOwner (f := page) (by simp [hfree]) (by simp [hfree]) rfl
    rw [wp_modify]
    refine h.frame_but hone (by rw [← Sys.held_give hmain.lt] at heff; exact heff.ok)
      (fun f hf => ?_) (fun n _ => rfl) (fun k _ => congrFun hdir k) (fun n _ => howner n)
      (fun n hn => ?_) (heff.keeps.mono fun _ _ hS => hS.elim) fun hlt => ?_
    · change (s.setOwner page _).owner f ≠ none at hf
      rw [Sys.owner_setOwner] at hf
      by_cases hfp : f = page
      · exact hfp ▸ hmain.lt
      · rw [if_neg hfp] at hf
        exact h.range f hf
    · exact Function.update_of_ne hn _ _
    · refine (h.slot cur hone hlt).touch hr rfl (fun d _ _ => congrFun hdir _) (howner cur)
        fun a p hl => ?_
      have hl' : some (address, page) = some (a, p) := by
        rw [← hl]
        exact (Function.update_self cur (some (address, page)) s.loading).symm
      obtain ⟨rfl, rfl⟩ := Prod.mk.inj (Option.some.inj hl')
      refine ⟨ha, ?_, ?_⟩
      · exact (Sys.owner_setOwner s page _ page).trans (if_pos rfl)
      · change named ((s.mem.takePage page).userEntry _ _) = none
        rw [hent]
        exact habs

theorem Inv.loaded {content : ℕ → Word} (h : Inv A s) (he : Enabled s (.loaded cur content)) :
    Safe A (.loaded cur content) s := by
  obtain ⟨hone, hlt, he⟩ := he
  have hslot := h.slot cur hone hlt
  unfold Safe perform
  rw [wp_bind, wp_get]
  cases hl : s.loading cur with
  | none => exact absurd hl he
  | some l =>
    obtain ⟨address, page⟩ := l
    obtain ⟨⟨huse, hz⟩, ha, ho, habs⟩ := hslot.loading address page hl
    have hres : Resides cur s.mem := ⟨hone, hlt, hslot.inSlot huse, hslot.beyond huse hz⟩
    obtain ⟨s₁, hs₁⟩ : ∃ s₁, (s.setOwner page none).setLoading cur none = s₁ := ⟨_, rfl⟩
    have hmem₁ : s₁.mem = s.mem := by rw [← hs₁]; rfl
    have hload₁ : s₁.loading = Function.update s.loading cur none := by rw [← hs₁]; rfl
    have howner₁ : ∀ f, s₁.owner f = if f = page then none else s.owner f := fun f => by
      rw [← hs₁]
      exact Sys.owner_setOwner s page none f
    have hheld₁ : s₁.held = s.held.erase page := by
      rw [← Sys.held_take, ← hs₁]
      rfl
    have hrange₁ : ∀ f, s₁.owner f ≠ none → f < 4096 := fun f hf => by
      rw [howner₁] at hf
      by_cases hfp : f = page
      · simp [hfp] at hf
      · rw [if_neg hfp] at hf
        exact h.range f hf
    have hkeep₁ : ∀ n, n ≠ cur → KeepsOwner n s s₁ := fun n hn =>
      KeepsOwner.setOwner (f := page) (o := none) (by simp [ho]) (by rw [ho]; simp [Ne.symm hn])
        (by rw [← hs₁]; rfl)
    have hstruct₁ : ∀ f, s.owner f = some (.struct cur) → s₁.owner f = some (.struct cur) := by
      intro f hf
      rw [howner₁, if_neg, hf]
      rintro rfl
      rw [ho] at hf
      simp at hf
    rw [wp_bind, wp_modify, hs₁, wp_inMem, hmem₁]
    refine wp_mono (wp_loadPage h.ok hres ha habs (h.mem_held ho)) (fun _ m' hm' => ?_)
      fun e m' hm => ⟨hm.1, ?_⟩
    · have hm := hm'.1
      have hdir := hres.dirIndex ha
      have hdir' := hres.dir_lt ha
      refine h.frame_but hone (by rw [← hheld₁] at hm; exact hm.eff.ok) hrange₁
        (fun n _ => congrFun hm.eff.task n) (fun k hk => hm.dirs k (by omega)) hkeep₁
        (fun n hn => ?_) (hm.eff.keeps.mono (hres.oneSlot ha)) fun _ => ?_
      · change s₁.loading n = _
        rw [hload₁, Function.update_of_ne hn]
      · have htask : m'.task cur = s.mem.task cur := congrFun hm.eff.task cur
        exact
          { inSlot := fun _ => by
              change InSlot cur (m'.task cur)
              rw [htask]
              exact hslot.inSlot huse
            beyond := fun _ _ d hd hd' => by
              change dirCount (m'.task cur).dataLimit ≤ d at hd
              rw [htask] at hd
              exact (hm.dirs _ (by omega)).trans (hslot.beyond huse hz d hd hd')
            idle := fun hi => by
              change (m'.task cur).inUse = false ∨ (m'.task cur).zombie = true at hi
              rw [htask, huse, hz] at hi
              simp at hi
            struct := fun _ => by
              change s₁.owner (m'.task cur).page = _
              rw [htask]
              exact hstruct₁ _ (hslot.struct huse)
            loading := fun a p hl => by
              change s₁.loading cur = _ at hl
              rw [hload₁, Function.update_self] at hl
              simp at hl }
    · exact h.gone hone hlt huse (by rw [← hheld₁] at hm; exact hm.2.1) hrange₁ hstruct₁ hkeep₁
        hload₁

/-- A write fault leaves every slot alone: what was absent stays absent. -/
theorem Inv.private {k j : ℕ} {m' : Mem} (h : Inv A s)
    (hn : named (s.mem.userEntry k j) ≠ none) (hp : Private A s.held k j f s.mem m') :
    Inv A { s with mem := m' } := by
  refine h.frame hp.eff.ok h.range hp.eff.task hp.dirs (fun n => KeepsOwner.of_eq rfl n) rfl
    fun k' j' habs => ?_
  refine (hp.eff.keeps k' j' fun hS => hn ?_).1.trans habs
  rw [← hS.1, ← hS.2, habs]

theorem Inv.wpFault (h : Inv A s) (he : Enabled s (.wpFault cur address)) :
    Safe A (.wpFault cur address) s := by
  obtain ⟨hone, hr, -, hn, -⟩ := he
  obtain ⟨f, hf⟩ := Option.ne_none_iff_exists'.mp hn
  unfold Safe perform
  rw [wp_inMem]
  exact wp_mono (wp_doWpPage h.ok (h.resides hone hr) hf) (fun _ m' hm => h.private hn hm)
    fun e m' hl => h.leaves hone hr hl

theorem Inv.writeVerify (h : Inv A s) (he : Enabled s (.writeVerify cur address)) :
    Safe A (.writeVerify cur address) s := by
  obtain ⟨hone, hr, ha⟩ := he
  unfold Safe perform
  rw [wp_inMem]
  refine wp_mono (wp_writeVerify h.ok (h.resides hone hr) ha) (fun _ m' hm => ?_)
    fun e m' hl => h.leaves hone hr hl
  rcases hm with rfl | ⟨f, hf, hm⟩
  · exact h
  · exact h.private (by rw [hf]; simp) hm

/-- A store leaves every slot alone. -/
theorem Inv.stored {k j i : ℕ} {v : Word} {m' : Mem} (hi : Inv A s)
    (hs : Stored A s.held k j f i v s.mem m') : Inv A { s with mem := m' } :=
  hi.frame hs.ok hi.range hs.task hs.dirs (fun n => KeepsOwner.of_eq rfl n) rfl
    fun k j habs => (hs.named_eq k j).trans habs

theorem Inv.store {v : Word} (h : Inv A s) (he : Enabled s (.store cur address v)) :
    Safe A (.store cur address v) s := by
  obtain ⟨-, -, -, hn, hw⟩ := he
  obtain ⟨f, hf⟩ := Option.ne_none_iff_exists'.mp hn
  unfold Safe perform
  rw [wp_inMem]
  exact wp_mono (wp_store h.ok hf (h.ok.maps.rw_only hf hw).1) (fun _ m' hs => h.stored hs)
    fun _ _ he => he.elim

theorem Inv.getPage (h : Inv A s) : Safe A .getPage s := by
  unfold Safe perform
  rw [wp_bind, wp_inMem]
  refine wp_mono (wp_getFreePage h.ok) (fun r m' hm => ?_) fun _ _ he => he.elim
  cases r with
  | none =>
    obtain ⟨rfl, -⟩ := hm
    exact h
  | some page =>
    obtain ⟨hmain, h0, rfl⟩ := hm
    obtain ⟨heff, hmaps⟩ := h.ok.takePage (S := NoEntry) hmain h0
    have hfree := h.owner_free hmain h0
    rw [wp_modify]
    refine h.frame (by rw [← Sys.held_give hmain.lt] at heff; exact heff.ok) (fun f hf => ?_) rfl
      (congrArg Maps.dir hmaps)
      (fun n => KeepsOwner.setOwner (f := page) (by simp [hfree]) (by simp [hfree]) rfl) rfl
      fun k j habs =>
        (congrArg named (congrFun (congrFun (congrArg Maps.entry hmaps) k) j)).trans habs
    change (s.setOwner page _).owner f ≠ none at hf
    rw [Sys.owner_setOwner] at hf
    by_cases hfp : f = page
    · exact hfp ▸ hmain.lt
    · rw [if_neg hfp] at hf
      exact h.range f hf

/-- The pages that have an owner after one has been let go of. -/
theorem Inv.range_take (h : Inv A s) (page : ℕ) :
    ∀ f, (s.setOwner page none).owner f ≠ none → f < 4096 := fun f hf => by
  rw [Sys.owner_setOwner] at hf
  by_cases hfp : f = page
  · simp [hfp] at hf
  · rw [if_neg hfp] at hf
    exact h.range f hf

theorem Inv.freePage (h : Inv A s) (he : Enabled s (.freePage page)) :
    Safe A (.freePage page) s := by
  have ho : s.owner page = some .other := he
  unfold Safe perform
  rw [wp_bind, wp_modify, wp_inMem]
  refine wp_mono (wp_freePage_own h.ok (h.mem_held ho)) ?_ fun _ _ he => he.elim
  rintro - m' ⟨heff, hdirs⟩
  refine h.frame (by rw [← Sys.held_take] at heff; exact heff.ok) (h.range_take page) heff.task
    hdirs
    (fun n => KeepsOwner.setOwner (f := page) (o := none) (by simp [ho]) (by simp [ho]) rfl) rfl
    fun k j habs => (heff.keeps k j fun hS => hS.elim).1.trans habs

theorem Inv.putPage (h : Inv A s) (he : Enabled s (.putPage cur page address)) :
    Safe A (.putPage cur page address) s := by
  obtain ⟨hone, hr, ha, habs, ho⟩ := he
  have hres := h.resides hone hr
  have hpage := h.ok.maps.own_main (h.mem_held ho)
  unfold Safe perform
  rw [wp_bind, wp_inMem]
  refine wp_mono (wp_putPage h.ok (hres.mem_userDirs ha) habs (h.mem_held ho)) (fun r m' hm => ?_)
    fun _ _ he => he.elim
  cases r with
  | none =>
    obtain ⟨rfl, -⟩ := hm
    exact h
  | some p =>
    obtain ⟨rfl, heff, hdirs, hent, -⟩ := hm
    have hn := congrArg named hent
    rw [named_pageEntry hpage.lt_pow] at hn
    rw [wp_modify]
    refine h.filled hone hr ha ⟨?_, hdirs, p, hn, hpage.le⟩ (h.range_take p)
      (fun n => KeepsOwner.setOwner (f := p) (o := none) (by simp [ho]) (by simp [ho]) rfl) rfl
    rw [← Sys.held_take] at heff
    exact heff

/-- **Every step keeps the invariant.** -/
theorem Inv.safe (h : Inv A s) : ∀ a, Enabled s a → Safe A a s
  | .fork _ _, he => h.fork he
  | .exec _ _ _ _, he => h.exec he
  | .exit _, he => h.exit he
  | .release _, he => h.release he
  | .noPage _ _ _, he => h.noPage he
  | .loaded _ _, he => h.loaded he
  | .wpFault _ _, he => h.wpFault he
  | .writeVerify _ _, he => h.writeVerify he
  | .store _ _ _, he => h.store he
  | .getPage, _ => h.getPage
  | .freePage _, he => h.freePage he
  | .putPage _ _ _, he => h.putPage he

theorem Inv.step (h : Inv A s) (hs : Step s s') : Inv A s' := by
  obtain ⟨a, he, hp | hp⟩ := hs
  · exact wp_ok (Q := fun _ => Inv A) (h.safe a he) hp
  · exact (wp_error (h.safe a he) hp).2

/-- It holds at boot. -/
theorem Inv.boot (h : Boot A s) : Inv A s := by
  obtain ⟨rest, rfl⟩ := h
  have hok := memOk_memInit A rest
  have hheld : Sys.held ⟨memInit (A.lo * 4096) (A.hi * 4096) rest, fun _ => none, fun _ => none⟩ =
      ∅ := by
    ext f
    rw [Sys.mem_held]
    simp
  have htask : ∀ n, 1 ≤ n → (memInit (A.lo * 4096) (A.hi * 4096) rest).task n = noTask :=
    fun n hn => if_neg (by omega)
  have hunused : noTask.inUse = true → False := fun hu => by simp [noTask] at hu
  refine ⟨hheld ▸ hok, rfl, fun f hf => absurd rfl hf, fun n hone _ => ?_⟩
  exact
    { inSlot := fun hu => by
        rw [htask n hone] at hu
        exact (hunused hu).elim
      beyond := fun hu => by
        rw [htask n hone] at hu
        exact (hunused hu).elim
      idle := fun _ d _ => by
        have hzero : (memInit (A.lo * 4096) (A.hi * 4096) rest).word 0 (16 * n + d) = 0#32 := by
          change setupPaging rest 0 (16 * n + d) = _
          rw [setupPaging, if_pos rfl, if_neg (by omega)]
        rw [Mem.userDir, hzero, named_zero, ite_self]
      struct := fun hu => by
        rw [htask n hone] at hu
        exact (hunused hu).elim
      loading := fun _ _ hl => by simp at hl }

/-- **The invariant holds in every state a run reaches.** -/
theorem Inv.reachable (h : Reachable (Boot A) Step s) : Inv A s :=
  h.inv (fun _ h0 => Inv.boot h0) fun _ _ hi hs => hi.step hs

/-! ### Reference counts -/

/-- The number of owners in the kernel of page `f`. -/
def Sys.owners (s : Sys) (f : ℕ) : ℕ := if s.owner f = none then 0 else 1

/-- A machine with 16 MB whose main memory begins at 4 MB. -/
def arena16 : Arena := ⟨1024, 4096, by decide, by decide, by decide⟩

/-- The state it boots in, over memory full of zeros. -/
def boot16 : Sys :=
  ⟨memInit (1024 * 4096) (4096 * 4096) fun _ _ => 0#32, fun _ => none, fun _ => none⟩

end Linux011.Mm

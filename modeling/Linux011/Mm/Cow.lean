import Linux011.Mm.Steps

/-!
# Copy-on-write isolation

`Linux011.Mm.Eager` is what a system without sharing would keep: a memory for each
slot, which `fork` copies, a store changes in one slot only, and an exit clears. A
run of the machine of `Linux011.Mm.Run` – forks, stores, anonymous faults, write
faults and exits, in any order – is set beside a run of that system, and every load
of the machine returns what the memory of its slot holds
(`Linux011.Mm.cow_isolation`).

One kind of page is outside this. The children of task 0 map the first 640 kB, which
is where the kernel itself runs; `fork` shares those pages without counting them, and
the kernel goes on writing them. Of a word that was inherited from such a page the
memories promise nothing, until it is stored to.
-/

namespace Linux011.Mm

/-! ### Private memories -/

/-- **The memories of a system that copies eagerly**: the words of the page that
entry `j` under the directory entry `k` stands for. -/
abbrev Eager : Type := ℕ → ℕ → ℕ → Option Word

namespace Eager

variable (E : Eager)

/-- The word at an address. -/
def get (address : ℕ) : Option Word :=
  E (dirIndex address) (tableIndex address) (address % 4096 / 4)

/-- `fork` copies every page. -/
def copySlot (cur nr : ℕ) : Eager := fun k => if k / 16 = nr then E (16 * cur + k % 16) else E k

/-- An exit leaves an empty slot behind. -/
def clearSlot (cur : ℕ) : Eager := fun k j w => if k / 16 = cur then some 0#32 else E k j w

/-- A store changes one word of one slot. -/
def set (address : ℕ) (v : Word) : Eager := fun k j w =>
  if k = dirIndex address ∧ j = tableIndex address ∧ w = address % 4096 / 4 then some v else E k j w

/-- What a step that returns does to the memories; the state it leads to tells
whether a fork succeeded. -/
def next (s' : Sys) : Act → Eager
  | .fork cur nr => if (s'.mem.task nr).inUse then E.copySlot cur nr else E
  | .exit cur => E.clearSlot cur
  | .store _ address v => E.set address v
  | _ => E

end Eager

/-- The steps of a system of private memories: forks of tasks other than task 0,
stores and the faults they raise, faults on anonymous pages, exits. -/
def Anonymous (s : Sys) : Act → Prop
  | .fork cur _ => 1 ≤ cur
  | .noPage cur address _ => (s.mem.task cur).executable = none ∨
    (s.mem.task cur).endData ≤ address / 4096 * 4096 - cur * 0x4000000
  | .exit _ | .release _ | .wpFault _ _ | .writeVerify _ _ | .store _ _ _ => True
  | _ => False

/-- **The two systems side by side.** -/
inductive CowStep : Sys × Eager → Sys × Eager → Prop where
  | returns {s s' : Sys} {a : Act} (E : Eager) (he : Enabled s a) (ha : Anonymous s a)
      (hp : perform a s = .ok () s') : CowStep (s, E) (s', E.next s' a)
  | dies {s s' : Sys} {a : Act} (E : Eager) (he : Enabled s a) (ha : Anonymous s a)
      (hp : perform a s = .error .exited s') : CowStep (s, E) (s', E.clearSlot a.cur)

/-- What the tasks see when a run begins: zeros where nothing is mapped, and the
mapped pages, those below `LOW_MEM` excepted. -/
def view (m : Mem) : Eager := fun k j w =>
  if k < 16 then none
  else
    match named (m.userEntry k j) with
    | none => some 0#32
    | some f => if f < 256 then none else some (m.word f w)

/-- The same with no exception: what the kernel's own pages held. -/
def viewAll (m : Mem) : Eager := fun k j w =>
  match named (m.userEntry k j) with
  | none => some 0#32
  | some f => some (m.word f w)

/-- A load by user code, through present entries. -/
def userLoad (address : ℕ) : M Word := do
  let m ← get
  let table := frameOf (m.word 0 (dirIndex address))
  pure (m.word (frameOf (m.word table (tableIndex address))) (address % 4096 / 4))

/-! ### The simulation -/

/-- What entry `j` under `k` maps is what the memory of the slot holds. -/
def SimAt (m : Mem) (E : Eager) (k j : ℕ) : Prop :=
  ∀ w v, E k j w = some v → 16 ≤ k ∧ ((named (m.userEntry k j) = none ∧ v = 0#32) ∨
    ∃ f, 256 ≤ f ∧ named (m.userEntry k j) = some f ∧ m.word f w = v)

/-- **The simulation relation.** -/
def Sim (m : Mem) (E : Eager) : Prop := ∀ k j, SimAt m E k j

variable {A : Arena} {s s' : Sys} {m m' : Mem} {E E' : Eager} {S : ℕ → ℕ → Prop}
  {cur nr k j f address n : ℕ}

/-- An entry that names what it named, and whose page holds what it held. -/
theorem SimAt.of_same (h : SimAt m E k j)
    (hn : named (m'.userEntry k j) = named (m.userEntry k j))
    (hw : ∀ f, named (m.userEntry k j) = some f → 256 ≤ f → m'.word f = m.word f)
    (hE : E' k j = E k j) : SimAt m' E' k j := by
  intro w v hv
  rw [hE] at hv
  obtain ⟨hk, hnone | ⟨f, hf, hfn, hfw⟩⟩ := h w v hv
  · exact ⟨hk, Or.inl ⟨hn.trans hnone.1, hnone.2⟩⟩
  · exact ⟨hk, Or.inr ⟨f, hf, hn.trans hfn, by rw [hw f hfn hf, hfw]⟩⟩

theorem SimAt.keeps (h : SimAt m E k j) (hk : Keeps S m m') (hS : ¬S k j) (hE : E' k j = E k j) :
    SimAt m' E' k j :=
  h.of_same (hk k j hS).1 (hk k j hS).2 hE

/-- At the start. -/
theorem sim_view (m : Mem) : Sim m (view m) := by
  intro k j w v hv
  rw [view] at hv
  by_cases hk : k < 16
  · simp [hk] at hv
  · rw [if_neg hk] at hv
    refine ⟨by omega, ?_⟩
    cases hn : named (m.userEntry k j) with
    | none =>
      rw [hn] at hv
      exact Or.inl ⟨rfl, (Option.some.inj hv).symm⟩
    | some f =>
      rw [hn] at hv
      by_cases hf : f < 256
      · simp [hf] at hv
      · simp only [if_neg hf] at hv
        exact Or.inr ⟨f, by omega, rfl, Option.some.inj hv⟩

/-- A slot that is gone. -/
theorem Sim.gone {own : Finset ℕ} (h : Sim m E) (hone : 1 ≤ cur) (hg : Gone A own cur m m') :
    Sim m' (E.clearSlot cur) := by
  intro k j
  by_cases hk : k / 16 = cur
  · intro w v hv
    rw [Eager.clearSlot, if_pos hk] at hv
    exact ⟨by omega, Or.inl ⟨named_of_empty hg.empty hk j, (Option.some.inj hv).symm⟩⟩
  · refine (h k j).keeps hg.keeps hk ?_
    funext w
    exact if_neg hk

/-- **A fork that succeeds** gives the child the parent's pages. -/
theorem Sim.forked {own : Finset ℕ} {p : ℕ} (h : Sim m E) (hr : Resides cur m) (hnr : 1 ≤ nr)
    (hne : cur ≠ nr) (hf : Forked A own cur nr p m m') : Sim m' (E.copySlot cur nr) := by
  intro k j
  by_cases hk : k / 16 = nr
  · have hE : E.copySlot cur nr k j = E (16 * cur + k % 16) j := by rw [Eager.copySlot, if_pos hk]
    have hkd : 16 * nr + k % 16 = k := by omega
    intro w v hv
    rw [hE] at hv
    refine ⟨by omega, ?_⟩
    by_cases hd : k % 16 < dirCount (m.task cur).dataLimit
    · have hn := hf.copied hr.one_le (k % 16) j hd
      rw [hkd] at hn
      rw [hn]
      refine (h _ j w v hv).2.imp_right ?_
      rintro ⟨f, hf256, hfn, hfw⟩
      refine ⟨f, hf256, hfn, ?_⟩
      rw [(hf.keeps (16 * cur + k % 16) j fun hS => by rw [OneSlot] at hS; omega).2 f hfn hf256,
        hfw]
    · have hb := hf.beyond (k % 16) (by omega) (by omega)
      have hb' := hr.beyond (k % 16) (by omega) (by omega)
      rw [hkd] at hb
      refine Or.inl ⟨by rw [Mem.userEntry_of_none hb, named_zero], ?_⟩
      rcases (h _ j w v hv).2 with hz | ⟨f, -, hfn, -⟩
      · exact hz.2
      · rw [Mem.userEntry_of_none hb', named_zero] at hfn
        simp at hfn
  · refine (h k j).keeps hf.keeps hk ?_
    rw [Eager.copySlot, if_neg hk]

/-- **A write fault** copies the page. -/
theorem Sim.private {own : Finset ℕ} (h : Sim m E) (hn : named (m.userEntry k j) = some f)
    (hp : Private A own k j f m m') : Sim m' E := by
  intro k' j'
  by_cases hkj : k' = k ∧ j' = j
  · obtain ⟨rfl, rfl⟩ := hkj
    obtain ⟨g, hg, hgw⟩ := hp.copied
    have hge := (hp.eff.ok.maps.rw_only hg hp.writable).1
    intro w v hv
    obtain ⟨hk, hz | ⟨f', -, hf', hw⟩⟩ := h k' j' w v hv
    · rw [hn] at hz
      simp at hz
    · obtain rfl := Option.some.inj (hn.symm.trans hf')
      exact ⟨hk, Or.inr ⟨g, hge, hg, by rw [hgw, hw]⟩⟩
  · exact (h k' j').keeps hp.eff.keeps hkj rfl

/-- **An anonymous fault** maps zeros where there was nothing. -/
theorem Sim.filled {own : Finset ℕ} (h : Sim m E) (habs : named (m.userEntry k j) = none)
    (hf : Filled A own k j m m')
    (hz : ∀ g, named (m'.userEntry k j) = some g → ∀ w, m'.word g w = 0#32) : Sim m' E := by
  intro k' j'
  by_cases hkj : k' = k ∧ j' = j
  · obtain ⟨rfl, rfl⟩ := hkj
    obtain ⟨g, hg, hge⟩ := hf.mapped
    intro w v hv
    obtain ⟨hk, ⟨-, rfl⟩ | ⟨f', -, hf', -⟩⟩ := h k' j' w v hv
    · exact ⟨hk, Or.inr ⟨g, hge, hg, hz g hg w⟩⟩
    · rw [habs] at hf'
      simp at hf'
  · exact (h k' j').keeps hf.eff.keeps hkj rfl

/-- A fork that fails leaves the slot as empty as it was. -/
theorem Sim.notForked {own : Finset ℕ} (h : Sim m E)
    (hempty : ∀ d, d < 16 → m.userDir (16 * nr + d) = none) (hf : NotForked A own cur nr m m') :
    Sim m' E := by
  intro k j
  by_cases hk : k / 16 = nr
  · have hn := named_of_empty hempty hk j
    refine (h k j).of_same (by rw [hn, named_of_empty hf.empty hk]) (fun f hf => ?_) rfl
    rw [hn] at hf
    simp at hf
  · exact (h k j).keeps hf.keeps hk rfl

/-- **A store** is one of the memory of its slot. -/
theorem Sim.stored {own : Finset ℕ} {v : Word} (h : Sim m E)
    (hn : named (m.userEntry (dirIndex address) (tableIndex address)) = some f) (hge : 256 ≤ f)
    (honly : ∀ k j, named (m.userEntry k j) = some f →
      OneEntry (dirIndex address) (tableIndex address) k j)
    (hk : 16 ≤ dirIndex address)
    (hs : Stored A own (dirIndex address) (tableIndex address) f (address % 4096 / 4) v m m') :
    Sim m' (E.set address v) := by
  intro k j
  by_cases hkj : OneEntry (dirIndex address) (tableIndex address) k j
  · obtain ⟨rfl, rfl⟩ := hkj
    intro w v' hv
    refine ⟨hk, Or.inr ⟨f, hge, by rw [hs.named_eq, hn], ?_⟩⟩
    rw [hs.word, Function.update_apply]
    rw [Eager.set] at hv
    by_cases hwe : w = address % 4096 / 4
    · rw [if_pos ⟨rfl, rfl, hwe⟩] at hv
      rw [if_pos hwe]
      exact Option.some.inj hv
    · rw [if_neg fun hc => hwe hc.2.2] at hv
      rw [if_neg hwe]
      obtain ⟨-, hz | ⟨f', -, hf', hw'⟩⟩ := h _ _ w v' hv
      · rw [hn] at hz
        simp at hz
      · obtain rfl := Option.some.inj (hn.symm.trans hf')
        exact hw'
  · refine (h k j).of_same (hs.named_eq k j) (fun g hg _ => hs.words k j g hg ?_)
      (funext fun w => if_neg fun hc => hkj ⟨hc.1, hc.2.1⟩)
    rintro rfl
    exact hkj (honly k j hg)

/-- **Every step of the machine is one of the private memories.** -/
theorem Sim.perform {a : Act} (h : Sim s.mem E) (hi : Inv A s) (he : Enabled s a)
    (ha : Anonymous s a) :
    wp (perform a) (fun _ s' => Sim s'.mem (E.next s' a))
      (fun _ s' => Sim s'.mem (E.clearSlot a.cur)) s := by
  have hone : 1 ≤ a.cur := by
    cases a with
    | fork => exact ha
    | exec | loaded | getPage | freePage | putPage => exact ha.elim
    | _ => exact he.1
  refine wp_mono (hi.done a he) (fun _ s' hd => ?_) fun _ s' ⟨_, hg⟩ => h.gone hone hg
  cases hd with
  | idle hidle heff =>
    have hnext : E.next s' a = E := by
      cases a with
      | fork | exit | store => exact hidle.elim
      | _ => rfl
    rw [hnext]
    exact fun k j => (h k j).keeps heff.keeps (fun hS => hS.elim) rfl
  | @forked cur nr p own hf =>
    have huse : (s'.mem.task nr).inUse = true := by rw [hf.task, Function.update_self, childTask]
    change Sim s'.mem (if (s'.mem.task nr).inUse = true then _ else _)
    rw [if_pos huse]
    exact h.forked (hi.resides hone he.1) he.2.1 (he.1.ne he.2.2.2) hf
  | @notForked cur nr own hf =>
    change Sim s'.mem (if (s'.mem.task nr).inUse = true then _ else _)
    rw [if_neg (by rw [hf.unused]; simp)]
    exact h.notForked ((hi.slot nr he.2.1 he.2.2.1).idle (Or.inl he.2.2.2)) hf
  | exit hg => exact h.gone hone hg
  | release hk => exact fun k j => (h k j).keeps hk (fun hS => hS.elim) rfl
  | empty hf hfresh hzero => exact h.filled he.2.2.2 hf hzero
  | @shared cur address iCount q f own hf hoff hs =>
    -- an anonymous fault is served by nobody
    have hoffset := (hi.resides he.1 he.2.1).offset he.2.2.1.page_start
    rcases ha with hexe | hend
    · exact absurd hexe hs.1
    · rw [pageOffset] at hoff
      omega
  | wpFault hn hp => exact h.private hn hp
  | writeVerify hn hp => exact h.private hn hp
  | @store cur address f v own hn hge honly hs =>
    have hk := mem_userDirs.mp ((hi.resides he.1 he.2.1).mem_userDirs he.2.2.1)
    exact h.stored hn hge honly hk.1 hs
  | exec | loaded | putPage => exact ha.elim

/-- **A run of the two systems.** -/
theorem Sim.run {s₀ : Sys} (h₀ : Reachable (Boot A) Step s₀)
    (hr : Relation.ReflTransGen CowStep (s₀, view s₀.mem) (s, E)) :
    Reachable (Boot A) Step s ∧ Sim s.mem E := by
  obtain ⟨c, hc⟩ : ∃ c, (s, E) = c := ⟨_, rfl⟩
  rw [hc] at hr
  induction hr generalizing s E with
  | refl =>
    obtain ⟨rfl, rfl⟩ := Prod.mk.inj hc
    exact ⟨h₀, sim_view _⟩
  | tail _ hs ih =>
    cases hs with
    | returns E₁ he ha hp =>
      obtain ⟨rfl, rfl⟩ := Prod.mk.inj hc
      obtain ⟨hreach, hsim⟩ := ih rfl
      refine ⟨hreach.next ⟨_, he, Or.inl hp⟩, ?_⟩
      have hsim' := wp_ok (hsim.perform (Inv.reachable hreach) he ha) hp
      exact hsim'
    | dies E₁ he ha hp =>
      obtain ⟨rfl, rfl⟩ := Prod.mk.inj hc
      obtain ⟨hreach, hsim⟩ := ih rfl
      refine ⟨hreach.next ⟨_, he, Or.inr hp⟩, ?_⟩
      have hsim' := wp_error (hsim.perform (Inv.reachable hreach) he ha) hp
      exact hsim'

/-- What a load reads. -/
theorem userLoad_eq {v : Word} (hn : named (entryAt m address) = some f)
    (hl : userLoad address m = .ok v m') : v = m.word f (address % 4096 / 4) := by
  have hd : ∃ T, m.userDir (dirIndex address) = some T := by
    cases hd : m.userDir (dirIndex address) with
    | none =>
      rw [entryAt, Mem.userEntry_of_none hd, named_zero] at hn
      simp at hn
    | some T => exact ⟨T, rfl⟩
  obtain ⟨T, hT⟩ := hd
  have hframe := (Mem.userDir_eq_some.mp hT).2.2
  rw [entryAt, Mem.userEntry_of_dir hT (tableIndex_lt address)] at hn
  change EStateM.Result.ok _ _ = _ at hl
  obtain ⟨rfl, -⟩ := EStateM.Result.ok.inj hl
  rw [hframe, (named_eq_some.mp hn).2]

/-! ### The first fork -/

/-- A fork that has to copy one table at most, with more than one page free, succeeds. -/
theorem Inv.fork_ok (hi : Inv A s) (hp : Parent cur s.mem) (he : Enabled s (.fork cur nr))
    (hone : ∀ d, 1 ≤ d → d < dirCount (s.mem.task cur).dataLimit →
      s.mem.userDir (16 * cur + d) = none)
    (hfree : ∀ q, ∃ f, A.Main f ∧ f ≠ q ∧ s.mem.maps.count f = 0) :
    ∃ s' p own, perform (.fork cur nr) s = .ok () s' ∧ (s'.mem.task nr).inUse = true ∧
      Forked A own cur nr p s.mem s'.mem ∧
      s'.owner = Function.update s.owner p (some (.struct nr)) ∧ s'.loading = s.loading := by
  obtain ⟨hr, hnr, hlt, hunused⟩ := he
  have hne : cur ≠ nr := fun hcn => by
    rw [← hcn, hr.2.1] at hunused
    simp at hunused
  have hwp : wp (perform (.fork cur nr)) (fun _ s' => ∃ p own, (s'.mem.task nr).inUse = true ∧
      Forked A own cur nr p s.mem s'.mem ∧
      s'.owner = Function.update s.owner p (some (.struct nr)) ∧ s'.loading = s.loading)
      (fun _ _ => False) s := by
    unfold perform
    rw [wp_bind, wp_inMem]
    refine wp_mono (wp_copyProcess hi.ok hp hnr hlt hne hunused
      ((hi.slot nr hnr hlt).idle (Or.inl hunused))) (fun r m' hm => ?_) fun _ _ he => he.elim
    cases r with
    | false =>
      obtain ⟨q, hq⟩ := hm.short hone
      obtain ⟨f, hf, hfq, h0⟩ := hfree q
      exact absurd h0 (hq f hf hfq)
    | true =>
      obtain ⟨p, -, -, hf⟩ := hm
      have hpage : (m'.task nr).page = p := by rw [hf.task, Function.update_self, childTask]
      rw [if_pos rfl, wp_modify]
      refine ⟨p, _, ?_, hf, ?_, rfl⟩
      · change (m'.task nr).inUse = true
        rw [hf.task, Function.update_self, childTask]
      · change Function.update s.owner (m'.task nr).page _ = _
        rw [hpage]
  cases hs : perform (.fork cur nr) s with
  | ok u s' =>
    obtain ⟨p, own, hfork⟩ := wp_ok hwp hs
    exact ⟨s', p, own, rfl, hfork⟩
  | error e s' => exact (wp_error hwp hs).elim

/-- Pages that no table names and nobody owns are free. -/
theorem Inv.count_zero (hi : Inv A s) (hf : A.Main f)
    (hent : ∀ k j, named (s.mem.userEntry k j) ≠ some f) (hdir : ∀ k, s.mem.userDir k ≠ some f)
    (ho : s.owner f = none) : s.mem.maps.count f = 0 := by
  have hent' : ∀ k j, named (s.mem.maps.entry k j) ≠ some f := hent
  have hdir' : ∀ k, s.mem.maps.dir k ≠ some f := hdir
  rw [hi.ok.maps.counted f hf, Maps.Ok.entryRefs_eq_zero hent', Maps.Ok.dirRefs_eq_zero hdir',
    if_neg fun hm => (Sys.mem_held.mp hm).2 ho]

/-- **There is room** for two more pages where few pages are in use. -/
theorem Inv.roomy (hi : Inv arena16 s) (L : Finset ℕ) (hL : L.card ≤ 32)
    (hent : ∀ k j f, named (s.mem.userEntry k j) = some f → 1024 ≤ f → f ∈ L)
    (hdir : ∀ k f, s.mem.userDir k = some f → f ∈ L) (ho : ∀ f, s.owner f ≠ none → f ∈ L) (q : ℕ) :
    ∃ f, arena16.Main f ∧ f ≠ q ∧ s.mem.maps.count f = 0 := by
  obtain ⟨f, hf, hfL⟩ : ∃ f ∈ Finset.Ico 1024 4096, f ∉ insert q L := by
    refine Finset.exists_mem_notMem_of_card_lt_card ?_
    have := Finset.card_insert_le q L
    rw [Nat.card_Ico]
    omega
  rw [Finset.mem_Ico] at hf
  rw [Finset.mem_insert, not_or] at hfL
  refine ⟨f, hf, hfL.1, hi.count_zero hf (fun k j hn => hfL.2 (hent k j f hn hf.1))
    (fun k hk => hfL.2 (hdir k f hk)) ?_⟩
  by_contra hof
  exact hfL.2 (ho f hof)

/-- The steps that bring two tasks to their first page, which is full of zeros. -/
def Act.Setup : Act → Prop
  | .fork _ _ | .noPage _ _ _ => True
  | .exec _ text endData exe => text = 4096 ∧ endData = 4096 ∧ exe = 7
  | .loaded _ content => content = fun _ => 0#32
  | _ => False

def SetupStep (s s' : Sys) : Prop := ∃ a : Act, a.Setup ∧ Enabled s a ∧ perform a s = .ok () s'

theorem SetupStep.step (h : SetupStep s s') : Step s s' := by
  obtain ⟨a, -, he, hp⟩ := h
  exact ⟨a, he, Or.inl hp⟩

theorem Inv.setup (h : Reachable (Boot A) SetupStep s) : Inv A s :=
  Inv.reachable (h.mono fun _ _ => SetupStep.step)

/-- **The first fork** of a machine with 16 MB, whose task structure is in page `p`: task 1
has the limit of task 0, its first page is frame 0, and there is memory left. -/
structure FirstFork (s : Sys) (p : ℕ) : Prop where
  setup : Reachable (Boot arena16) SetupStep s
  task : s.mem.task = Function.update boot16.mem.task 1 (childTask initTask 1 p)
  owner : s.owner = Function.update (fun _ => none) p (some (.struct 1))
  loading : s.loading = fun _ => none
  dirs : ∀ k, k ≠ 16 → s.mem.userDir k = none
  page : named (s.mem.userEntry 16 0) = some 0
  free : ∀ q, ∃ f, arena16.Main f ∧ f ≠ q ∧ s.mem.maps.count f = 0

theorem FirstFork.reach {p : ℕ} (h : FirstFork s p) : Reachable (Boot arena16) Step s :=
  h.setup.mono fun _ _ => SetupStep.step

theorem FirstFork.running {p : ℕ} (h : FirstFork s p) : Running 1 s := by
  refine ⟨by omega, ?_, ?_, by rw [h.loading]⟩ <;> rw [h.task, Function.update_self] <;> rfl

theorem FirstFork.limit {p : ℕ} (h : FirstFork s p) : (s.mem.task 1).dataLimit = 0xA0000 := by
  rw [h.task, Function.update_self]
  rfl

/-- Slot 2 is unused. -/
theorem FirstFork.unused {p : ℕ} (h : FirstFork s p) : (s.mem.task 2).inUse = false := by
  rw [h.task, Function.update_of_ne (by omega)]
  rfl

theorem first_fork : ∃ s p, FirstFork s p := by
  have hb : Boot arena16 boot16 := ⟨fun _ _ => 0#32, rfl⟩
  have hi := Inv.boot hb
  have hdir : ∀ k, boot16.mem.userDir k = none := fun k => by
    by_cases hk : 16 ≤ k ∧ k < 1024
    · have := (hi.slot (k / 16) (by omega) (by omega)).idle (Or.inl ?_) (k % 16) (by omega)
      · rwa [show 16 * (k / 16) + k % 16 = k by omega] at this
      · change (if k / 16 = 0 then initTask else noTask).inUse = false
        rw [if_neg (by omega)]
        rfl
    · rw [Mem.userDir, if_neg hk]
  have hent : ∀ k j, boot16.mem.userEntry k j = 0#32 := fun k j => Mem.userEntry_of_none (hdir k)
  have h0 : boot16.mem.task 0 = initTask := rfl
  have hpar : Parent 0 boot16.mem :=
    ⟨by omega, rfl, rfl, le_rfl, by rw [h0]; decide, fun _ => by decide⟩
  have hone : dirCount (boot16.mem.task 0).dataLimit = 1 := by decide
  have he : Enabled boot16 (.fork 0 1) := ⟨⟨by omega, rfl, rfl, rfl⟩, by omega, by omega, rfl⟩
  obtain ⟨s, p, own, hp, huse, hf, howner, hload⟩ :=
    hi.fork_ok hpar he (fun d hd hd' => by omega) <|
      hi.roomy ∅ (by simp) (fun k j f hn => by simp [hent] at hn)
        (fun k f hk => by simp [hdir] at hk) fun f hf => absurd rfl hf
  have hsetup : Reachable (Boot arena16) SetupStep s :=
    (Reachable.start hb).next ⟨.fork 0 1, trivial, he, hp⟩
  have hpage : ∀ j, named (s.mem.userEntry 16 j) = if j < 160 then some j else none :=
    hf.first rfl hone
  -- the only table is that of the first 4 MB of slot 1
  have hdir₁ : ∀ k, k ≠ 16 → s.mem.userDir k = none := fun k hk => by
    by_cases hk1 : k / 16 = 1
    · have := hf.beyond (k % 16) (by rw [hone]; omega) (by omega)
      rwa [show 16 * 1 + k % 16 = k by omega] at this
    · rw [hf.dirs k hk1, hdir]
  have hn : named (s.mem.userEntry 16 0) = some 0 := by rw [hpage, if_pos (by omega)]
  obtain ⟨⟨T, hT⟩, -⟩ := (Inv.setup hsetup).ok.maps.entry_user hn
  refine ⟨s, p, hsetup, hf.task, howner, hload, hdir₁, hn, (Inv.setup hsetup).roomy {p, T}
    (Finset.card_le_two.trans (by omega)) (fun k j f hnf hle => ?_) (fun k f hk => ?_)
    fun f hof => ?_⟩
  · -- the entries there are name pages below 1 MB
    by_cases hk : k = 16
    · rw [hk, hpage] at hnf
      by_cases hj : j < 160
      · rw [if_pos hj] at hnf
        have := Option.some.inj hnf
        omega
      · simp [hj] at hnf
    · rw [Mem.userEntry_of_none (hdir₁ k hk), named_zero] at hnf
      simp at hnf
  · by_cases hk16 : k = 16
    · rw [hk16] at hk
      rw [Option.some.inj (hk.symm.trans hT)]
      simp
    · rw [hdir₁ k hk16] at hk
      simp at hk
  · rw [howner, Function.update_apply] at hof
    split at hof
    · next hfp => simp [hfp]
    · exact absurd rfl hof

/-- A write fault is served while there is a free page. -/
theorem wp_doWpPage_free {own : Finset ℕ} (h : MemOk A own m) (hf : A.Main f)
    (h0 : m.maps.count f = 0) : wp (doWpPage cur address) (fun _ _ => True) NoHalt m := by
  unfold doWpPage unWpPage
  rw [wp_bind, wp_get, wp_bind, wp_get, wp_ite]
  refine ⟨fun _ => trivial, fun _ => ?_⟩
  rw [wp_bind]
  refine wp_post (wp_getFreePage h) fun r m₁ hm₁ => ?_
  cases r with
  | none => exact absurd h0 (hm₁.2 f hf)
  | some g =>
    rw [wp_bind, wp_ite]
    exact ⟨fun _ => trivial, fun _ => trivial⟩

/-- Then task 1 is about to store to its first page, and has been given a copy. -/
theorem first_copy : ∃ s f, Reachable (Boot arena16) Step s ∧ Running 1 s ∧
    Mine 1 0x4000000 s.mem ∧ named (entryAt s.mem 0x4000000) = some f ∧ 256 ≤ f := by
  obtain ⟨s, _, hs⟩ := first_fork
  have hreach := hs.reach
  have hrun := hs.running
  have hlimit := hs.limit
  have hn := hs.page
  obtain ⟨f, hf, -, h0⟩ := hs.free 0
  have hi := Inv.reachable hreach
  have hk : dirIndex 0x4000000 = 16 := by decide
  have hj : tableIndex 0x4000000 = 0 := by decide
  rw [← hk, ← hj] at hn
  have hmine : Mine 1 0x4000000 s.mem := by
    rw [Mine, hlimit]
    omega
  have hro : writable (entryAt s.mem 0x4000000) = false := by
    by_contra hw
    rw [Bool.not_eq_false] at hw
    have := (hi.ok.maps.rw_only hn hw).1
    omega
  have he : Enabled s (.wpFault 1 0x4000000) :=
    ⟨le_rfl, hrun, hmine, by rw [entryAt, hn]; simp, hro⟩
  have hwp : wp (perform (.wpFault 1 0x4000000)) (fun _ s' => Running 1 s' ∧
      Mine 1 0x4000000 s'.mem ∧ ∃ f, named (entryAt s'.mem 0x4000000) = some f ∧ 256 ≤ f)
      (fun _ _ => False) s := by
    unfold perform
    rw [wp_inMem]
    refine wp_mono (wp_and (wp_doWpPage hi.ok (hi.resides le_rfl hrun) hn)
      (wp_doWpPage_free hi.ok hf h0)) ?_ fun _ _ he => he.2.elim
    rintro - m' ⟨hp, -⟩
    have htask : m'.task 1 = s.mem.task 1 := congrFun hp.eff.task 1
    obtain ⟨g, hg, -⟩ := hp.copied
    refine ⟨⟨hrun.1, ?_, ?_, hrun.2.2.2⟩, ?_, g, hg, (hp.eff.ok.maps.rw_only hg hp.writable).1⟩
    · change (m'.task 1).inUse = true
      rw [htask, hrun.2.1]
    · change (m'.task 1).zombie = false
      rw [htask, hrun.2.2.1]
    · rw [Mine] at hmine ⊢
      rwa [htask]
  cases hs : perform (.wpFault 1 0x4000000) s with
  | ok u s' =>
    obtain ⟨hrun', hmine', g, hg, hge⟩ := wp_ok hwp hs
    exact ⟨s', g, hreach.next ⟨_, he, Or.inl hs⟩, hrun', hmine', hg, hge⟩
  | error e s' => exact (wp_error hwp hs).elim

/-! ### Isolation -/

/-- **Copy-on-write isolation**: in every state a run reaches, a writable entry that
names a frame at or above `LOW_MEM` is the only entry naming it; and in every run of
forks, stores, anonymous faults and exits from such a state, every load returns what
a system that copies eagerly would return, wherever that system does not go back to a
page of the kernel below `LOW_MEM`. -/
theorem cow_isolation :
    (∀ s, Reachable (Boot A) Step s → ∀ k j f, named (s.mem.userEntry k j) = some f →
      writable (s.mem.userEntry k j) = true → 256 ≤ f →
      ∀ k' j', named (s.mem.userEntry k' j') = some f → k' = k ∧ j' = j) ∧
    ∀ s₀, Reachable (Boot A) Step s₀ →
      ∀ s E, Relation.ReflTransGen CowStep (s₀, view s₀.mem) (s, E) →
        ∀ n address v v', Running n s → Mine n address s.mem →
          named (entryAt s.mem address) ≠ none → userLoad address s.mem = .ok v s.mem →
          E.get address = some v' → v = v' := by
  refine ⟨fun s hs k j f hn hw _ => ((Inv.reachable hs).ok.maps.rw_only hn hw).2,
    fun s₀ h₀ s E hr n address v v' _ _ hn hl hE => ?_⟩
  obtain ⟨f, hf⟩ := Option.ne_none_iff_exists'.mp hn
  obtain ⟨-, hz | ⟨f', -, hf', hw⟩⟩ := (Sim.run h₀ hr).2 _ _ _ v' hE
  · exact absurd hz.1 hn
  · obtain rfl := Option.some.inj (hf.symm.trans hf')
    rw [userLoad_eq hf hl, hw]

theorem cow_isolation_first_copy : ∃ s v, Reachable (Boot arena16) Step s ∧
    userLoad 0x4000000 s.mem = .ok v s.mem ∧ (view s.mem).get 0x4000000 = some v := by
  obtain ⟨s, f, hreach, hrun, hmine, hn, hge⟩ := first_copy
  have hk : ¬dirIndex 0x4000000 < 16 := by decide
  have hview : (view s.mem).get 0x4000000 = some (s.mem.word f 0) := by
    have hn' : named (s.mem.userEntry (dirIndex 0x4000000) (tableIndex 0x4000000)) = some f := hn
    rw [Eager.get, view, if_neg hk, hn']
    exact if_neg (by omega)
  obtain ⟨v, hv⟩ : ∃ v, userLoad 0x4000000 s.mem = .ok v s.mem := ⟨_, rfl⟩
  have heq := cow_isolation.2 s hreach s _ .refl 1 0x4000000 v _ hrun hmine (by rw [hn]; simp) hv
    hview
  exact ⟨s, v, hreach, hv, by rw [hview, heq]⟩

/-- **The kernel's own pages are not isolated**: word 32 of the page directory is in
the memory of task 1, at address 128 of its slot, and a fork of task 1 into slot 2
changes it there. -/
theorem not_viewAll : ¬∀ (A : Arena) s₀, Reachable (Boot A) Step s₀ →
    ∀ s E, Relation.ReflTransGen CowStep (s₀, viewAll s₀.mem) (s, E) →
      ∀ n address v v', 1 ≤ n → Running n s → Mine n address s.mem →
        named (entryAt s.mem address) ≠ none → userLoad address s.mem = .ok v s.mem →
        E.get address = some v' → v = v' := by
  intro hall
  obtain ⟨s, _, hs⟩ := first_fork
  have hreach := hs.reach
  have hrun := hs.running
  have hlimit := hs.limit
  have hdir := hs.dirs 32 (by omega)
  have hn := hs.page
  have hi := Inv.reachable hreach
  have hres := hi.resides le_rfl hrun
  have hone : dirCount (s.mem.task 1).dataLimit = 1 := by rw [hlimit]; decide
  have he : Enabled s (.fork 1 2) := ⟨hrun, by omega, by omega, hs.unused⟩
  obtain ⟨s', p, own, hp, huse, hf, -, hload⟩ :=
    hi.fork_ok hres.parent he (fun d hd hd' => by omega) hs.free
  obtain ⟨address, ha⟩ : ∃ address, 0x4000000 + 128 = address := ⟨_, rfl⟩
  have hk : dirIndex address = 16 := by rw [← ha]; decide
  have hj : tableIndex address = 0 := by rw [← ha]; decide
  have hw : address % 4096 / 4 = 32 := by omega
  -- the page of the address is frame 0, before and after
  have hn' : named (entryAt s'.mem address) = some 0 := by
    rw [entryAt, hk, hj, (hf.keeps 16 0 fun hS => by rw [OneSlot] at hS; omega).1, hn]
  -- before the fork slot 2 had no table, afterwards it has
  have habs : present (s.mem.word 0 32) = false :=
    (Mem.userDir_eq_none (mem_userDirs.mpr ⟨by omega, by omega⟩)).mp hdir
  have hpres : present (s'.mem.word 0 32) = true := by
    have hc := hf.copied le_rfl 0 0 (by omega)
    rw [Nat.add_zero, Nat.add_zero, Nat.mul_one, hn] at hc
    obtain ⟨⟨T', hT'⟩, -⟩ := (hi.step ⟨_, he, Or.inl hp⟩).ok.maps.entry_user hc
    rw [Mem.maps_dir] at hT'
    exact (Mem.userDir_eq_some.mp hT').2.1
  have htask : s'.mem.task 1 = s.mem.task 1 := by rw [hf.task, Function.update_of_ne (by omega)]
  have hrun' : Running 1 s' := ⟨hrun.1, by rw [htask, hrun.2.1], by rw [htask, hrun.2.2.1], by
    rw [hload, hrun.2.2.2]⟩
  have hmine : Mine 1 address s'.mem := by
    rw [Mine, htask, hlimit]
    omega
  have hE : (Eager.next (viewAll s.mem) s' (.fork 1 2)).get address = some (s.mem.word 0 32) := by
    rw [Eager.next, if_pos huse, Eager.get, hk, hj, hw, Eager.copySlot, if_neg (by omega),
      viewAll, hn]
  have hload' : userLoad address s'.mem = .ok (s'.mem.word 0 32) s'.mem := by
    have hv := userLoad_eq hn' (rfl : userLoad address s'.mem = .ok _ s'.mem)
    change EStateM.Result.ok _ _ = _
    rw [hv, hw]
  have hstep : CowStep (s, viewAll s.mem) (s', Eager.next (viewAll s.mem) s' (.fork 1 2)) :=
    .returns _ he le_rfl hp
  have heq := hall arena16 s hreach s' _ (.single hstep) 1 address _ _ le_rfl hrun' hmine
    (by rw [hn']; simp) hload' hE
  rw [heq, habs] at hpres
  simp at hpres

end Linux011.Mm

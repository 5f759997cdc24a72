import Linux011.Mm.Run

/-!
# What a step does to memory

`Linux011.Mm.Inv.done` says it once, for every step of the machine: a step that returns has done
what `Linux011.Mm.Done` lists for it, and one that does not has left an empty slot behind. What a
run preserves is then a matter of the entries of `Linux011.Mm.Done`, and no proof about runs looks
into a routine again.
-/

namespace Linux011.Mm

/-- The task a step runs for. -/
def Act.cur : Act → ℕ
  | .fork cur _ | .exec cur _ _ _ | .exit cur | .noPage cur _ _ | .loaded cur _ | .wpFault cur _
  | .writeVerify cur _ | .store cur _ _ | .putPage cur _ _ => cur
  | .release nr => nr
  | .getPage | .freePage _ => 0

/-- The steps that may leave every entry alone: a fault that has to wait for the disk, a page that
is private already, pages that the kernel takes and gives back. -/
def Act.Idles : Act → Prop
  | .noPage _ _ _ | .writeVerify _ _ | .getPage | .freePage _ | .putPage _ _ _ => True
  | _ => False

/-- **What a step that returns has done** to the memory. -/
inductive Done (A : Arena) (s : Sys) (m' : Mem) : Act → Prop
  | idle {a : Act} {own : Finset ℕ} (ha : a.Idles) (he : Eff A own NoEntry s.mem m') : Done A s m' a
  | forked {cur nr p : ℕ} {own : Finset ℕ} (hf : Forked A own cur nr p s.mem m') :
      Done A s m' (.fork cur nr)
  | notForked {cur nr : ℕ} {own : Finset ℕ} (hf : NotForked A own cur nr s.mem m') :
      Done A s m' (.fork cur nr)
  | exec {cur text endData exe : ℕ} (hk : Keeps (OneSlot cur) s.mem m')
      (hf : Flags A (OneSlot cur) s.mem m')
      (ht : m'.task = Function.update s.mem.task cur (execTask (s.mem.task cur) text endData exe))
      (hempty : ∀ d, d < 16 → m'.userDir (16 * cur + d) = none) :
      Done A s m' (.exec cur text endData exe)
  | exit {cur : ℕ} {own : Finset ℕ} (hg : Gone A own cur s.mem m') : Done A s m' (.exit cur)
  | release {nr : ℕ} (hk : Keeps NoEntry s.mem m') (hf : Flags A NoEntry s.mem m')
      (ht : m'.task = Function.update s.mem.task nr { s.mem.task nr with inUse := false }) :
      Done A s m' (.release nr)
  /-- A page of zeros, at an address that is not in the executable. -/
  | empty {cur address iCount : ℕ} {own : Finset ℕ}
      (hf : Filled A own (dirIndex address) (tableIndex address) s.mem m')
      (hfresh : Fresh (dirIndex address) (tableIndex address) s.mem m')
      (hzero : ∀ g, named (m'.userEntry (dirIndex address) (tableIndex address)) = some g →
        ∀ w, m'.word g w = 0#32)
      (hanon : (s.mem.task cur).executable = none ∨
        (s.mem.task cur).endData ≤ pageOffset s.mem cur address) :
      Done A s m' (.noPage cur address iCount)
  /-- The page of another task. -/
  | shared {cur address iCount q f : ℕ} {own : Finset ℕ}
      (hf : Filled A own (dirIndex address) (tableIndex address) s.mem m')
      (hoff : pageOffset s.mem cur address < (s.mem.task cur).endData)
      (hs : Served s.mem cur (pageOffset s.mem cur address) iCount q f)
      (hn : named (m'.userEntry (dirIndex address) (tableIndex address)) = some f) :
      Done A s m' (.noPage cur address iCount)
  | loaded {cur address page : ℕ} {content : ℕ → Word} {own : Finset ℕ}
      (hl : s.loading cur = some (address, page))
      (hf : Filled A own (dirIndex address) (tableIndex address) s.mem m')
      (hfresh : Fresh (dirIndex address) (tableIndex address) s.mem m')
      (hn : named (m'.userEntry (dirIndex address) (tableIndex address)) = some page)
      (hword : ∀ w, m'.word page w = keepBytes (content w)
        ((s.mem.task cur).endData - pageOffset s.mem cur address - 4 * w)) :
      Done A s m' (.loaded cur content)
  | wpFault {cur address f : ℕ} {own : Finset ℕ} (hn : named (entryAt s.mem address) = some f)
      (hp : Private A own (dirIndex address) (tableIndex address) f s.mem m') :
      Done A s m' (.wpFault cur address)
  | writeVerify {cur address f : ℕ} {own : Finset ℕ} (hn : named (entryAt s.mem address) = some f)
      (hp : Private A own (dirIndex address) (tableIndex address) f s.mem m') :
      Done A s m' (.writeVerify cur address)
  | store {cur address f : ℕ} {v : Word} {own : Finset ℕ}
      (hn : named (entryAt s.mem address) = some f) (hge : 256 ≤ f)
      (honly : ∀ k j, named (s.mem.userEntry k j) = some f →
        OneEntry (dirIndex address) (tableIndex address) k j)
      (hs : Stored A own (dirIndex address) (tableIndex address) f (address % 4096 / 4) v s.mem
        m') :
      Done A s m' (.store cur address v)
  | putPage {cur page address : ℕ} {own : Finset ℕ}
      (hf : Filled A own (dirIndex address) (tableIndex address) s.mem m')
      (hfresh : Fresh (dirIndex address) (tableIndex address) s.mem m') :
      Done A s m' (.putPage cur page address)

variable {A : Arena} {s : Sys}

/-- **Every step does what is listed for it**, or its task is gone. -/
theorem Inv.done (hi : Inv A s) : ∀ a, Enabled s a →
    wp (perform a) (fun _ s' => Done A s s'.mem a)
      (fun _ s' => ∃ own, Gone A own a.cur s.mem s'.mem) s := by
  intro a he
  cases a with
  | fork cur nr =>
    obtain ⟨hr, hone, hlt, hunused⟩ := he
    have hempty := (hi.slot nr hone hlt).idle (Or.inl hunused)
    rw [perform, wp_bind, wp_inMem]
    refine wp_mono (wp_copyProcess hi.ok (hi.parent hr) hone hlt (hr.ne hunused) hunused hempty)
      (fun r m' hm => ?_) fun _ _ he => he.elim
    cases r with
    | false => exact .notForked hm
    | true =>
      obtain ⟨p, -, -, hf⟩ := hm
      exact .forked hf
  | exec cur text endData exe =>
    obtain ⟨hone, hr, -⟩ := he
    rw [perform, wp_inMem]
    refine wp_mono (wp_execMem hi.ok (hi.resides hone hr)) ?_ fun _ _ he => he.elim
    rintro - m' ⟨-, hkeep, hflags, htask, hempty, -⟩
    exact .exec hkeep hflags htask hempty
  | exit cur =>
    obtain ⟨hone, hr⟩ := he
    rw [perform, wp_inMem]
    exact wp_mono (wp_doExit hi.ok (hi.resides hone hr)) (fun _ m' hg => .exit hg)
      fun _ _ he => he.elim
  | release nr =>
    obtain ⟨hone, hlt, huse, -⟩ := he
    rw [perform, wp_bind, wp_modify, wp_inMem]
    refine wp_mono (wp_release hi.ok (hi.mem_held ((hi.slot nr hone hlt).struct huse))) ?_
      fun _ _ he => he.elim
    rintro - m' ⟨-, hkeep, hflags, htask, -⟩
    exact .release hkeep hflags htask
  | noPage cur address iCount =>
    obtain ⟨hone, hr, ha, habs⟩ := he
    rw [perform, wp_bind, wp_inMem]
    refine wp_mono (wp_doNoPage hi.ok (hi.resides hone hr) ha hi.inSlots habs) (fun r m' hm => ?_)
      fun _ m' hl => ⟨_, hl.2.1⟩
    cases r with
    | some page =>
      obtain ⟨hmain, h0, rfl, -⟩ := hm
      exact .idle trivial (hi.ok.takePage hmain h0).1
    | none =>
      obtain ⟨hf, ⟨hfresh, hzero, hanon⟩ | ⟨hoff, q, f, hs, hn⟩⟩ := hm
      · exact .empty hf hfresh hzero hanon
      · exact .shared hf hoff hs hn
  | loaded cur content =>
    obtain ⟨hone, hlt, hl⟩ := he
    rw [perform, wp_bind, wp_get]
    cases hload : s.loading cur with
    | none => exact absurd hload hl
    | some l =>
      obtain ⟨address, page⟩ := l
      have hslot := hi.slot cur hone hlt
      obtain ⟨⟨huse, hz⟩, ha, ho, habs⟩ := hslot.loading address page hload
      have hpage := hi.ok.maps.own_main (hi.mem_held ho)
      rw [wp_bind, wp_modify, wp_inMem]
      refine wp_mono (wp_loadPage hi.ok ⟨hone, hlt, hslot.inSlot huse, hslot.beyond huse hz⟩ ha habs
        (hi.mem_held ho)) (fun _ m' hm => ?_) fun _ m' hlv => ⟨_, hlv.2.1⟩
      obtain ⟨hf, hfresh, hent, hword⟩ := hm
      exact .loaded hload hf hfresh (by rw [hent, named_pageEntry hpage.lt_pow]) hword
  | wpFault cur address =>
    obtain ⟨hone, hr, -, hn, -⟩ := he
    obtain ⟨f, hf⟩ := Option.ne_none_iff_exists'.mp hn
    rw [perform, wp_inMem]
    exact wp_mono (wp_doWpPage hi.ok (hi.resides hone hr) hf) (fun _ m' hp => .wpFault hf hp)
      fun _ m' hl => ⟨_, hl.2.1⟩
  | writeVerify cur address =>
    obtain ⟨hone, hr, ha⟩ := he
    rw [perform, wp_inMem]
    refine wp_mono (wp_writeVerify hi.ok (hi.resides hone hr) ha) (fun _ m' hm => ?_)
      fun _ m' hl => ⟨_, hl.2.1⟩
    rcases hm with rfl | ⟨f, hf, hp⟩
    · exact .idle trivial (Eff.refl hi.ok)
    · exact .writeVerify hf hp
  | store cur address v =>
    obtain ⟨-, -, -, hn, hw⟩ := he
    obtain ⟨f, hf⟩ := Option.ne_none_iff_exists'.mp hn
    obtain ⟨hge, honly⟩ := hi.ok.maps.rw_only hf hw
    rw [perform, wp_inMem]
    exact wp_mono (wp_store hi.ok hf hge) (fun _ m' hs => .store hf hge honly hs)
      fun _ _ he => he.elim
  | getPage =>
    rw [perform, wp_bind, wp_inMem]
    refine wp_mono (wp_getFreePage hi.ok) (fun r m' hm => ?_) fun _ _ he => he.elim
    cases r with
    | none =>
      obtain ⟨rfl, -⟩ := hm
      exact .idle trivial (Eff.refl hi.ok)
    | some page =>
      obtain ⟨hmain, h0, rfl⟩ := hm
      exact .idle trivial (hi.ok.takePage hmain h0).1
  | freePage page =>
    rw [perform, wp_bind, wp_modify, wp_inMem]
    exact wp_mono (wp_freePage_own hi.ok (hi.mem_held he)) (fun _ m' hm => .idle trivial hm.1)
      fun _ _ he => he.elim
  | putPage cur page address =>
    obtain ⟨hone, hr, ha, habs, ho⟩ := he
    have hmem := hi.mem_held ho
    have hpage := hi.ok.maps.own_main hmem
    rw [perform, wp_bind, wp_inMem]
    refine wp_mono (wp_putPage hi.ok ((hi.resides hone hr).mem_userDirs ha) habs hmem)
      (fun r m' hm => ?_) fun _ _ he => he.elim
    cases r with
    | none =>
      obtain ⟨rfl, -⟩ := hm
      exact .idle trivial (Eff.refl hi.ok)
    | some p =>
      obtain ⟨rfl, heff, hdirs, hent, -⟩ := hm
      have hn := congrArg named hent
      rw [named_pageEntry hpage.lt_pow] at hn
      refine .putPage ⟨heff, hdirs, p, hn, hpage.le⟩ fun g hg => ?_
      obtain rfl := Option.some.inj (hn.symm.trans hg)
      exact hi.ok.maps.own_fresh hmem

end Linux011.Mm

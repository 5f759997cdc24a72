import Linux011.Mm.Verify

/-!
# The pages that are shared

Where another task has already loaded a page of the executable, `do_no_page` maps that page
instead of reading it again. Whether it is still what was loaded `try_to_share` tells from the
dirty bit of the other task's entry. `Linux011.Mm.Images.PristineAt` says that it can: a clean
entry below `end_data` names a page that holds what the executable has there.

Of the steps of the machine two do not keep this. `un_wp_page` makes the entry of a copy anew,
and the dirty bit that the old one had is gone (`Linux011.Mm.not_pristine`). A store of the kernel
marks the entry it goes through, whoever else names the page. In a run in which these two do no
harm (`Linux011.Mm.Guarded`), every page that is shared is what was loaded
(`Linux011.Mm.shared_pages_pristine`).
-/

namespace Linux011.Mm

/-! ### What is loaded -/

/-- **The executables on the disk**: where the data of each ends, and the words that `bread_page`
reads for the page at an offset. -/
structure Images where
  endData : ℕ → ℕ
  page : ℕ → ℕ → ℕ → Word

/-- The word `w` of what `do_no_page` loads for the page at an offset. -/
def Images.load (D : Images) (exe offset w : ℕ) : Word :=
  keepBytes (D.page exe offset w) (D.endData exe - offset - 4 * w)

/-- `end_data` of a task that runs an executable, or none. -/
def Images.endOf (D : Images) : Option ℕ → ℕ
  | none => 0
  | some exe => D.endData exe

/-- The offset in its slot of the page that an entry is for. -/
def slotOffset (k j : ℕ) : ℕ := k % 16 * 0x400000 + j * 4096

/-- The entry is for a page of the executable of the task whose slot it is in. -/
def InImage (m : Mem) (k j exe : ℕ) : Prop :=
  (m.task (k / 16)).executable = some exe ∧ slotOffset k j < (m.task (k / 16)).endData

/-- The page holds what an executable has at an offset. -/
def Images.Holds (D : Images) (m : Mem) (f exe offset : ℕ) : Prop :=
  ∀ w, w < 1024 → m.word f w = D.load exe offset w

/-- **A clean entry names what was loaded.** -/
def Images.PristineAt (D : Images) (m : Mem) (k j : ℕ) : Prop :=
  ∀ exe f, InImage m k j exe → named (m.userEntry k j) = some f → 256 ≤ f ∧
    (dirty (m.userEntry k j) = false → D.Holds m f exe (slotOffset k j))

/-! ### The steps -/

/-- A step of the machine, or a store of the kernel through `fs`. -/
inductive Move
  | act (a : Act)
  | kernelStore (address : ℕ)

/-- What comes from the disk is what is there: the header that `do_execve` reads, and the page
that `do_no_page` waits for. -/
def Images.Reads (D : Images) (s : Sys) : Act → Prop
  | .exec _ _ endData exe => endData = D.endData exe
  | .loaded cur content => ∀ address page exe, s.loading cur = some (address, page) →
    (s.mem.task cur).executable = some exe →
      ∀ w, w < 1024 → content w = D.page exe (pageOffset s.mem cur address) w
  | _ => True

/-- **One step**, as far as `ok` lets it happen. A store of the kernel goes to a page above
`LOW_MEM`: of a lower one `verify_area` has made a copy. -/
inductive Images.Step (D : Images) (ok : Sys → Move → Prop) : Sys → Sys → Prop
  | act {s s' : Sys} {a : Act} (he : Enabled s a) (hd : D.Reads s a) (hok : ok s (.act a))
      (hp : perform a s = .ok () s' ∨ perform a s = .error .exited s') : D.Step ok s s'
  | kernelStore {s : Sys} {n address f : ℕ} {v : Word} {m' : Mem} (hr : Running n s)
      (hm : Mine n address s.mem) (hn : named (entryAt s.mem address) = some f) (hge : 256 ≤ f)
      (hok : ok s (.kernelStore address)) (hp : kernelStore address v s.mem = .ok () m') :
      D.Step ok s { s with mem := m' }

/-- The page of the entry is copied by a write fault only where the entry is clean. -/
def CopiedClean (m : Mem) (k j : ℕ) : Prop :=
  ∀ exe f, InImage m k j exe → named (m.userEntry k j) = some f → ¬Sole m f →
    dirty (m.userEntry k j) = false

/-- **The steps that do no harm**: no write fault loses a dirty bit, the pages of the arguments
lie beyond `end_data`, and no other clean entry names the page a store of the kernel goes to. -/
def Guarded (s : Sys) : Move → Prop
  | .act (.wpFault _ address) | .act (.writeVerify _ address) =>
    CopiedClean s.mem (dirIndex address) (tableIndex address)
  | .act (.putPage _ _ address) =>
    ∀ exe, ¬InImage s.mem (dirIndex address) (tableIndex address) exe
  | .act _ => True
  | .kernelStore address => ∀ k j exe, ¬OneEntry (dirIndex address) (tableIndex address) k j →
    InImage s.mem k j exe → named (s.mem.userEntry k j) = named (entryAt s.mem address) →
      dirty (s.mem.userEntry k j) = true

variable {A : Arena} {D : Images} {own : Finset ℕ} {m m' : Mem} {k j f n cur nr exe address : ℕ}
  {S : ℕ → ℕ → Prop} {s s' : Sys} {ok : Sys → Move → Prop}

/-! ### Entries and offsets -/

/-- The entry of an address lies in the slot of its task, at the offset `do_no_page` computes. -/
theorem InSlot.slotOffset (hs : InSlot n (m.task n)) (hlt : n < 64) (ha : Mine n address m) :
    Mm.dirIndex address / 16 = n ∧
      Mm.slotOffset (Mm.dirIndex address) (tableIndex address) = pageOffset m n address := by
  have := hs.limit_le
  obtain ⟨h1, h2⟩ := ha
  rw [Mm.slotOffset, pageOffset, hs.start, dirIndex, tableIndex]
  omega

/-- The entries of one offset in two slots. -/
theorem slotOffset_shared (hn : n < 64) (hoff : address < 0x4000000) (hpage : address % 4096 = 0) :
    dirIndex (n * 0x4000000 + address) / 16 = n ∧
      slotOffset (dirIndex (n * 0x4000000 + address)) (tableIndex address) = address := by
  rw [slotOffset, dirIndex, tableIndex]
  omega

theorem InImage.of_task (h : InImage m' k j exe) (htask : m'.task (k / 16) = m.task (k / 16)) :
    InImage m k j exe := by
  rw [InImage, htask] at h
  exact h

/-! ### Entries that are left alone -/

namespace Images

theorem PristineAt.of_absent (h : named (m.userEntry k j) = none) : D.PristineAt m k j := by
  intro exe f _ hf
  rw [h] at hf
  simp at hf

/-- An entry whose name and dirty bit are what they were, and whose page is. -/
theorem PristineAt.of_keeps (h : D.PristineAt m k j) (hk : Keeps S m m') (hf : Flags A S m m')
    (hS : ¬S k j) (hI : ∀ exe, InImage m' k j exe → InImage m k j exe) : D.PristineAt m' k j := by
  intro exe f hin hn
  have hn' : named (m.userEntry k j) = some f := (hk k j hS).1 ▸ hn
  obtain ⟨hge, hpure⟩ := h exe f (hI exe hin) hn'
  refine ⟨hge, fun hclean w hw => ?_⟩
  rw [(hk k j hS).2 f hn' hge]
  exact hpure (by rw [← dirty_of_seen (hf.seen hS) hn, hclean]) w hw

/-- **The executables are where the tasks think they are**: `end_data` is that of the executable,
and every clean entry names what was loaded. -/
structure Ok (D : Images) (m : Mem) : Prop where
  ends : ∀ n, (m.task n).inUse = true → (m.task n).zombie = false →
    (m.task n).endData = D.endOf (m.task n).executable
  pristine : ∀ k j, D.PristineAt m k j

namespace Ok

/-- What is left of the tasks and the entries after a routine. -/
theorem of_eff (h : D.Ok m) (he : Eff A own S m m') (hS : ∀ k j, S k j → D.PristineAt m' k j) :
    D.Ok m' where
  ends n := by
    rw [he.task]
    exact h.ends n
  pristine k j := by
    by_cases hkj : S k j
    · exact hS k j hkj
    · exact (h.pristine k j).of_keeps he.keeps he.flags hkj fun exe hin =>
        hin.of_task (congrFun he.task _)

/-- One slot has changed, and its task. -/
theorem of_slot (h : D.Ok m) (hk : Keeps (OneSlot n) m m') (hf : Flags A (OneSlot n) m m')
    (htask : ∀ n', n' ≠ n → m'.task n' = m.task n')
    (hends : (m'.task n).inUse = true → (m'.task n).zombie = false →
      (m'.task n).endData = D.endOf (m'.task n).executable)
    (hslot : ∀ k j, k / 16 = n → D.PristineAt m' k j) : D.Ok m' where
  ends n' := by
    by_cases hn : n' = n
    · exact hn ▸ hends
    · rw [htask n' hn]
      exact h.ends n'
  pristine k j := by
    by_cases hkn : k / 16 = n
    · exact hslot k j hkn
    · exact (h.pristine k j).of_keeps hk hf hkn fun exe hin => hin.of_task (htask _ hkn)

/-- A task that is gone has left an empty slot. -/
theorem gone (h : D.Ok m) (hg : Gone A own cur m m') : D.Ok m' := by
  refine h.of_slot hg.keeps hg.flags (fun n hn => ?_) (fun _ hz => ?_)
    fun k j hk => .of_absent (named_of_empty hg.empty hk j)
  · rw [hg.task, Function.update_of_ne hn]
  · rw [hg.task, Function.update_self] at hz
    simp at hz

/-- **A child has the executable of its parent**, and its pages. -/
theorem forked {p : ℕ} (h : D.Ok m) (huse : (m.task cur).inUse = true)
    (hz : (m.task cur).zombie = false) (hne : cur ≠ nr)
    (h0 : cur = 0 → (m.task cur).executable = none) (hf : Forked A own cur nr p m m') :
    D.Ok m' := by
  have hchild : m'.task nr = childTask (m.task cur) nr p := by rw [hf.task, Function.update_self]
  refine h.of_slot hf.keeps hf.flags (fun n hn => by rw [hf.task, Function.update_of_ne hn])
    (fun _ _ => ?_) fun k j hk => ?_
  · rw [hchild]
    exact h.ends cur huse hz
  · have hkd : 16 * nr + k % 16 = k := by omega
    by_cases hd : dirCount (m.task cur).dataLimit ≤ k % 16
    · refine .of_absent ?_
      rw [← hkd, Mem.userEntry_of_none (hf.beyond _ hd (by omega)), named_zero]
    intro exe f hin hn
    have hin' : InImage m (16 * cur + k % 16) j exe := by
      rw [InImage, hk, hchild] at hin
      rw [InImage, show (16 * cur + k % 16) / 16 = cur by omega, slotOffset, Nat.mul_add_mod,
        Nat.mod_mod]
      exact hin
    have hone : 1 ≤ cur := by
      by_contra hcur
      have hexe := hin'.1
      rw [show (16 * cur + k % 16) / 16 = cur by omega, h0 (by omega)] at hexe
      simp at hexe
    have hseen := hf.seen hone (k % 16) j (by omega)
    rw [hkd] at hseen
    have hn' : named (m.userEntry (16 * cur + k % 16) j) = some f := named_of_seen hseen ▸ hn
    obtain ⟨hge, hpure⟩ := h.pristine _ j exe f hin' hn'
    refine ⟨hge, fun hclean w hw => ?_⟩
    rw [(hf.keeps _ j fun hS => hne (by rw [OneSlot] at hS; omega)).2 f hn' hge,
      hpure (by rw [← dirty_of_seen hseen hn, hclean]) w hw, slotOffset, slotOffset,
      Nat.mul_add_mod, Nat.mod_mod]

/-- **A write fault** keeps the dirty bit, or there was none. -/
theorem of_private (h : D.Ok m) (hn : named (m.userEntry k j) = some f)
    (hp : Private A own k j f m m') (hcopy : CopiedClean m k j) : D.Ok m' := by
  refine h.of_eff hp.eff ?_
  rintro k' j' ⟨rfl, rfl⟩ exe g hin hg
  obtain ⟨g', hg', hword⟩ := hp.copied
  obtain rfl := Option.some.inj (hg.symm.trans hg')
  have hin' : InImage m k' j' exe := hin.of_task (by rw [hp.eff.task])
  refine ⟨(hp.eff.ok.maps.rw_only hg hp.writable).1, fun hclean w hw => ?_⟩
  have hold : dirty (m.userEntry k' j') = false := by
    rcases hp.bits with ⟨-, he⟩ | ⟨hshared, -⟩
    · rw [he, dirty_setRw] at hclean
      exact hclean
    · exact hcopy exe f hin' hn hshared
  rw [hword]
  exact (h.pristine k' j' exe f hin' hn).2 hold w hw

/-- **A store** leaves a mark in its entry; other clean entries do not see it. -/
theorem of_stored {i : ℕ} {v : Word} (h : D.Ok m) (hge : 256 ≤ f)
    (hs : Stored A own k j f i v m m')
    (hothers : ∀ k' j' exe, ¬OneEntry k j k' j' → InImage m k' j' exe →
      named (m.userEntry k' j') = some f → dirty (m.userEntry k' j') = true)
    (hn : named (m.userEntry k j) = some f) : D.Ok m' where
  ends n := by
    rw [hs.task]
    exact h.ends n
  pristine k' j' exe g hin hg := by
    have hin' : InImage m k' j' exe := hin.of_task (by rw [hs.task])
    rw [hs.named_eq] at hg
    obtain ⟨hle, hpure⟩ := h.pristine k' j' exe g hin' hg
    refine ⟨hle, fun hclean w hw => ?_⟩
    by_cases hS : OneEntry k j k' j'
    · rw [hS.1, hS.2, hs.entry, dirty_setDirty] at hclean
      simp at hclean
    rw [hs.others k' j' hS] at hclean
    have hgf : g ≠ f := by
      rintro rfl
      rw [hothers k' j' exe hS hin' hg] at hclean
      simp at hclean
    rw [hs.words k' j' g hg hgf]
    exact hpure hclean w hw

/-- **A page that is shared** is what was loaded. -/
theorem of_served {tmp iCount q : ℕ} (h : D.Ok m)
    (hlive : ∀ n, 1 ≤ n → n < 64 → (m.task n).zombie = true →
      ∀ d, d < 16 → m.userDir (16 * n + d) = none)
    (hend : tmp < D.endOf (m.task cur).executable) (hoff : tmp < 0x4000000) (hpage : tmp % 4096 = 0)
    (hs : Served m cur tmp iCount q f) : ∃ exe, (m.task cur).executable = some exe ∧
      D.Holds m f exe tmp := by
  obtain ⟨hexe, -, hone, hle, ⟨huse, -, hsame⟩, ⟨hn, hclean, -⟩, -⟩ := hs
  obtain ⟨exe, he⟩ := Option.ne_none_iff_exists'.mp hexe
  rw [nrTasks] at hle
  obtain ⟨hq, hslot⟩ := slotOffset_shared (n := q) (by omega) hoff hpage
  have hz : (m.task q).zombie = false := by
    by_contra hz
    rw [named_of_empty (hlive q hone (by omega) (by simpa using hz)) hq] at hn
    simp at hn
  have hin : InImage m (dirIndex (q * 0x4000000 + tmp)) (tableIndex tmp) exe := by
    rw [InImage, hq, hslot, hsame, he, h.ends q huse hz, hsame]
    exact ⟨rfl, hend⟩
  refine ⟨exe, he, fun w hw => ?_⟩
  rw [(h.pristine _ _ exe f hin hn).2 hclean w hw, hslot]

end Ok

end Images

/-! ### Every step -/

/-- Where a zombie was, there is nothing. -/
theorem Inv.empty (hi : Inv A s) (hone : 1 ≤ n) (hlt : n < 64) (hz : (s.mem.task n).zombie = true) :
    ∀ d, d < 16 → s.mem.userDir (16 * n + d) = none :=
  (hi.slot n hone hlt).idle (Or.inr hz)

/-- **A page that is shared** with another task. -/
theorem Images.Ok.shared {iCount q : ℕ} (h : D.Ok s.mem) (hi : Inv A s) (hone : 1 ≤ cur)
    (hr : Running cur s) (ha : Mine cur address s.mem)
    (hf : Filled A own (dirIndex address) (tableIndex address) s.mem m')
    (hend : pageOffset s.mem cur address < (s.mem.task cur).endData)
    (hs : Served s.mem cur (pageOffset s.mem cur address) iCount q f)
    (hn : named (m'.userEntry (dirIndex address) (tableIndex address)) = some f) : D.Ok m' := by
  obtain ⟨hk, hoff⟩ := (hi.resides hone hr).slot.slotOffset hr.1 ha
  refine h.of_eff hf.eff ?_
  rintro k j ⟨rfl, rfl⟩ exe g hin hg
  obtain ⟨hexe, -⟩ := hin.of_task (m := s.mem) (congrFun hf.eff.task _)
  rw [hk] at hexe
  obtain rfl := Option.some.inj (hg.symm.trans hn)
  have hsmall : pageOffset s.mem cur address < 0x4000000 ∧
      pageOffset s.mem cur address % 4096 = 0 := by
    have := tableIndex_lt address
    rw [← hoff, slotOffset]
    omega
  obtain ⟨exe', hexe', hword⟩ := h.of_served (fun _ hone hlt hz => hi.empty hone hlt hz)
    (h.ends cur hr.2.1 hr.2.2.1 ▸ hend) hsmall.1 hsmall.2 hs
  obtain rfl := Option.some.inj (hexe.symm.trans hexe')
  obtain ⟨-, -, -, hle, hpart, ⟨hoffer, -, hge⟩, -⟩ := hs
  refine ⟨hge, fun _ w hw => ?_⟩
  -- the page itself has not been touched
  rw [nrTasks] at hle
  have hq := (slotOffset_shared (n := q) (by omega) hsmall.1 hsmall.2).1
  rw [(hf.eff.keeps _ _ fun hS => hpart.2.1 (by rw [← hq, hS.1, hk])).2 g hoffer hge, hword w hw,
    hoff]

/-- **A page that has been read** from the disk. -/
theorem Images.Ok.loaded {content : ℕ → Word} {page : ℕ} (h : D.Ok s.mem) (hi : Inv A s)
    (hone : 1 ≤ cur) (hlt : cur < 64) (hd : D.Reads s (.loaded cur content))
    (hl : s.loading cur = some (address, page))
    (hf : Filled A own (dirIndex address) (tableIndex address) s.mem m')
    (hn : named (m'.userEntry (dirIndex address) (tableIndex address)) = some page)
    (hword : ∀ w, m'.word page w = keepBytes (content w)
      ((s.mem.task cur).endData - pageOffset s.mem cur address - 4 * w)) : D.Ok m' := by
  have hslot := hi.slot cur hone hlt
  obtain ⟨⟨huse, hz⟩, ha, -, -⟩ := hslot.loading address page hl
  obtain ⟨hk, hoff⟩ := (hslot.inSlot huse).slotOffset hlt ha
  refine h.of_eff hf.eff ?_
  rintro k j ⟨rfl, rfl⟩ exe g hin hg
  obtain ⟨hexe, -⟩ := hin.of_task (m := s.mem) (congrFun hf.eff.task _)
  rw [hk] at hexe
  obtain rfl := Option.some.inj (hg.symm.trans hn)
  obtain ⟨g', hg', hge⟩ := hf.mapped
  obtain rfl := Option.some.inj (hg.symm.trans hg')
  refine ⟨hge, fun _ w hw => ?_⟩
  have hend := h.ends cur huse hz
  rw [hexe] at hend
  rw [hword, hoff, hend, Images.load, hd address g exe hl hexe w hw]
  rfl

/-- **Every step keeps the pages pristine.** -/
theorem Images.Ok.perform (h : D.Ok s.mem) (hi : Inv A s) : ∀ a, Enabled s a → D.Reads s a →
    Guarded s (.act a) →
      wp (Mm.perform a) (fun _ s' => D.Ok s'.mem) (fun _ s' => D.Ok s'.mem) s := by
  intro a he hd hok
  refine wp_mono (hi.done a he) (fun _ s' hdone => ?_) fun _ s' ⟨_, hg⟩ => h.gone hg
  cases hdone with
  | idle _ heff => exact h.of_eff heff fun _ _ hS => hS.elim
  | forked hf =>
    exact h.forked he.1.2.1 he.1.2.2.1 (he.1.ne he.2.2.2) (fun hz => by rw [hz, hi.first]; rfl) hf
  | notForked hf =>
    exact h.of_slot hf.keeps hf.flags hf.task (fun hu => by rw [hf.unused] at hu; simp at hu)
      fun k j hk => .of_absent (named_of_empty hf.empty hk j)
  | exec hk hf ht hempty =>
    refine h.of_slot hk hf (fun n hn => by rw [ht, Function.update_of_ne hn]) (fun _ _ => ?_)
      fun k j hkn => .of_absent (named_of_empty hempty hkn j)
    rw [ht, Function.update_self]
    exact hd
  | exit hg => exact h.gone hg
  | @release nr hk hf ht =>
    refine h.of_slot (n := nr) (hk.mono fun _ _ hS => hS.elim) (hf.mono fun _ _ hS => hS.elim)
      (fun n hn => by rw [ht, Function.update_of_ne hn]) (fun hu => ?_)
      fun k j hkn => (h.pristine k j).of_keeps hk hf id fun exe hin => ?_
    · rw [ht, Function.update_self] at hu
      simp at hu
    · rw [InImage, hkn, ht, Function.update_self] at hin
      rw [InImage, hkn]
      exact hin
  | empty hf _ _ hanon =>
    obtain ⟨hk, hoff⟩ := (hi.resides he.1 he.2.1).slot.slotOffset he.2.1.1 he.2.2.1
    refine h.of_eff hf.eff ?_
    rintro k j ⟨rfl, rfl⟩ exe g hin -
    -- the address is not in the executable
    obtain ⟨hexe, hend⟩ := hin.of_task (m := s.mem) (congrFun hf.eff.task _)
    rw [hk] at hexe hend
    rcases hanon with hnone | hle
    · rw [hexe] at hnone
      simp at hnone
    · omega
  | shared hf hoff hs hn => exact h.shared hi he.1 he.2.1 he.2.2.1 hf hoff hs hn
  | loaded hl hf _ hn hword => exact h.loaded hi he.1 he.2.1 hd hl hf hn hword
  | wpFault hn hp => exact h.of_private hn hp hok
  | writeVerify hn hp => exact h.of_private hn hp hok
  | store hn hge honly hs =>
    exact h.of_stored hge hs (fun k j exe hS _ hkj => absurd (honly k j hkj) hS) hn
  | putPage hf =>
    refine h.of_eff hf.eff ?_
    rintro k j ⟨rfl, rfl⟩ exe f hin _
    exact absurd (hin.of_task (m := s.mem) (congrFun hf.eff.task _)) (hok exe)

theorem Images.Ok.step (h : D.Ok s.mem) (hi : Inv A s) (hs : D.Step Guarded s s') :
    D.Ok s'.mem ∧ Inv A s' := by
  cases hs with
  | act he hd hok hp =>
    refine ⟨?_, hi.step ⟨_, he, hp⟩⟩
    rcases hp with hp | hp
    · exact wp_ok (Q := fun _ s' => D.Ok s'.mem) (h.perform hi _ he hd hok) hp
    · exact wp_error (E := fun _ s' => D.Ok s'.mem) (h.perform hi _ he hd hok) hp
  | kernelStore hr hm hn hge hok hp =>
    have hst := wp_ok (wp_store hi.ok hn hge) hp
    refine ⟨h.of_stored hge hst (fun k j exe hS hin hkj => ?_) hn, hi.stored hst⟩
    exact hok k j exe hS hin (hkj.trans hn.symm)

/-- At boot no task runs an executable. -/
theorem Images.Ok.boot (h : Boot A s) : D.Ok s.mem := by
  obtain ⟨rest, rfl⟩ := h
  have htask : ∀ n, ((memInit (A.lo * 4096) (A.hi * 4096) rest).task n).executable = none ∧
      ((memInit (A.lo * 4096) (A.hi * 4096) rest).task n).endData = 0 := fun n => by
    rw [memInit]
    dsimp only
    split <;> exact ⟨rfl, rfl⟩
  refine ⟨fun n _ _ => ?_, fun k j exe f hin _ => ?_⟩
  · rw [(htask n).1, (htask n).2]
    rfl
  · rw [InImage, (htask _).1] at hin
    simp at hin

/-- **Clean pages are pristine**: what a clean entry of a task at an offset below its `end_data`
names holds what `do_no_page` would load for that offset. -/
def Images.Pristine (D : Images) (s : Sys) : Prop :=
  ∀ n address f, n < 64 → (s.mem.task n).inUse = true → Mine n address s.mem →
    pageOffset s.mem n address < (s.mem.task n).endData → named (entryAt s.mem address) = some f →
      dirty (entryAt s.mem address) = false → ∃ exe, (s.mem.task n).executable = some exe ∧
        D.Holds s.mem f exe (pageOffset s.mem n address)

theorem Images.Ok.holds (h : D.Ok s.mem) (hi : Inv A s) : D.Pristine s := by
  intro n address f hlt huse ha hend hn hclean
  have hone : 1 ≤ n := by
    by_contra hn0
    rw [show n = 0 by omega, hi.first] at hend
    exact absurd hend (Nat.not_lt_zero _)
  obtain ⟨hk, hoff⟩ := ((hi.slot n hone hlt).inSlot huse).slotOffset hlt ha
  have hz : (s.mem.task n).zombie = false := by
    by_contra hz
    rw [entryAt, named_of_empty (hi.empty hone hlt (by simpa using hz)) hk] at hn
    simp at hn
  have hends := h.ends n huse hz
  cases hexe : (s.mem.task n).executable with
  | none =>
    rw [hexe] at hends
    rw [hends] at hend
    exact absurd hend (Nat.not_lt_zero _)
  | some exe =>
    have hin : InImage s.mem (dirIndex address) (tableIndex address) exe := by
      rw [InImage, hk, hoff]
      exact ⟨hexe, hend⟩
    exact ⟨exe, rfl, hoff ▸ (h.pristine _ _ exe f hin hn).2 hclean⟩

/-- Executables of 4 kB of zeros. -/
def zeroImages : Images := ⟨fun _ => 4096, fun _ _ _ => 0#32⟩

/-- The steps that bring two tasks to their first page are steps of the machine with these. -/
theorem SetupStep.images (hok : ∀ s a, a.Setup → ok s (.act a)) (h : SetupStep s s') :
    zeroImages.Step ok s s' := by
  obtain ⟨a, ha, he, hp⟩ := h
  refine .act he ?_ (hok s a ha) (Or.inl hp)
  cases a with
  | exec cur text endData exe => exact ha.2.1
  | loaded cur content =>
    rintro address page exe - - w -
    rw [show content = fun _ => 0#32 from ha]
    rfl
  | _ => trivial

/-- **Only pristine pages are shared**: in every state of a run in which no dirty bit is lost and
no store of the kernel goes to a page that another clean entry names, clean pages are pristine,
and so is the page by which `share_page` serves a fault. -/
theorem shared_pages_pristine (h : Reachable (Boot A) (D.Step Guarded) s) :
    D.Pristine s ∧ ∀ cur address iCount q f, 1 ≤ cur → Running cur s → Mine cur address s.mem →
      pageOffset s.mem cur address < (s.mem.task cur).endData →
        Served s.mem cur (pageOffset s.mem cur address) iCount q f →
          ∃ exe, (s.mem.task cur).executable = some exe ∧
            D.Holds s.mem f exe (pageOffset s.mem cur address) := by
  obtain ⟨hok, hi⟩ : D.Ok s.mem ∧ Inv A s :=
    h.inv (I := fun s => D.Ok s.mem ∧ Inv A s) (fun _ h0 => ⟨Images.Ok.boot h0, Inv.boot h0⟩)
      fun _ _ hi hs => hi.1.step hi.2 hs
  refine ⟨hok.holds hi, fun cur address iCount q f hone hr ha hend hs => ?_⟩
  obtain ⟨-, hoff⟩ := (hi.resides hone hr).slot.slotOffset hr.1 ha
  have hj := tableIndex_lt address
  rw [hok.ends cur hr.2.1 hr.2.2.1] at hend
  refine hok.of_served (fun _ hone hlt hz => hi.empty hone hlt hz) hend ?_ ?_ hs <;>
    rw [← hoff, Mm.slotOffset] <;> omega

/-- What task 1 has loaded may be shared. -/
theorem shared_pages_pristine_first : ∃ (s : Sys) (f : ℕ),
    named (entryAt s.mem 0x4000000) = some f ∧ zeroImages.Holds s.mem f 7 0 := by
  obtain ⟨s, p, p', g, hs⟩ := first_page
  have h := hs.tasks
  have hreach : Reachable (Boot arena16) (zeroImages.Step Guarded) s :=
    h.setup.mono fun _ _ => SetupStep.images fun s a ha => by
      cases a with
      | wpFault | writeVerify | putPage => exact ha.elim
      | _ => trivial
  have hent : entryAt s.mem 0x4000000 = pageEntry g := by
    rw [← hs.entry, entryAt]
    congr
  have hn : named (entryAt s.mem 0x4000000) = some g := by rw [hent, named_pageEntry hs.main.lt_pow]
  obtain ⟨exe, hexe, hload⟩ := (shared_pages_pristine hreach).1 1 0x4000000 g (by omega)
    (h.running (Or.inl rfl) (by rw [hs.loading])).2.1 h.mine.1
    (by rw [h.offset.1, h.one]; exact Nat.zero_lt_succ _) hn (by rw [hent, dirty_pageEntry])
  rw [h.one] at hexe
  obtain rfl := Option.some.inj hexe
  exact ⟨s, g, hn, h.offset.1 ▸ hload⟩

/-! ### A dirty bit that is lost

Task 1 stores to its first page, which was loaded, and forks. Its next store to the page faults,
and the page is copied. -/

/-- A page that two entries name is not the only page of one. -/
theorem not_sole {k' j' : ℕ} (h : MemOk A own m) (hn : named (m.userEntry k j) = some f)
    (hn' : named (m.userEntry k' j') = some f) (hne : k ≠ k') : ¬Sole m f := by
  rintro ⟨hge, hone⟩
  have hmain : A.Main f := (h.maps.entry_main hn).resolve_left (by omega)
  rw [← Mem.maps_count hge, h.maps.count_page hn hmain] at hone
  have := eq_of_refs_eq_one hone (h.maps.entry_mem hn) hn (h.maps.entry_mem hn') hn'
  exact hne (congrArg Prod.fst this)

/-- The first store of task 1 to its page. -/
theorem stored_page : ∃ s s₁ p p' g, FirstPage s p p' g ∧
    Stored arena16 s.held 16 0 g 0 1#32 s.mem s₁.mem ∧ s₁.owner = s.owner ∧ s₁.loading = s.loading ∧
    Reachable (Boot arena16) (zeroImages.Step fun _ _ => True) s₁ ∧ Inv arena16 s₁ := by
  obtain ⟨s, p, p', g, hs⟩ := first_page
  have h := hs.tasks
  have hi := Inv.reachable h.reach
  have hk : dirIndex 0x4000000 = 16 := by decide
  have hj : tableIndex 0x4000000 = 0 := by decide
  have hreach : Reachable (Boot arena16) (zeroImages.Step fun _ _ => True) s :=
    h.setup.mono fun _ _ => SetupStep.images fun _ _ _ => trivial
  have hn : named (entryAt s.mem 0x4000000) = some g := by
    rw [entryAt, hk, hj]
    exact hs.named
  have he : Enabled s (.store 1 0x4000000 1#32) := by
    refine ⟨le_rfl, h.running (Or.inl rfl) (by rw [hs.loading]), h.mine.1, by rw [hn]; simp, ?_⟩
    rw [entryAt, hk, hj, hs.entry, writable_pageEntry]
  have hwp : wp (perform (.store 1 0x4000000 1#32)) (fun _ s' =>
      Stored arena16 s.held 16 0 g 0 1#32 s.mem s'.mem ∧ s'.owner = s.owner ∧
        s'.loading = s.loading) (fun _ _ => False) s := by
    rw [perform, wp_inMem]
    refine wp_mono (wp_store hi.ok hn hs.main.le) (fun _ m' hst => ?_) fun _ _ he => he.elim
    rw [hk, hj] at hst
    exact ⟨hst, rfl, rfl⟩
  obtain ⟨⟨⟩, s₁, hp, hst, howner, hload⟩ := wp_returns hwp
  exact ⟨s, s₁, p, p', g, hs, hst, howner, hload, hreach.next (.act he trivial trivial (Or.inl hp)),
    hi.step ⟨_, he, Or.inl hp⟩⟩

/-- **Then it forks** into slot 3: both name the page that has been stored to. -/
theorem forked_page : ∃ s f q, Reachable (Boot arena16) (zeroImages.Step fun _ _ => True) s ∧
    Inv arena16 s ∧ Running 1 s ∧ Mine 1 0x4000000 s.mem ∧ pageOffset s.mem 1 0x4000000 = 0 ∧
    (s.mem.task 1).endData = 4096 ∧ named (s.mem.userEntry 16 0) = some f ∧
    named (s.mem.userEntry 48 0) = some f ∧ s.mem.word f 0 = 1#32 ∧ arena16.Main q ∧
    s.mem.maps.count q = 0 := by
  obtain ⟨s, s₁, p, p', g, hs, hst, howner₁, hload₁, hreach₁, hi₁⟩ := stored_page
  have h := hs.tasks
  have hrun : Running 1 s := h.running (Or.inl rfl) (by rw [hs.loading])
  have hrun₁ : Running 1 s₁ := ⟨hrun.1, by rw [hst.task, hrun.2.1], by rw [hst.task, hrun.2.2.1],
    by rw [hload₁, hrun.2.2.2]⟩
  have htask₁ : s₁.mem.task 1 = s.mem.task 1 := congrFun hst.task 1
  have he₂ : Enabled s₁ (.fork 1 3) := by
    refine ⟨hrun₁, by omega, by omega, ?_⟩
    rw [hst.task, h.others 3 le_rfl]
    rfl
  have hfree : ∀ q, ∃ f, arena16.Main f ∧ f ≠ q ∧ s₁.mem.maps.count f = 0 := fun q => by
    by_contra hno
    refine hs.not_short ⟨q, fun f hf hfq h0 => hno ⟨f, hf, hfq, ?_⟩⟩
    rw [Mem.maps_count hf.le] at h0 ⊢
    rw [hst.memMap, h0]
  obtain ⟨s₂, p₃, own, hp₂, huse₂, hf, howner₂, hload₂⟩ := hi₁.fork_ok (hi₁.parent hrun₁) he₂
    (fun d hd _ => by rw [hst.dirs]; exact hs.dirs _ (by omega)) hfree
  have hreach₂ := hreach₁.next (.act (a := .fork 1 3) he₂ trivial trivial (Or.inl hp₂))
  have hi₂ := hi₁.step ⟨_, he₂, Or.inl hp₂⟩
  have htask₂ : s₂.mem.task 1 = s.mem.task 1 := by
    rw [hf.task, Function.update_of_ne (by omega), htask₁]
  have hn₁ : named (s₁.mem.userEntry 16 0) = some g := by rw [hst.named_eq, hs.named]
  have hkeep := hf.keeps 16 0 fun hS => by rw [OneSlot] at hS; omega
  have hlimit : dirCount (s₁.mem.task 1).dataLimit = 16 := by
    rw [htask₁, h.one]
    change dirCount 0x4000000 = 16
    decide
  have hent₁ : ∀ k j x, named (s₁.mem.userEntry k j) = some x → x = g := fun k j x hx => by
    rw [hst.named_eq] at hx
    by_cases hS : OneEntry 16 0 k j
    · rw [hS.1, hS.2, hs.named] at hx
      exact (Option.some.inj hx).symm
    · rw [hs.absent k j hS] at hx
      simp at hx
  obtain ⟨⟨T, hT⟩, -⟩ := hi₁.ok.maps.entry_user hn₁
  -- what is in use: the structures, the page, and the tables of the two slots
  obtain ⟨L, hL⟩ : ∃ L : Finset ℕ, L = {p, p', g, T, p₃} ∪
    (Finset.range 16).image fun d => (s₂.mem.userDir (48 + d)).getD 0 := ⟨_, rfl⟩
  have hcard : L.card ≤ 32 := by
    have h5 : ({p, p', g, T, p₃} : Finset ℕ).card ≤ 5 := Finset.card_le_five
    have h16 := Finset.card_image_le (s := Finset.range 16)
      (f := fun d => (s₂.mem.userDir (48 + d)).getD 0)
    rw [Finset.card_range] at h16
    have := Finset.card_union_le ({p, p', g, T, p₃} : Finset ℕ)
      ((Finset.range 16).image fun d => (s₂.mem.userDir (48 + d)).getD 0)
    rw [hL]
    omega
  obtain ⟨q, hq, -, h0⟩ : ∃ q, arena16.Main q ∧ q ≠ 0 ∧ s₂.mem.maps.count q = 0 := by
    refine hi₂.roomy L hcard (fun k j x hx _ => ?_) (fun k x hx => ?_) (fun x hx => ?_) 0
    · have hxg : x = g := by
        by_cases hk3 : k / 16 = 3
        · have hc := hf.copied le_rfl (k % 16) j (by omega)
          rw [show 16 * 3 + k % 16 = k by omega, hx] at hc
          exact hent₁ _ j x hc.symm
        · rw [(hf.keeps k j hk3).1] at hx
          exact hent₁ k j x hx
      simp [hL, hxg]
    · rw [hL, Finset.mem_union, Finset.mem_image]
      by_cases hk3 : k / 16 = 3
      · refine Or.inr ⟨k % 16, by rw [Finset.mem_range]; omega, ?_⟩
        rw [show 48 + k % 16 = k by omega, hx]
        rfl
      · rw [hf.dirs k hk3] at hx
        refine Or.inl ?_
        by_cases hk16 : k = 16
        · rw [hk16, ← Mem.maps_dir, hT] at hx
          simp [Option.some.inj hx]
        · rw [hst.dirs, hs.dirs k hk16] at hx
          simp at hx
    · rw [howner₂, howner₁, Function.update_apply] at hx
      rw [hL]
      split at hx
      · next hxp => simp [hxp]
      · rcases hs.owner x hx with rfl | rfl <;> simp
  refine ⟨s₂, g, q, hreach₂, hi₂, ⟨by omega, ?_, ?_, ?_⟩, ?_, ?_, ?_, hkeep.1.trans hn₁, ?_, ?_, hq,
    h0⟩
  · rw [htask₂, hrun.2.1]
  · rw [htask₂, hrun.2.2.1]
  · rw [hload₂, hload₁, hrun.2.2.2]
  · rw [Mine, htask₂]
    exact h.mine.1
  · rw [pageOffset, htask₂]
    exact h.offset.1
  · rw [htask₂, h.one]
    rfl
  · exact (hf.copied le_rfl 0 0 (by omega)).trans hn₁
  · rw [hkeep.2 g hn₁ hs.main.le, hst.word, Function.update_self]

theorem zeroImages_load (exe offset w : ℕ) : zeroImages.load exe offset w = 0#32 := by
  rw [Images.load, keepBytes]
  exact BitVec.zero_and

/-- **A page that was stored to becomes clean**: the fault that copies it for task 1 forgets that
it is dirty. -/
theorem not_pristine : ¬∀ (A : Arena) (D : Images) (s : Sys),
    Reachable (Boot A) (D.Step fun _ _ => True) s → D.Pristine s := by
  intro hall
  obtain ⟨s, f, q, hreach, hi, hrun, hmine, hoff, hend, hn, hn', hword, hq, h0⟩ := forked_page
  have hent : ∀ m : Mem, entryAt m 0x4000000 = m.userEntry 16 0 := fun m => by
    rw [entryAt]
    congr
  have hro : writable (s.mem.userEntry 16 0) = false := by
    by_contra hw
    have := (hi.ok.maps.rw_only hn (by simpa using hw)).2 48 0 hn'
    omega
  have he : Enabled s (.wpFault 1 0x4000000) :=
    ⟨le_rfl, hrun, hmine, by rw [hent, hn]; simp, by rw [hent, hro]⟩
  have hwp : wp (perform (.wpFault 1 0x4000000)) (fun _ s' => Private arena16 s.held 16 0 f s.mem
      s'.mem) (fun _ _ => False) s := by
    rw [perform, wp_inMem]
    exact wp_mono (wp_and (wp_doWpPage hi.ok (hi.resides le_rfl hrun) hn)
      (wp_doWpPage_free hi.ok hq h0)) (fun _ _ hp => hp.1) fun _ _ he => he.2
  obtain ⟨⟨⟩, s', hp, hpriv⟩ := wp_returns hwp
  have htask : s'.mem.task 1 = s.mem.task 1 := congrFun hpriv.eff.task 1
  obtain ⟨g, hg, hcopy⟩ := hpriv.copied
  have hclean : dirty (s'.mem.userEntry 16 0) = false := by
    rcases hpriv.bits with ⟨hsole, -⟩ | ⟨-, g', hnew⟩
    · exact absurd hsole (not_sole hi.ok hn hn' (by omega))
    · rw [hnew, dirty_pageEntry]
  obtain ⟨exe, -, hload⟩ := hall arena16 zeroImages s'
    (hreach.next (.act he trivial trivial (Or.inl hp))) 1 0x4000000 g (by omega)
    (by rw [htask, hrun.2.1]) (by rw [Mine, htask]; exact hmine)
    (by rw [pageOffset, htask, hend]; exact hoff.trans_lt (by omega)) (by rw [hent, hg])
    (by rw [hent, hclean])
  have hword' := hload 0 (by omega)
  rw [hcopy, hword, zeroImages_load] at hword'
  simp at hword'

end Linux011.Mm

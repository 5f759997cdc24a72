import Linux011.Mm.Cow

/-!
# Stores of the kernel into user memory

A system call that stores to a buffer of its caller first runs `verify_area` over it,
because the 386 does not look at the write flag when the kernel stores: the pages of the
buffer are made private as a write fault would make them. The store itself may come much
later, after the call has slept.

Whether the pages are still private then is a question about the faults of other tasks.
`Linux011.Mm.Alone` is what a verified page is – absent, or named by no other entry – and
it is kept by every step of the machine but one: a fault that `share_page` serves with that
very page. A page that `un_wp_page` has made private is clean until it is stored to, so
`try_to_share` does take it (`Linux011.Mm.not_storesPrivate`); and a buffer page that is
absent when it is verified may itself be filled from another task. The run theorem
`Linux011.Mm.stores_private` excludes just these faults.
-/

namespace Linux011.Mm

/-! ### `verify_area` -/

/-- `verify_area`, at the offset `addr` of the data segment. -/
def verifyArea (cur addr size : ℕ) : M Unit := do
  let m ← get
  forFrom 0 ((size + addr % 4096 + 4095) / 4096) fun i =>
    writeVerify cur (addr / 4096 * 4096 + (m.task cur).dataBase + 4096 * i)

/-- A store of the kernel through `fs`: the processor does what it does for a store of the
user, but does not look at the write flag. -/
def kernelStore (address : ℕ) (v : Word) : M Unit := userStore address v

variable {A : Arena} {own : Finset ℕ} {m m' : Mem} {k j k' j' f n cur address : ℕ}
  {S : ℕ → ℕ → Prop} {s s' : Sys}

/-! ### Pages that nobody else names -/

/-- **The entry is absent, or names a page above `LOW_MEM` that no other entry names.** -/
def Alone (m : Mem) (k j : ℕ) : Prop :=
  ∀ f, named (m.userEntry k j) = some f → 256 ≤ f ∧
    ∀ k' j', named (m.userEntry k' j') = some f → k' = k ∧ j' = j

theorem Alone.of_absent (h : named (m.userEntry k j) = none) : Alone m k j := fun f hf => by
  rw [h] at hf
  simp at hf

/-- A writable entry is alone. -/
theorem Alone.of_writable (h : MemOk A own m) (hw : writable (m.userEntry k j) = true) :
    Alone m k j := fun _ hf => h.maps.rw_only hf hw

theorem Alone.of_named (h : Alone m k j)
    (hn : ∀ k j, named (m'.userEntry k j) = named (m.userEntry k j)) : Alone m' k j := by
  intro f hf
  rw [hn] at hf
  exact ⟨(h f hf).1, fun k' j' hf' => (h f hf).2 k' j' (by rw [← hn, hf'])⟩

/-- **An entry stays alone** when what has changed does not name its page. -/
theorem Alone.of_keeps (h : Alone m k j) (hk : Keeps S m m') (hS : ¬S k j)
    (hnew : ∀ k' j' f, S k' j' → named (m'.userEntry k' j') = some f →
      named (m.userEntry k j) ≠ some f) : Alone m' k j := by
  intro f hf
  rw [(hk k j hS).1] at hf
  refine ⟨(h f hf).1, fun k' j' hf' => ?_⟩
  by_cases hS' : S k' j'
  · exact absurd hf (hnew k' j' f hS' hf')
  · rw [(hk k' j' hS').1] at hf'
    exact (h f hf).2 k' j' hf'

/-- A slot that has been emptied names nothing. -/
theorem Alone.of_empty (h : Alone m k j) (hk : Keeps (OneSlot n) m m') (hkn : k / 16 ≠ n)
    (hempty : ∀ d, d < 16 → m'.userDir (16 * n + d) = none) : Alone m' k j := by
  refine h.of_keeps hk hkn fun k' j' f hS hf => ?_
  rw [named_of_empty hempty hS] at hf
  simp at hf

/-- A new page is alone, and so is every other entry that was. -/
theorem Alone.of_fresh (h : Alone m k j) (hf : Filled A own k' j' m m')
    (hfresh : Fresh k' j' m m') : Alone m' k j := by
  by_cases hS : OneEntry k' j' k j
  · obtain ⟨rfl, rfl⟩ := hS
    obtain ⟨g, hg, hge⟩ := hf.mapped
    intro f hf'
    obtain rfl := Option.some.inj (hg.symm.trans hf')
    refine ⟨hge, fun k'' j'' hn => ?_⟩
    by_contra hne
    rw [(hf.eff.keeps k'' j'' hne).1] at hn
    exact hfresh g hg k'' j'' hn
  · refine h.of_keeps hf.eff.keeps hS ?_
    rintro k'' j'' g ⟨rfl, rfl⟩ hg
    exact hfresh g hg k j

/-- A write fault leaves its own entry alone, and every other entry that was. -/
theorem Alone.of_private (h : Alone m k j) (hp : Private A own k' j' f m m') : Alone m' k j := by
  by_cases hS : OneEntry k' j' k j
  · obtain ⟨rfl, rfl⟩ := hS
    exact Alone.of_writable hp.eff.ok hp.writable
  · refine h.of_keeps hp.eff.keeps hS ?_
    rintro k'' j'' g ⟨rfl, rfl⟩ hg hn
    rw [← (hp.eff.keeps k j hS).1] at hn
    exact hS ((hp.eff.ok.maps.rw_only hg hp.writable).2 k j hn)

/-- **A shared page**: an entry stays alone if it is neither the entry that is filled nor
the one that is shared. -/
theorem Alone.of_shared {q tmp : ℕ} (h : Alone m k j) (hf : Filled A own k' j' m m')
    (hn : named (m'.userEntry k' j') = some f) (hoff : Offers m q tmp f)
    (hne : ¬(k = k' ∧ j = j'))
    (hneq : ¬(k = dirIndex (q * 0x4000000 + tmp) ∧ j = tableIndex tmp)) : Alone m' k j := by
  refine h.of_keeps hf.eff.keeps hne ?_
  rintro k'' j'' g ⟨rfl, rfl⟩ hg hkj
  obtain rfl := Option.some.inj (hn.symm.trans hg)
  obtain ⟨hk, hj⟩ := (h f hkj).2 _ _ hoff.1
  exact hneq ⟨hk.symm, hj.symm⟩

/-! ### Every step of the machine -/

/-- A step of the machine that a task in the middle of a system call does not take
itself, or that does not make or unmake its slot. -/
def Spares (n : ℕ) : Act → Prop
  | .fork cur nr => n ≠ cur ∧ n ≠ nr
  | .exec cur _ _ _ | .exit cur => n ≠ cur
  | .release nr => n ≠ nr
  | _ => True

/-- **A fault that takes the page of an entry**: `share_page` serves it, with this page or
for this very entry. -/
def Takes (s : Sys) (k j : ℕ) : Act → Prop
  | .noPage cur address iCount =>
    pageOffset s.mem cur address < (s.mem.task cur).endData ∧
      ∃ q f, Served s.mem cur (pageOffset s.mem cur address) iCount q f ∧
        (k = dirIndex address ∧ j = tableIndex address ∨
          k = dirIndex (q * 0x4000000 + pageOffset s.mem cur address) ∧
            j = tableIndex (pageOffset s.mem cur address))
  | _ => False

/-- **Task `n` has been spared**: its structure is what it was, and so is what its pages
were alone with. -/
def Spared (n : ℕ) (s : Sys) (a : Act) (m' : Mem) : Prop :=
  m'.task n = s.mem.task n ∧
    ∀ k j, k / 16 = n → ¬Takes s k j a → Alone s.mem k j → Alone m' k j

/-- The death of a task spares the others. -/
theorem Gone.spared {a : Act} (hg : Gone A own cur s.mem m') :
    n = cur ∧ (m'.task n).zombie = true ∨ Spared n s a m' := by
  by_cases hn : n = cur
  · refine Or.inl ⟨hn, ?_⟩
    rw [hg.task, hn, Function.update_self]
  · refine Or.inr ⟨by rw [hg.task, Function.update_of_ne hn], fun k j hk _ h => ?_⟩
    exact h.of_empty hg.keeps (by omega) hg.empty

/-- A routine that changes no name spares everybody. -/
theorem Spared.of_named {a : Act} (htask : m'.task = s.mem.task)
    (hn : ∀ k j, named (m'.userEntry k j) = named (s.mem.userEntry k j)) : Spared n s a m' :=
  ⟨by rw [htask], fun _ _ _ _ h => h.of_named hn⟩

theorem Eff.named_eq (h : Eff A own NoEntry m m') (k j : ℕ) :
    named (m'.userEntry k j) = named (m.userEntry k j) :=
  (h.keeps k j fun hS => hS.elim).1

/-- **A fork spares the tasks it does not involve**: the child's entry names what the parent's
names, or a page below `LOW_MEM`. -/
theorem Inv.forked_spares {p : ℕ} (hi : Inv A s) (hne : n ≠ k)
    (hf : Forked A own cur k p s.mem m') (hcur : n ≠ cur) : Spared n s (.fork cur k) m' := by
  refine ⟨by rw [hf.task, Function.update_of_ne hne], fun k' j' hk _ h => ?_⟩
  refine h.of_keeps hf.keeps (fun hS => hne (by rw [← hk]; exact hS)) ?_
  intro k₂ j₂ g hS hg hn
  obtain ⟨d, hd, rfl⟩ : ∃ d, d < 16 ∧ 16 * k + d = k₂ :=
    ⟨k₂ % 16, Nat.mod_lt _ (by omega), by
      rw [← (show k₂ / 16 = k from hS)]
      exact Nat.div_add_mod _ _⟩
  by_cases hlim : d < dirCount (s.mem.task cur).dataLimit
  · by_cases hz : cur = 0
    · have hcount : dirCount (s.mem.task cur).dataLimit = 1 := by
        rw [hz, hi.first]
        decide
      obtain rfl : d = 0 := by omega
      have hfirst := hf.first hz hcount j₂
      rw [Nat.add_zero, hfirst] at hg
      have hge := (h g hn).1
      by_cases hj : j₂ < 160
      · rw [if_pos hj] at hg
        have := Option.some.inj hg
        omega
      · simp [hj] at hg
    · rw [hf.copied (by omega) d j₂ hlim] at hg
      have := ((h g hn).2 _ _ hg).1
      omega
  · rw [Mem.userEntry_of_none (hf.beyond d (by omega) hd), named_zero] at hg
    simp at hg

/-- **Every step spares a task** that does not take it, but for the pages the step
takes. -/
theorem Inv.spares (hi : Inv A s) : ∀ a, Enabled s a → Spares n a →
    wp (perform a) (fun _ s' => Spared n s a s'.mem)
      (fun _ s' => n = a.cur ∧ (s'.mem.task n).zombie = true ∨ Spared n s a s'.mem) s := by
  intro a he hs
  refine wp_mono (hi.done a he) (fun _ s' hd => ?_) fun _ s' ⟨_, hg⟩ => hg.spared
  cases hd with
  | idle _ heff => exact Spared.of_named heff.task heff.named_eq
  | forked hf => exact hi.forked_spares hs.2 hf hs.1
  | notForked hf =>
    exact ⟨hf.task n hs.2, fun k j hk _ h => h.of_empty hf.keeps (by rw [hk]; exact hs.2) hf.empty⟩
  | exec hk hf ht hempty =>
    refine ⟨by rw [ht, Function.update_of_ne hs], fun k j hkn _ h => ?_⟩
    exact h.of_empty hk (by rw [hkn]; exact hs) hempty
  | exit hg => exact hg.spared.resolve_left fun h => hs h.1
  | release hk hf ht =>
    refine ⟨by rw [ht, Function.update_of_ne hs], fun k j _ _ h => ?_⟩
    exact h.of_named fun k j => (hk k j fun hS => hS.elim).1
  | empty hf hfresh => exact ⟨congrFun hf.eff.task n, fun k j _ _ h => h.of_fresh hf hfresh⟩
  | shared hf hoff hserved hn =>
    refine ⟨congrFun hf.eff.task n, fun k j _ htakes h => ?_⟩
    refine h.of_shared hf hn hserved.2.2.2.2.2.1 (fun hkj => htakes ?_) fun hkj => htakes ?_
    · exact ⟨hoff, _, _, hserved, Or.inl hkj⟩
    · exact ⟨hoff, _, _, hserved, Or.inr hkj⟩
  | loaded _ hf hfresh => exact ⟨congrFun hf.eff.task n, fun k j _ _ h => h.of_fresh hf hfresh⟩
  | wpFault hn hp => exact ⟨congrFun hp.eff.task n, fun k j _ _ h => h.of_private hp⟩
  | writeVerify hn hp => exact ⟨congrFun hp.eff.task n, fun k j _ _ h => h.of_private hp⟩
  | store hn hge honly hst => exact Spared.of_named hst.task hst.named_eq
  | putPage hf hfresh => exact ⟨congrFun hf.eff.task n, fun k j _ _ h => h.of_fresh hf hfresh⟩

/-! ### Verifying a buffer -/

/-- **`write_verify`** leaves its page alone. -/
theorem wp_writeVerify_alone (h : MemOk A own m) (hr : Resides cur m)
    (ha : dirIndex address ∈ userDirs) : wp (writeVerify cur address) (fun _ m' =>
      m'.task = m.task ∧ Alone m' (dirIndex address) (tableIndex address) ∧
        ∀ k j, Alone m k j → Alone m' k j)
      (Leaves A own cur m) m := by
  have hj := tableIndex_lt address
  unfold writeVerify
  rw [wp_bind, wp_get, wp_ite]
  refine ⟨fun hp => ?_, fun hp => ⟨rfl, Alone.of_absent ?_, fun _ _ h => h⟩⟩
  swap
  · rw [Mem.userEntry_of_none ((Mem.userDir_eq_none ha).mpr (by simpa using hp)), named_zero]
  have hd : m.userDir (dirIndex address) = some (frameOf (m.word 0 (dirIndex address))) :=
    Mem.userDir_eq_some.mpr ⟨ha, hp, rfl⟩
  have hent : m.userEntry (dirIndex address) (tableIndex address) =
      m.word (frameOf (m.word 0 (dirIndex address))) (tableIndex address) :=
    Mem.userEntry_of_dir hd hj
  rw [← hent, wp_ite]
  refine ⟨fun hw => ?_, fun hw => ⟨rfl, ?_, fun _ _ h => h⟩⟩
  · exact wp_post (wp_unWpPage h hr hd hj (named_of_present hw.1)) fun _ m' hp =>
      ⟨hp.eff.task, Alone.of_writable hp.eff.ok hp.writable, fun k j h => h.of_private hp⟩
  · by_cases hwr : writable (m.userEntry (dirIndex address) (tableIndex address)) = true
    · exact Alone.of_writable h hwr
    · refine Alone.of_absent (named_eq_none.mpr ?_)
      rw [← Bool.not_eq_true]
      exact fun hp => hw ⟨hp, hwr⟩

/-- The pages `verify_area` goes through. -/
def areaPage (base addr i : ℕ) : ℕ := addr / 4096 * 4096 + base + 4096 * i

/-- The number of them. -/
def areaPages (addr size : ℕ) : ℕ := (size + addr % 4096 + 4095) / 4096

/-- **`verify_area`** leaves every page of the area alone. -/
theorem Inv.verifyArea {addr size : ℕ} (hi : Inv A s) (hone : 1 ≤ cur) (hr : Running cur s)
    (ha : ∀ i, i < areaPages addr size →
      dirIndex (areaPage (s.mem.task cur).dataBase addr i) ∈ userDirs) :
    wp (verifyArea cur addr size) (fun _ m' => Inv A { s with mem := m' } ∧
        m'.task = s.mem.task ∧ (∀ k j, Alone s.mem k j → Alone m' k j) ∧
        ∀ i, i < areaPages addr size →
          Alone m' (dirIndex (areaPage (s.mem.task cur).dataBase addr i))
            (tableIndex (areaPage (s.mem.task cur).dataBase addr i)))
      (fun _ m' => Inv A { s with mem := m' } ∧ (m'.task cur).zombie = true ∧
        ∀ n, n ≠ cur → m'.task n = s.mem.task n ∧
          ∀ k j, k / 16 = n → Alone s.mem k j → Alone m' k j) s.mem := by
  unfold Mm.verifyArea
  rw [wp_bind, wp_get]
  refine wp_post (wp_forFrom (fun i m' => Inv A { s with mem := m' } ∧ m'.task = s.mem.task ∧
    (∀ k j, Alone s.mem k j → Alone m' k j) ∧ ∀ i', i' < i →
      Alone m' (dirIndex (areaPage (s.mem.task cur).dataBase addr i'))
        (tableIndex (areaPage (s.mem.task cur).dataBase addr i')))
    ⟨hi, rfl, fun _ _ h => h, fun i' hi' => by omega⟩ ?_) ?_
  · rintro i m₁ - hlt ⟨hi₁, htask, hkept, hdone⟩
    have hr₁ : Running cur { s with mem := m₁ } :=
      ⟨hr.1, by rw [← hr.2.1, ← htask], by rw [← hr.2.2.1, ← htask], hr.2.2.2⟩
    have hdir : dirIndex (areaPage (s.mem.task cur).dataBase addr i) ∈ userDirs :=
      ha i (by rw [areaPages]; omega)
    have hsafe := hi₁.writeVerify ⟨hone, hr₁, hdir⟩
    unfold Safe perform at hsafe
    rw [wp_inMem] at hsafe
    refine wp_mono (wp_and hsafe (wp_writeVerify_alone hi₁.ok (hi₁.resides hone hr₁)
      (ha i (by rw [areaPages]; omega)))) ?_ ?_
    · rintro - m₂ ⟨hi₂, htask₂, hnew, hkept₂⟩
      refine ⟨hi₂, htask₂.trans htask, fun k j h => hkept₂ k j (hkept k j h), fun i' hi' => ?_⟩
      by_cases hii : i' = i
      · exact hii ▸ hnew
      · exact hkept₂ _ _ (hdone i' (by omega))
    · rintro e m₂ ⟨⟨-, hi₂⟩, -, hg, -⟩
      refine ⟨hi₂, by rw [hg.task, Function.update_self], fun n hn => ⟨?_, fun k j hk h => ?_⟩⟩
      · rw [hg.task, Function.update_of_ne hn]
        exact congrFun htask n
      · exact (hkept k j h).of_empty hg.keeps (by omega) hg.empty
  · rintro - m₁ ⟨hi₁, htask, hkept, hdone⟩
    exact ⟨hi₁, htask, hkept, fun i hi => hdone i (by rw [areaPages] at hi; omega)⟩

/-! ### System calls that sleep between the check and the store -/

/-- **The machine, and the buffers that have been verified**: for each task in the middle
of a system call, where its buffer begins and how long it is. -/
structure Calls where
  sys : Sys
  buffer : ℕ → Option (ℕ × ℕ)

namespace Calls

variable (c : Calls)

/-- The address lies in the buffer of task `n`. -/
def InBuffer (n a : ℕ) : Prop :=
  ∃ start size, c.buffer n = some (start, size) ∧ start ≤ a ∧ a < start + size

/-- **The page of an entry awaits a store**: some byte of the buffer of task `n` is in
it. -/
def Awaits (n k j : ℕ) : Prop :=
  ∃ a, c.InBuffer n a ∧ Mine n a c.sys.mem ∧ dirIndex a = k ∧ tableIndex a = j

/-- The buffers there are after a step: a task that is gone has none. -/
def surviving (s' : Sys) (n : ℕ) : Option (ℕ × ℕ) :=
  if (s'.mem.task n).zombie then none else c.buffer n

/-- What a task does in the middle of a system call: its own stores to the buffer may
fault, and it takes and gives back pages. Every other step belongs to a task outside. -/
def Outside : Act → Prop
  | .noPage cur address _ => c.buffer cur = none ∨ c.InBuffer cur address
  | .loaded _ _ | .getPage | .freePage _ => True
  | a => c.buffer a.cur = none

/-- **No page that awaits a store is taken.** -/
def Unshared (a : Act) : Prop := ∀ n k j, c.Awaits n k j → ¬Takes c.sys k j a

end Calls

/-- **The steps**: those of the machine, as far as `ok` lets them happen, and those of the
system calls. The buffer of a call is `size` bytes at the offset `addr`. -/
inductive CallStep (ok : Calls → Act → Prop) : Calls → Calls → Prop
  | act {c : Calls} {a : Act} {s' : Sys} (he : Enabled c.sys a) (hout : c.Outside a)
      (hok : ok c a) (hp : perform a c.sys = .ok () s' ∨ perform a c.sys = .error .exited s') :
      CallStep ok c ⟨s', c.surviving s'⟩
  | verify {c : Calls} {n addr size : ℕ} {m' : Mem} (hone : 1 ≤ n) (hr : Running n c.sys)
      (hout : c.buffer n = none)
      (ha : ∀ i, i < areaPages addr size →
        dirIndex (areaPage (c.sys.mem.task n).dataBase addr i) ∈ userDirs)
      (hp : verifyArea n addr size c.sys.mem = .ok () m') :
      CallStep ok c ⟨{ c.sys with mem := m' }, Function.update c.buffer n
        (some (addr + (c.sys.mem.task n).dataBase, size))⟩
  /-- Memory runs out while a page is made private. -/
  | verifyOom {c : Calls} {n addr size : ℕ} {m' : Mem} (hone : 1 ≤ n) (hr : Running n c.sys)
      (hout : c.buffer n = none)
      (ha : ∀ i, i < areaPages addr size →
        dirIndex (areaPage (c.sys.mem.task n).dataBase addr i) ∈ userDirs)
      (hp : verifyArea n addr size c.sys.mem = .error .exited m') :
      CallStep ok c ⟨{ c.sys with mem := m' }, c.surviving { c.sys with mem := m' }⟩
  | store {c : Calls} {n a : ℕ} {v : Word} {m' : Mem} (hr : Running n c.sys)
      (hin : c.InBuffer n a) (hm : Mine n a c.sys.mem) (hn : named (entryAt c.sys.mem a) ≠ none)
      (hp : kernelStore a v c.sys.mem = .ok () m') :
      CallStep ok c ⟨{ c.sys with mem := m' }, c.buffer⟩
  /-- The system call returns. -/
  | done {c : Calls} (n : ℕ) : CallStep ok c ⟨c.sys, Function.update c.buffer n none⟩

/-- The machine at boot; no system call is under way. -/
def CallBoot (A : Arena) (c : Calls) : Prop := Boot A c.sys ∧ ∀ n, c.buffer n = none

/-- **What holds while calls sleep**: every page that awaits a store is alone. -/
structure CallInv (A : Arena) (c : Calls) : Prop where
  inv : Inv A c.sys
  live : ∀ n, c.buffer n ≠ none → 1 ≤ n ∧ n < 64 ∧ (c.sys.mem.task n).inUse = true ∧
    (c.sys.mem.task n).zombie = false
  alone : ∀ n k j, c.Awaits n k j → Alone c.sys.mem k j

namespace CallInv

variable {c c' : Calls} {a : Act}

theorem resides (h : CallInv A c) (hb : c.buffer n ≠ none) : Resides n c.sys.mem := by
  obtain ⟨hone, hlt, huse, hz⟩ := h.live n hb
  exact ⟨hone, hlt, (h.inv.slot n hone hlt).inSlot huse, (h.inv.slot n hone hlt).beyond huse hz⟩

/-- The pages a task awaits lie in its own slot. -/
theorem slot (h : CallInv A c) (hw : c.Awaits n k j) : k / 16 = n := by
  obtain ⟨a, ⟨start, size, hb, -⟩, hm, rfl, -⟩ := hw
  have hres := h.resides (by rw [hb]; simp)
  have := (hres.dirIndex hm).1
  have := hres.dir_lt hm
  omega

/-- A step of a task outside spares the tasks inside. -/
theorem spares (h : CallInv A c) (he : Enabled c.sys a) (hout : c.Outside a)
    (hb : c.buffer n ≠ none) : Spares n a := by
  obtain ⟨-, -, huse, hz⟩ := h.live n hb
  have hcur : ∀ cur, c.buffer cur = none → n ≠ cur := by
    rintro cur hcur rfl
    exact hb hcur
  cases a with
  | fork cur nr =>
    refine ⟨hcur cur hout, ?_⟩
    rintro rfl
    rw [he.2.2.2] at huse
    simp at huse
  | exec cur => exact hcur cur hout
  | exit cur => exact hcur cur hout
  | release nr => exact hcur nr hout
  | _ => trivial

/-- What is left of the buffers after a step in which the tasks inside were spared. -/
theorem of_spared {s' : Sys} {a : Act} (h : CallInv A c) (hi : Inv A s') (hok : c.Unshared a)
    (hb : ∀ n, c'.buffer n ≠ none → c'.buffer n = c.buffer n ∧ Spared n c.sys a s'.mem)
    (hs : c'.sys = s') : CallInv A c' where
  inv := hs ▸ hi
  live n hn := by
    obtain ⟨hsame, htask, -⟩ := hb n hn
    rw [hs, htask]
    exact h.live n (hsame ▸ hn)
  alone n k j hw := by
    obtain ⟨x, ⟨start, size, hbuf, hx⟩, hm, hk, hj⟩ := hw
    obtain ⟨hsame, htask, hkept⟩ := hb n (by rw [hbuf]; simp)
    have hw : c.Awaits n k j := by
      refine ⟨x, ⟨start, size, hsame ▸ hbuf, hx⟩, ?_, hk, hj⟩
      rw [hs, Mine, htask] at hm
      exact hm
    rw [hs]
    exact hkept k j (h.slot hw) (hok n k j hw) (h.alone n k j hw)

theorem act {s' : Sys} (h : CallInv A c) (he : Enabled c.sys a) (hout : c.Outside a)
    (hok : c.Unshared a)
    (hp : perform a c.sys = .ok () s' ∨ perform a c.sys = .error .exited s') :
    CallInv A ⟨s', c.surviving s'⟩ := by
  refine h.of_spared (h.inv.step ⟨a, he, hp⟩) hok (fun n hn => ?_) rfl
  change c.surviving s' n ≠ none at hn
  change c.surviving s' n = _ ∧ _
  unfold Calls.surviving at hn ⊢
  by_cases hz : (s'.mem.task n).zombie = true
  · simp [hz] at hn
  rw [if_neg hz] at hn ⊢
  refine ⟨rfl, ?_⟩
  have hsp := h.inv.spares a he (h.spares he hout hn)
  rcases hp with hp | hp
  · exact wp_ok (Q := fun _ s' => Spared n c.sys a s'.mem) hsp hp
  · exact (wp_error hsp hp).resolve_left fun hd => hz hd.2

/-- The pages of the area are those of its addresses. -/
theorem areaPage_eq {base addr size x : ℕ} (hbase : base % 4096 = 0)
    (hx : addr + base ≤ x ∧ x < addr + base + size) : ∃ i, i < areaPages addr size ∧
      areaPage base addr i = x / 4096 * 4096 := by
  refine ⟨(addr % 4096 + (x - (addr + base))) / 4096, ?_, ?_⟩
  · rw [areaPages]
    omega
  · rw [areaPage]
    omega

theorem verify {addr size : ℕ} {m' : Mem} (h : CallInv A c) (hone : 1 ≤ n)
    (hr : Running n c.sys) (hout : c.buffer n = none)
    (ha : ∀ i, i < areaPages addr size →
      dirIndex (areaPage (c.sys.mem.task n).dataBase addr i) ∈ userDirs)
    (hp : verifyArea n addr size c.sys.mem = .ok () m') :
    CallInv A ⟨{ c.sys with mem := m' }, Function.update c.buffer n
      (some (addr + (c.sys.mem.task n).dataBase, size))⟩ := by
  obtain ⟨hi, htask, hkept, hnew⟩ := wp_ok (h.inv.verifyArea hone hr ha) hp
  have hbase : (c.sys.mem.task n).dataBase % 4096 = 0 := by
    rw [(h.inv.resides hone hr).slot.data]
    omega
  refine ⟨hi, fun n' hn' => ?_, ?_⟩
  · change (1 ≤ n' ∧ n' < 64 ∧ (m'.task n').inUse = true ∧ (m'.task n').zombie = false)
    rw [htask]
    by_cases hnn : n' = n
    · subst hnn
      exact ⟨hone, hr.1, hr.2.1, hr.2.2.1⟩
    · exact h.live n' (by rwa [← Function.update_of_ne hnn (some _) c.buffer])
  · rintro n' k j ⟨x, ⟨start, sz, hbuf, hx⟩, hm, hk, hj⟩
    change Mine n' x m' at hm
    change Function.update c.buffer n _ n' = _ at hbuf
    rw [Mine, htask] at hm
    by_cases hnn : n' = n
    · subst hnn
      rw [Function.update_self] at hbuf
      obtain ⟨rfl, rfl⟩ := Prod.mk.inj (Option.some.inj hbuf)
      obtain ⟨i, hlt, hpage⟩ := areaPage_eq hbase hx
      have hal := hnew i hlt
      rw [hpage, dirIndex_page, tableIndex_page, hk, hj] at hal
      exact hal
    · rw [Function.update_of_ne hnn] at hbuf
      exact hkept k j (h.alone n' k j ⟨x, ⟨start, sz, hbuf, hx⟩, hm, hk, hj⟩)

theorem verifyOom {addr size : ℕ} {m' : Mem} (h : CallInv A c) (hone : 1 ≤ n)
    (hr : Running n c.sys)
    (ha : ∀ i, i < areaPages addr size →
      dirIndex (areaPage (c.sys.mem.task n).dataBase addr i) ∈ userDirs)
    (hp : verifyArea n addr size c.sys.mem = .error .exited m') :
    CallInv A ⟨{ c.sys with mem := m' }, c.surviving { c.sys with mem := m' }⟩ := by
  obtain ⟨hi, hz, hkept⟩ := wp_error (h.inv.verifyArea hone hr ha) hp
  refine h.of_spared (a := .getPage) hi (fun _ _ _ _ => id) (fun n' hn' => ?_) rfl
  change c.surviving _ n' ≠ none at hn'
  change c.surviving _ n' = _ ∧ _
  unfold Calls.surviving at hn' ⊢
  dsimp only at hn' ⊢
  by_cases hz' : (m'.task n').zombie = true
  · simp [hz'] at hn'
  rw [if_neg hz']
  obtain ⟨htask, hal⟩ := hkept n' fun hnn => hz' (hnn ▸ hz)
  exact ⟨rfl, htask, fun k j hk _ h => hal k j hk h⟩

theorem store {x : ℕ} {v : Word} {m' : Mem} (h : CallInv A c) (hin : c.InBuffer n x)
    (hm : Mine n x c.sys.mem) (hn : named (entryAt c.sys.mem x) ≠ none)
    (hp : kernelStore x v c.sys.mem = .ok () m') :
    CallInv A ⟨{ c.sys with mem := m' }, c.buffer⟩ := by
  obtain ⟨f, hf⟩ := Option.ne_none_iff_exists'.mp hn
  obtain ⟨hge, -⟩ := h.alone n _ _ ⟨x, hin, hm, rfl, rfl⟩ f hf
  have hs := wp_ok (wp_store h.inv.ok hf hge) hp
  exact h.of_spared (a := .getPage) (h.inv.stored hs) (fun _ _ _ _ => id)
    (fun n' _ => ⟨rfl, Spared.of_named hs.task hs.named_eq⟩) rfl

theorem done (h : CallInv A c) (n : ℕ) :
    CallInv A ⟨c.sys, Function.update c.buffer n none⟩ := by
  refine h.of_spared (a := .getPage) h.inv (fun _ _ _ _ => id) (fun n' hn' => ?_) rfl
  change Function.update c.buffer n none n' ≠ none at hn'
  have hnn : n' ≠ n := fun hnn => hn' (by rw [hnn, Function.update_self])
  exact ⟨Function.update_of_ne hnn _ _, Spared.of_named rfl fun _ _ => rfl⟩

theorem step (h : CallInv A c) (hs : CallStep Calls.Unshared c c') : CallInv A c' := by
  cases hs with
  | act he hout hok hp => exact h.act he hout hok hp
  | verify hone hr hout ha hp => exact h.verify hone hr hout ha hp
  | verifyOom hone hr hout ha hp => exact h.verifyOom hone hr ha hp
  | store hr hin hm hn hp => exact h.store hin hm hn hp
  | done n => exact h.done n

theorem boot (h : CallBoot A c) : CallInv A c where
  inv := Inv.boot h.1
  live n hn := absurd (h.2 n) hn
  alone n k j hw := by
    obtain ⟨x, ⟨start, size, hb, -⟩, -⟩ := hw
    rw [h.2] at hb
    simp at hb

end CallInv

/-- **Two tasks that have executed the same program**, whose structures are in pages `p`
and `p'`. -/
structure TwoTasks (s : Sys) (p p' : ℕ) : Prop where
  setup : Reachable (Boot arena16) SetupStep s
  one : s.mem.task 1 = execTask (childTask initTask 1 p) 4096 4096 7
  two : s.mem.task 2 = execTask (childTask (childTask initTask 1 p) 2 p') 4096 4096 7
  others : ∀ n, 3 ≤ n → s.mem.task n = noTask

theorem TwoTasks.reach {p p' : ℕ} (h : TwoTasks s p p') : Reachable (Boot arena16) Step s :=
  h.setup.mono fun _ _ => SetupStep.step

theorem TwoTasks.running {p p' : ℕ} (h : TwoTasks s p p') (hn : n = 1 ∨ n = 2)
    (hl : s.loading n = none) : Running n s := by
  rcases hn with rfl | rfl
  · refine ⟨by omega, ?_, ?_, hl⟩ <;> rw [h.one] <;> rfl
  · refine ⟨by omega, ?_, ?_, hl⟩ <;> rw [h.two] <;> rfl

theorem TwoTasks.mine {p p' : ℕ} (h : TwoTasks s p p') :
    Mine 1 0x4000000 s.mem ∧ Mine 2 0x8000000 s.mem := by
  rw [Mine, Mine, h.one, h.two]
  change (_ ∧ 0x4000000 < 1 * 0x4000000 + 0x4000000) ∧ _ ∧ 0x8000000 < 2 * 0x4000000 + 0x4000000
  omega

/-- The first page of both is at offset 0. -/
theorem TwoTasks.offset {p p' : ℕ} (h : TwoTasks s p p') :
    pageOffset s.mem 1 0x4000000 = 0 ∧ pageOffset s.mem 2 0x8000000 = 0 := by
  rw [pageOffset, pageOffset, h.one, h.two]
  change (0x4000000 / 4096 * 4096 + 2 ^ 32 - 1 * 0x4000000) % 2 ^ 32 = 0 ∧
    (0x8000000 / 4096 * 4096 + 2 ^ 32 - 2 * 0x4000000) % 2 ^ 32 = 0
  omega

theorem TwoTasks.of_task {p p' : ℕ} (h : TwoTasks s p p')
    (hr : Reachable (Boot arena16) SetupStep s')
    (ht : s'.mem.task = s.mem.task) : TwoTasks s' p p' :=
  ⟨hr, by rw [ht, h.one], by rw [ht, h.two], fun n hn => by rw [ht, h.others n hn]⟩

/-- They start with empty slots. -/
theorem two_tasks : ∃ s p p', TwoTasks s p p' ∧ (∀ k, s.mem.userDir k = none) ∧
    s.owner = Function.update (Function.update (fun _ => none) p (some (.struct 1))) p'
      (some (.struct 2)) ∧ s.loading = fun _ => none := by
  obtain ⟨s, p, h⟩ := first_fork
  have hi := Inv.reachable h.reach
  have hone : dirCount (s.mem.task 1).dataLimit = 1 := by rw [h.limit]; decide
  have he : Enabled s (.fork 1 2) := ⟨h.running, by omega, by omega, h.unused⟩
  obtain ⟨s₂, p', own, hp, -, hf, howner₂, hload₂⟩ :=
    hi.fork_ok (hi.parent h.running) he (fun d hd hd' => by omega) h.free
  have hreach₂ := h.setup.next ⟨.fork 1 2, trivial, he, hp⟩
  have hi₂ := Inv.setup hreach₂
  have htask₂ : ∀ n, s₂.mem.task n = if n = 2 then childTask (childTask initTask 1 p) 2 p' else
      if n = 1 then childTask initTask 1 p else boot16.mem.task n := fun n => by
    rw [hf.task, h.task, Function.update_apply, Function.update_self, Function.update_apply]
  -- both execute the same program
  have hexec : ∀ (s : Sys) (n : ℕ), Inv arena16 s → 1 ≤ n → Running n s →
      ∃ s', perform (.exec n 4096 4096 7) s = .ok () s' ∧
        s'.mem.task = Function.update s.mem.task n (execTask (s.mem.task n) 4096 4096 7) ∧
        (∀ k, k / 16 = n → s'.mem.userDir k = none) ∧
        (∀ k, k / 16 ≠ n → s'.mem.userDir k = s.mem.userDir k) ∧
        s'.owner = s.owner ∧ s'.loading = s.loading := by
    intro s n hi hone hr
    have hwp : wp (perform (.exec n 4096 4096 7)) (fun _ s' =>
        s'.mem.task = Function.update s.mem.task n (execTask (s.mem.task n) 4096 4096 7) ∧
        (∀ k, k / 16 = n → s'.mem.userDir k = none) ∧
        (∀ k, k / 16 ≠ n → s'.mem.userDir k = s.mem.userDir k) ∧
        s'.owner = s.owner ∧ s'.loading = s.loading) (fun _ _ => False) s := by
      rw [perform, wp_inMem]
      refine wp_mono (wp_execMem hi.ok (hi.resides hone hr)) ?_ fun _ _ he => he
      rintro - m' ⟨-, -, -, htask, hempty, hdirs⟩
      refine ⟨htask, fun k hk => ?_, hdirs, rfl, rfl⟩
      have hd := hempty (k % 16) (Nat.mod_lt _ (by omega))
      rw [← hk, Nat.div_add_mod] at hd
      exact hd
    obtain ⟨⟨⟩, s', h⟩ := wp_returns hwp
    exact ⟨s', h⟩
  have hr₁ : Running 1 s₂ := by
    refine ⟨by omega, ?_, ?_, by rw [hload₂, h.loading]⟩ <;> rw [htask₂, if_neg (by omega)] <;> rfl
  obtain ⟨s₃, hp₃, htask₃, hempty₃, hdirs₃, howner₃, hload₃⟩ := hexec s₂ 1 hi₂ le_rfl hr₁
  have hreach₃ := hreach₂.next
    ⟨.exec 1 4096 4096 7, ⟨rfl, rfl, rfl⟩, ⟨le_rfl, hr₁, by omega⟩, hp₃⟩
  have hr₂ : Running 2 s₃ := by
    refine ⟨by omega, ?_, ?_, by rw [hload₃, hload₂, h.loading]⟩ <;>
      rw [htask₃, Function.update_of_ne (by omega), htask₂, if_pos rfl] <;> rfl
  obtain ⟨s₄, hp₄, htask₄, hempty₄, hdirs₄, howner₄, hload₄⟩ :=
    hexec s₃ 2 (Inv.setup hreach₃) (by omega) hr₂
  have hreach₄ := hreach₃.next
    ⟨.exec 2 4096 4096 7, ⟨rfl, rfl, rfl⟩, ⟨by omega, hr₂, by omega⟩, hp₄⟩
  refine ⟨s₄, p, p', ⟨hreach₄, ?_, ?_, fun n hn => ?_⟩, fun k => ?_, ?_, ?_⟩
  · rw [htask₄, Function.update_of_ne (by omega), htask₃, Function.update_self, htask₂,
      if_neg (by omega), if_pos rfl]
  · rw [htask₄, Function.update_self, htask₃, Function.update_of_ne (by omega), htask₂, if_pos rfl]
  · rw [htask₄, Function.update_of_ne (by omega), htask₃, Function.update_of_ne (by omega), htask₂,
      if_neg (by omega), if_neg (by omega)]
    exact if_neg (by omega)
  · by_cases h2 : k / 16 = 2
    · exact hempty₄ k h2
    rw [hdirs₄ k h2]
    by_cases h1 : k / 16 = 1
    · exact hempty₃ k h1
    rw [hdirs₃ k h1, hf.dirs k h2]
    exact h.dirs k (by omega)
  · rw [howner₄, howner₃, howner₂, h.owner]
  · rw [hload₄, hload₃, hload₂, h.loading]

/-- **Task 1 has its first page**, the page `g`, and task 2 has none. -/
structure FirstPage (s : Sys) (p p' g : ℕ) : Prop where
  tasks : TwoTasks s p p'
  entry : s.mem.userEntry 16 0 = pageEntry g
  main : arena16.Main g
  absent : ∀ k j, ¬OneEntry 16 0 k j → named (s.mem.userEntry k j) = none
  loading : s.loading = fun _ => none
  dirs : ∀ k, k ≠ 16 → s.mem.userDir k = none
  owner : ∀ f, s.owner f ≠ none → f = p ∨ f = p'

theorem FirstPage.named {p p' g : ℕ} (h : FirstPage s p p' g) :
    named (s.mem.userEntry 16 0) = some g := by
  rw [h.entry, named_pageEntry h.main.lt_pow]

/-- There is memory left. -/
theorem FirstPage.not_short {p p' g : ℕ} (h : FirstPage s p p' g) : ¬Short arena16 s.mem := by
  rintro ⟨q, hq⟩
  have hi := Inv.reachable h.tasks.reach
  obtain ⟨⟨T, hT⟩, -⟩ := hi.ok.maps.entry_user h.named
  obtain ⟨f, hf, hfq, h0⟩ := hi.roomy {p, p', g, T} (Finset.card_le_four.trans (by omega))
    (fun k j f hn _ => by
      by_cases hS : OneEntry 16 0 k j
      · rw [hS.1, hS.2, h.named] at hn
        simp [Option.some.inj hn]
      · rw [h.absent k j hS] at hn
        simp at hn) (fun k f hd => by
      by_cases hk16 : k = 16
      · rw [hk16, ← Mem.maps_dir, hT] at hd
        simp [Option.some.inj hd]
      · rw [h.dirs k hk16] at hd
        simp at hd) (fun f hf => by
      rcases h.owner f hf with rfl | rfl <;> simp) q
  exact hq f hf hfq h0

theorem first_page : ∃ s p p' g, FirstPage s p p' g := by
  obtain ⟨s, p, p', h, hdirs, howner, hload⟩ := two_tasks
  have hi := Inv.reachable h.reach
  have hent : ∀ k j, s.mem.userEntry k j = 0#32 := fun k j => Mem.userEntry_of_none (hdirs k)
  have hk : dirIndex 0x4000000 = 16 := by decide
  have hj : tableIndex 0x4000000 = 0 := by decide
  have hrun : Running 1 s := h.running (Or.inl rfl) (by rw [hload])
  have habs : named (s.mem.userEntry (dirIndex 0x4000000) (tableIndex 0x4000000)) = none := by
    rw [hent, named_zero]
  have hroom : ∀ q, ∃ f, arena16.Main f ∧ f ≠ q ∧ s.mem.maps.count f = 0 := by
    refine hi.roomy {p, p'} (Finset.card_le_two.trans (by omega)) (fun k j f hn _ => ?_)
      (fun k f hd => ?_) fun f hf => ?_
    · simp [hent] at hn
    · simp [hdirs] at hd
    · rw [howner, Function.update_apply, Function.update_apply] at hf
      split at hf
      · next hfp => simp [hfp]
      · split at hf
        · next hfp => simp [hfp]
        · exact absurd rfl hf
  -- the fault: nobody has the page, so it is read from the executable
  have he₅ : Enabled s (.noPage 1 0x4000000 2) := ⟨le_rfl, hrun, h.mine.1, habs⟩
  have hwp₅ : wp (perform (.noPage 1 0x4000000 2)) (fun _ s' => ∃ g, arena16.Main g ∧
      s'.mem = s.mem.takePage g ∧ s'.owner = Function.update s.owner g (some (.load 1)) ∧
      s'.loading = Function.update s.loading 1 (some (0x4000000, g)) ∧
      s.mem.maps.count g = 0) (fun _ _ => False) s := by
    rw [perform, wp_bind, wp_inMem]
    refine wp_mono (wp_doNoPage hi.ok (hi.resides le_rfl hrun) h.mine.1 hi.inSlots habs)
      (fun r m' hm => ?_) fun e m' hl => ?_
    · cases r with
      | none =>
        exfalso
        rcases hm.2 with ⟨-, -, hanon⟩ | ⟨-, q, f, hs, -⟩
        · rw [h.offset.1, h.one] at hanon
          rcases hanon with hexe | hend
          · cases hexe
          · have : 4096 ≤ 0 := hend
            omega
        · have := hs.2.2.2.2.2.1.1
          rw [hent, named_zero] at this
          simp at this
      | some g =>
        obtain ⟨hmain, h0, rfl, -⟩ := hm
        exact ⟨g, hmain, rfl, rfl, rfl, h0⟩
    · obtain ⟨q, hq⟩ := hl.2.2
      obtain ⟨f, hf, hfq, h0⟩ := hroom q
      exact hq f hf hfq h0
  obtain ⟨⟨⟩, s₅, hp₅, g, hg, hmem₅, howner₅, hload₅, h0⟩ := wp_returns hwp₅
  have hreach₅ := h.setup.next ⟨.noPage 1 0x4000000 2, trivial, he₅, hp₅⟩
  have hi₅ := Inv.setup hreach₅
  have htask₅ : s₅.mem.task = s.mem.task := by rw [hmem₅]; rfl
  have hmaps₅ : s₅.mem.maps = s.mem.maps.setCount g 1 := by
    rw [hmem₅]
    exact (hi.ok.takePage (S := NoEntry) hg h0).2
  have hdirs₅ : ∀ k, s₅.mem.userDir k = none := fun k => by
    rw [← Mem.maps_dir, hmaps₅]
    exact hdirs k
  have hent₅ : ∀ k j, s₅.mem.userEntry k j = 0#32 := fun k j => Mem.userEntry_of_none (hdirs₅ k)
  have h₅ := h.of_task hreach₅ htask₅
  have hload₅' : s₅.loading 1 = some (0x4000000, g) := by rw [hload₅, Function.update_self]
  have ho₅ : s₅.owner g = some (.load 1) := by rw [howner₅, Function.update_self]
  have hroom₅ : ∀ q, ∃ f, arena16.Main f ∧ f ≠ q ∧ s₅.mem.maps.count f = 0 := by
    refine hi₅.roomy {p, p', g} (Finset.card_le_three.trans (by omega)) (fun k j f hn _ => ?_)
      (fun k f hd => ?_) fun f hf => ?_
    · simp [hent₅] at hn
    · simp [hdirs₅] at hd
    · rw [howner₅, howner, Function.update_apply, Function.update_apply, Function.update_apply]
        at hf
      split at hf
      · next hfp => simp [hfp]
      · split at hf
        · next hfp => simp [hfp]
        · split at hf
          · next hfp => simp [hfp]
          · exact absurd rfl hf
  -- the page has been read, and is mapped
  have he₆ : Enabled s₅ (.loaded 1 fun _ => 0#32) := ⟨le_rfl, by omega, by rw [hload₅']; simp⟩
  have hwp₆ : wp (perform (.loaded 1 fun _ => 0#32)) (fun _ s' =>
      s'.mem.task = s₅.mem.task ∧ s'.mem.userEntry 16 0 = pageEntry g ∧
      (∀ k j, ¬OneEntry 16 0 k j → named (s'.mem.userEntry k j) = none) ∧
      (∀ k, k ≠ 16 → s'.mem.userDir k = none) ∧
      s'.owner = Function.update s₅.owner g none ∧
      s'.loading = Function.update s₅.loading 1 none) (fun _ _ => False) s₅ := by
    rw [perform, wp_bind, wp_get, hload₅']
    dsimp only
    rw [wp_bind, wp_modify, wp_inMem]
    have hr₅ : Resides 1 s₅.mem := by
      refine ⟨le_rfl, by omega, (hi₅.slot 1 le_rfl (by omega)).inSlot ?_, fun d _ hd => hdirs₅ _⟩
      rw [h₅.one]
      rfl
    refine wp_mono (wp_loadPage hi₅.ok hr₅ h₅.mine.1 (by
      change named (s₅.mem.userEntry _ _) = none
      rw [hent₅, named_zero]) (hi₅.mem_held ho₅)) ?_ fun e m' hl => ?_
    · rintro - m' ⟨hf, -, hpage, -⟩
      rw [hk, hj] at hf hpage
      refine ⟨hf.eff.task, hpage, fun k j hS => ?_, fun k hk' => ?_, rfl, rfl⟩
      · change named (m'.userEntry k j) = none
        rw [(hf.eff.keeps k j hS).1]
        change named (s₅.mem.userEntry k j) = none
        rw [hent₅, named_zero]
      · change m'.userDir k = none
        rw [hf.dirs k hk']
        exact hdirs₅ k
    · obtain ⟨q, hq⟩ := hl.2.2
      obtain ⟨f, hf, hfq, h0⟩ := hroom₅ q
      exact hq f hf hfq h0
  obtain ⟨⟨⟩, s₆, hp₆, htask₆, hpage₆, hent₆, hdirs₆, howner₆, hload₆⟩ := wp_returns hwp₆
  have hreach₆ := hreach₅.next ⟨.loaded 1 fun _ => 0#32, rfl, he₆, hp₆⟩
  refine ⟨s₆, p, p', g, h₅.of_task hreach₆ htask₆, hpage₆, hg, hent₆, ?_, hdirs₆, fun f hf => ?_⟩
  · rw [hload₆, hload₅, Function.update_idem, hload]
    exact Function.update_eq_self 1 _
  · rw [howner₆, howner₅, Function.update_idem, howner, Function.update_apply,
      Function.update_apply, Function.update_apply] at hf
    split at hf
    · exact absurd rfl hf
    · split at hf
      · next hfp => exact Or.inr hfp
      · split at hf
        · next hfp => exact Or.inl hfp
        · exact absurd rfl hf

/-- A run of the machine alone is a run in which no call is under way. -/
theorem Calls.reachable {ok : Calls → Act → Prop} (hok : ∀ s a, ok ⟨s, fun _ => none⟩ a)
    (h : Reachable (Boot A) Step s) :
    Reachable (CallBoot A) (CallStep ok) ⟨s, fun _ => none⟩ := by
  refine h.inv (I := fun s => Reachable (CallBoot A) (CallStep ok) ⟨s, fun _ => none⟩)
    (fun s h0 => Reachable.start ⟨h0, fun _ => rfl⟩) ?_
  rintro s s' hr ⟨a, he, hp⟩
  have hout : Calls.Outside ⟨s, fun _ => none⟩ a := by
    cases a with
    | noPage => exact Or.inl rfl
    | loaded | getPage | freePage => trivial
    | _ => rfl
  have hs := hr.next (CallStep.act he hout (hok s a) hp)
  have hsurv : Calls.surviving ⟨s, fun _ => none⟩ s' = fun _ => none :=
    funext fun n => ite_self _
  rwa [hsurv] at hs

end Linux011.Mm

import Linux011.Lib.StringOps
import Linux011.Mm.Run

/-!
# `get_free_page`

The assembler of `mm/memory.c`, instruction by instruction, on a memory of bytes: `mem_map` is
searched backwards for a byte 0, and what the search leaves in `%ecx` and `%edi` is the number of
the page and the place in front of its byte. In every state that a run of the memory manager reaches
from `mem_init`, it takes the last free page of main memory and clears it
(`Linux011.Mm.FreePage.getFreePage_spec`), as `Linux011.Mm.getFreePage` does
(`Linux011.Mm.FreePage.getFreePage_refines`).
-/

namespace Linux011.Mm.FreePage

open X86

/-! ### The source -/

/-- `LOW_MEM` -/
def lowMem : ℕ := 0x100000

/-- The search; `mem_map` is at `map`. -/
def search (map : Addr) (c : Cpu) : Cpu :=
  -- the inputs of the assembler
  let c := { c with
    eax := 0
    ecx := BitVec.ofNat 32 pagingPages
    edi := map + BitVec.ofNat 32 pagingPages - 1 }
  -- std ; repne ; scasb
  c.std.repne Cpu.scasb

/-- What is done with the page that has been found. The flags are not used any more. -/
def take (c : Cpu) : Cpu :=
  -- movb $1,1(%edi)
  let c := c.store (c.edi + 1) 1
  -- sall $12,%ecx
  let c := { c with ecx := c.ecx <<< 12 }
  -- addl %2,%ecx
  let c := { c with ecx := c.ecx + BitVec.ofNat 32 lowMem }
  -- movl %ecx,%edx
  let c := { c with edx := c.ecx }
  -- movl $1024,%ecx
  let c := { c with ecx := 1024 }
  -- leal 4092(%edx),%edi
  let c := { c with edi := c.edx + 4092 }
  -- rep ; stosl
  let c := c.rep Cpu.stosl
  -- movl %edx,%eax
  { c with eax := c.edx }

/-- **`get_free_page`** -/
def getFreePage (map : Addr) (c : Cpu) : Cpu :=
  let c := search map c
  -- jne 1f
  if c.zf = false then c else take c

/-! ### What it does -/

/-- **The bytes of `mem_map`** are at `map`. -/
def Holds (map : Addr) (mem : Addr → Byte) (m : Mem) : Prop :=
  ∀ k < pagingPages, (mem (map + BitVec.ofNat 32 k)).toNat = m.memMap k

variable {A : Arena} {s : Sys} {map : Addr} {c : Cpu} {k j : ℕ}

theorem ofNat_split {n i : ℕ} (h : i ≤ n) :
    BitVec.ofNat 32 n = BitVec.ofNat 32 (n - i) + BitVec.ofNat 32 i := by
  rw [← BitVec.ofNat_add, Nat.sub_add_cancel h]

/-- What is looked at after so many steps back. -/
theorem walk_back (hj : j < pagingPages) : map + BitVec.ofNat 32 pagingPages - 1 +
    BitVec.ofNat 32 j * -1 = map + BitVec.ofNat 32 (pagingPages - 1 - j) := by
  rw [ofNat_split (show j + 1 ≤ pagingPages from hj), ofNat_succ, Nat.sub_add_eq,
    Nat.sub_right_comm]
  ring

/-- The processor before the search. -/
def inputs (map : Addr) (c : Cpu) : Cpu :=
  { c with
    eax := 0
    ecx := BitVec.ofNat 32 pagingPages
    edi := map + BitVec.ofNat 32 pagingPages - 1
    df := true }

theorem inputs_step (map : Addr) (c : Cpu) : (inputs map c).step = -1 := rfl

theorem inputs_al (map : Addr) (c : Cpu) : (inputs map c).al = 0 := rfl

/-- The byte that is compared in a step. -/
theorem inputs_mem (hj : j < pagingPages) :
    (inputs map c).mem ((inputs map c).edi + BitVec.ofNat 32 j * (inputs map c).step) =
      c.mem (map + BitVec.ofNat 32 (pagingPages - 1 - j)) := by
  rw [inputs_step]
  exact congrArg c.mem (walk_back hj)

theorem search_eq (map : Addr) (c : Cpu) : search map c = (inputs map c).repne Cpu.scasb := rfl

/-- **No page is free.** -/
theorem getFreePage_none (h : ∀ k < pagingPages, c.mem (map + BitVec.ofNat 32 k) ≠ 0) :
    (getFreePage map c).eax = 0 ∧ (getFreePage map c).mem = c.mem := by
  obtain ⟨hzf, heax, hmem⟩ : (search map c).zf = false ∧ (search map c).eax = 0 ∧
      (search map c).mem = c.mem := by
    rw [search_eq]
    refine Cpu.repeating_scasb_miss (show 0 < pagingPages by decide) fun j hj => ?_
    have hj' : j < pagingPages := hj
    rw [inputs_mem hj', inputs_al]
    exact h _ (by omega)
  rw [getFreePage, if_pos hzf]
  exact ⟨heax, hmem⟩

/-- **The last free page is found**: its number is in `%ecx`, and the place in front of its byte in
`%edi`. -/
theorem search_last (hk : k < pagingPages) (hfree : c.mem (map + BitVec.ofNat 32 k) = 0)
    (hlast : ∀ j, k < j → j < pagingPages → c.mem (map + BitVec.ofNat 32 j) ≠ 0) :
    search map c = { inputs map c with
      ecx := BitVec.ofNat 32 k
      edi := map + BitVec.ofNat 32 k - 1
      zf := true
      sf := false
      less := false } := by
  have hhit := Cpu.repne_scasb_hit (c := inputs map c) (i := pagingPages - 1 - k)
    (show pagingPages - 1 - k < pagingPages by omega)
    (fun j hj => by
      rw [inputs_mem (by omega), inputs_al]
      exact hlast _ (by omega) (by omega))
    (by
      rw [inputs_mem (by omega), inputs_al,
        show pagingPages - 1 - (pagingPages - 1 - k) = k by omega]
      exact hfree)
  rw [search_eq, hhit]
  have hcount : pagingPages - 1 - k + 1 = pagingPages - k := by omega
  have hsplit : BitVec.ofNat 32 pagingPages =
      BitVec.ofNat 32 (pagingPages - k) + BitVec.ofNat 32 k := ofNat_split hk.le
  have hecx : (inputs map c).ecx - BitVec.ofNat 32 (pagingPages - 1 - k + 1) =
      BitVec.ofNat 32 k := by
    change BitVec.ofNat 32 pagingPages - _ = _
    rw [hcount, hsplit]
    ring
  have hedi : (inputs map c).edi + BitVec.ofNat 32 (pagingPages - 1 - k + 1) *
      (inputs map c).step = map + BitVec.ofNat 32 k - 1 := by
    change map + BitVec.ofNat 32 pagingPages - 1 + _ * -1 = _
    rw [hcount, hsplit]
    ring
  rw [hecx, hedi]

/-- **A page is taken**: its byte is 1, and the page is clear. -/
theorem take_eq (hdf : c.df = true) (heax : c.eax = 0)
    (hecx : c.ecx = BitVec.ofNat 32 k) :
    (take c).eax = BitVec.ofNat 32 (lowMem + 4096 * k) ∧
      ∀ x, (take c).mem x =
        if (x - BitVec.ofNat 32 (lowMem + 4096 * k)).toNat < 4096 then 0
        else if x = c.edi + 1 then 1 else c.mem x := by
  have hpage : BitVec.ofNat 32 k <<< 12 + BitVec.ofNat 32 lowMem =
      BitVec.ofNat 32 (lowMem + 4096 * k) := by
    apply BitVec.eq_of_toNat_eq
    rw [BitVec.toNat_add, BitVec.toNat_shiftLeft, Nat.shiftLeft_eq, BitVec.toNat_ofNat,
      BitVec.toNat_ofNat, BitVec.toNat_ofNat, lowMem]
    omega
  rw [← hpage]
  dsimp only [take, Cpu.store]
  rw [hecx]
  generalize BitVec.ofNat 32 k <<< 12 + BitVec.ofNat 32 lowMem = page
  generalize hd : ({ c with
    ecx := 1024
    edx := page
    edi := page + 4092
    mem := Function.update c.mem (c.edi + 1) 1
    stores := (c.edi + 1) :: c.stores } : Cpu) = d
  have hcount : d.rep Cpu.stosl = Cpu.repeating Cpu.stosl (fun _ => false) 1024 d := by
    rw [Cpu.rep, show d.ecx = 1024 by rw [← hd]]
    rfl
  have hedi : d.edi = page + BitVec.ofNat 32 (4 * 1024) - 4 := by
    rw [← hd, show BitVec.ofNat 32 (4 * 1024) = (4092 : BitVec 32) + 4 from rfl]
    ring
  obtain ⟨hedx, hmem⟩ := Cpu.repeating_stosl (n := 1024) (c := d) (a := page) (by decide)
    (by rw [← hd]; exact hdf) (by rw [← hd]; exact heax) hedi
  rw [hcount]
  refine ⟨?_, fun x => ?_⟩
  · rw [hedx, ← hd]
  · rw [hmem, ← hd]
    exact congrArg (ite _ 0) (Function.update_apply _ _ _ _)

/-- `mem_map` lies below the pages. -/
theorem place_toNat (hmap : map.toNat + pagingPages ≤ lowMem) (hk : k < pagingPages) :
    (map + BitVec.ofNat 32 k).toNat = map.toNat + k := by
  rw [pagingPages] at hmap hk
  rw [lowMem] at hmap
  rw [BitVec.toNat_add, BitVec.toNat_ofNat]
  omega

/-- **The last free page** is taken and cleared. -/
theorem getFreePage_some (hmap : map.toNat + pagingPages ≤ lowMem) (hk : k < pagingPages)
    (hfree : c.mem (map + BitVec.ofNat 32 k) = 0)
    (hlast : ∀ j, k < j → j < pagingPages → c.mem (map + BitVec.ofNat 32 j) ≠ 0) :
    (getFreePage map c).eax = BitVec.ofNat 32 (lowMem + 4096 * k) ∧
      ∀ x, (getFreePage map c).mem x =
        if x = map + BitVec.ofNat 32 k then 1
        else if lowMem + 4096 * k ≤ x.toNat ∧ x.toNat < lowMem + 4096 * k + 4096 then 0
        else c.mem x := by
  have hsearch := search_last hk hfree hlast
  have hzf : ¬(search map c).zf = false := by
    rw [hsearch]
    exact Bool.noConfusion
  obtain ⟨heax, hmem⟩ := take_eq (c := search map c) (by rw [hsearch]; rfl) (by rw [hsearch]; rfl)
    (by rw [hsearch])
  rw [getFreePage, if_neg hzf]
  refine ⟨heax, fun x => ?_⟩
  rw [hmem, hsearch]
  dsimp only
  have hback : map + BitVec.ofNat 32 k - 1 + 1 = map + BitVec.ofNat 32 k := by ring
  rw [hback]
  have hpage : (x - BitVec.ofNat 32 (lowMem + 4096 * k)).toNat < 4096 ↔
      lowMem + 4096 * k ≤ x.toNat ∧ x.toNat < lowMem + 4096 * k + 4096 := by
    rw [pagingPages] at hk
    rw [BitVec.toNat_sub, BitVec.toNat_ofNat, lowMem]
    have hx := x.isLt
    omega
  have hbelow : x = map + BitVec.ofNat 32 k → ¬lowMem ≤ x.toNat := by
    rintro rfl
    rw [place_toNat hmap hk]
    omega
  rw [if_congr hpage rfl rfl]
  split_ifs with hin hbyte hbyte
  · exact absurd (Nat.le_trans (Nat.le_add_right _ _) hin.1) (hbelow hbyte)
  · rfl
  · rfl
  · rfl

/-! ### In every run -/

/-- The search of the model finds the last page that is free. -/
theorem scasb_last {map : ℕ → ℕ} {n i : ℕ} (h : scasb map n = some i) :
    ∀ j, i < j → j < n → map j ≠ 0 := by
  induction n with
  | zero => exact fun j _ hj => absurd hj (Nat.not_lt_zero j)
  | succ n ih =>
    rw [scasb] at h
    split_ifs at h with h0
    · obtain rfl := Option.some.inj h
      exact fun j hj hj' => absurd hj (by omega)
    · intro j hj hj'
      rcases Nat.lt_succ_iff_lt_or_eq.mp hj' with hlt | rfl
      · exact ih h j hj hlt
      · exact h0

theorem Holds.eq_zero_iff (hc : Holds map c.mem s.mem) (hk : k < pagingPages) :
    c.mem (map + BitVec.ofNat 32 k) = 0 ↔ s.mem.memMap k = 0 := by
  rw [← hc k hk, BitVec.toNat_eq]
  rfl

/-- **`get_free_page`** does what the model of it does. -/
theorem getFreePage_refines (hmap : map.toNat + pagingPages ≤ lowMem)
    (hc : Holds map c.mem s.mem) : ∃ r m', Mm.getFreePage s.mem = .ok r m' ∧
      (getFreePage map c).eax = r.elim 0 (fun f => BitVec.ofNat 32 (4096 * f)) ∧
      Holds map (getFreePage map c).mem m' := by
  rcases hs : scasb s.mem.memMap pagingPages with _ | k
  · obtain ⟨heax, hmem⟩ := @getFreePage_none map c fun k hk h0 =>
      scasb_eq_none hs k hk ((hc.eq_zero_iff hk).mp h0)
    refine ⟨none, s.mem, ?_, heax, ?_⟩
    · rw [Mm.getFreePage, get_bind, hs]
      rfl
    · rw [hmem]
      exact hc
  · obtain ⟨hk, h0⟩ := scasb_eq_some hs
    obtain ⟨heax, hmem⟩ := getFreePage_some hmap hk ((hc.eq_zero_iff hk).mpr h0)
      fun j hj hj' h0 => scasb_last hs j hj hj' ((hc.eq_zero_iff hj').mp h0)
    refine ⟨some (lowFrame + k), (s.mem.setMap k 1).setFrame (lowFrame + k) fun _ => 0#32, ?_, ?_,
      ?_⟩
    · rw [Mm.getFreePage, get_bind, hs]
      rfl
    · rw [heax, Option.elim_some, Nat.mul_add]
      rfl
    · intro j hj
      rw [hmem]
      change _ = Function.update s.mem.memMap k 1 j
      have hbelow : ¬(lowMem + 4096 * k ≤ (map + BitVec.ofNat 32 j).toNat ∧
          (map + BitVec.ofNat 32 j).toNat < lowMem + 4096 * k + 4096) := by
        rw [place_toNat hmap hj]
        omega
      by_cases hjk : j = k
      · rw [hjk, if_pos rfl, Function.update_self]
        rfl
      · have hne : map + BitVec.ofNat 32 j ≠ map + BitVec.ofNat 32 k := by
          intro heq
          have hnat := congrArg BitVec.toNat heq
          rw [place_toNat hmap hj, place_toNat hmap hk] at hnat
          omega
        rw [if_neg hne, if_neg hbelow, Function.update_of_ne hjk]
        exact hc j hj

/-- **`get_free_page`** in a state that is reached from `mem_init`. It returns 0 just if no byte of
`mem_map` is 0, and changes nothing then. Else it takes the last page whose byte is 0, which is a
page of main memory: the byte is 1 then, the 4096 bytes of the page are 0, and nothing else has
changed. -/
theorem getFreePage_spec (h : Reachable (Boot A) Step s)
    (hmap : map.toNat + pagingPages ≤ lowMem) (hc : Holds map c.mem s.mem) :
    ((getFreePage map c).eax = 0 ↔ ∀ k < pagingPages, s.mem.memMap k ≠ 0) ∧
      ((∀ k < pagingPages, s.mem.memMap k ≠ 0) → (getFreePage map c).mem = c.mem) ∧
      ∀ k < pagingPages, s.mem.memMap k = 0 →
        (∀ j, k < j → j < pagingPages → s.mem.memMap j ≠ 0) →
        (getFreePage map c).eax = BitVec.ofNat 32 (lowMem + 4096 * k) ∧
          A.lo * 4096 ≤ lowMem + 4096 * k ∧ lowMem + 4096 * k < s.mem.highMemory ∧
          ∀ x, (getFreePage map c).mem x =
            if x = map + BitVec.ofNat 32 k then 1
            else if lowMem + 4096 * k ≤ x.toNat ∧ x.toNat < lowMem + 4096 * k + 4096 then 0
            else c.mem x := by
  have hok := (Inv.reachable h).ok
  -- the last free page
  have hlast : ∀ k < pagingPages, s.mem.memMap k = 0 →
      (∀ j, k < j → j < pagingPages → s.mem.memMap j ≠ 0) →
      (getFreePage map c).eax = BitVec.ofNat 32 (lowMem + 4096 * k) ∧ ∀ x,
        (getFreePage map c).mem x = if x = map + BitVec.ofNat 32 k then 1
          else if lowMem + 4096 * k ≤ x.toNat ∧ x.toNat < lowMem + 4096 * k + 4096 then 0
          else c.mem x := fun k hk h0 hgreatest =>
    getFreePage_some hmap hk ((hc.eq_zero_iff hk).mpr h0) fun j hj hj' hzero =>
      hgreatest j hj hj' ((hc.eq_zero_iff hj').mp hzero)
  have hnone : (∀ k < pagingPages, s.mem.memMap k ≠ 0) →
      (getFreePage map c).eax = 0 ∧ (getFreePage map c).mem = c.mem := fun hno =>
    getFreePage_none fun k hk h0 => hno k hk ((hc.eq_zero_iff hk).mp h0)
  refine ⟨⟨fun heax => ?_, fun hno => (hnone hno).1⟩, fun hno => (hnone hno).2, ?_⟩
  · rcases hs : scasb s.mem.memMap pagingPages with _ | k
    · exact scasb_eq_none hs
    · obtain ⟨hk, h0⟩ := scasb_eq_some hs
      have hpage := (hlast k hk h0 (scasb_last hs)).1.symm.trans heax
      have hnat : (lowMem + 4096 * k) % 2 ^ 32 = 0 := congrArg BitVec.toNat hpage
      rw [pagingPages] at hk
      rw [lowMem] at hnat
      omega
  · intro k hk h0 hgreatest
    obtain ⟨heax, hmem⟩ := hlast k hk h0 hgreatest
    -- a page whose byte is 0 is one of main memory
    have hmain : A.Main (lowFrame + k) := by
      by_contra hout
      have hge : 256 ≤ lowFrame + k := Nat.le_add_right _ _
      have hlt : lowFrame + k < 4096 := by
        rw [pagingPages] at hk
        rw [lowFrame]
        omega
      have hcount : s.mem.maps.count (lowFrame + k) = 0 := by
        rw [Mem.maps_count hge, mapNr, Nat.add_sub_cancel_left, h0]
      exact hok.maps.reserved _ hge hlt hout hcount
    have hlo := hmain.1
    have hhi := hmain.2
    rw [lowFrame] at hlo hhi
    refine ⟨heax, ?_, ?_, hmem⟩
    · rw [lowMem]
      omega
    · rw [hok.high, lowMem]
      omega

/-- `mem_map` of a machine with 16 MB that has just booted, at address 128 KB. -/
def bootCpu : Cpu where
  eax := 0
  ecx := 0
  edx := 0
  esi := 0
  edi := 0
  df := false
  zf := false
  sf := false
  less := false
  mem x := if 0x20000 + 768 ≤ x.toNat then 0 else 100
  stores := []

theorem boot16_memMap (k : ℕ) :
    boot16.mem.memMap k = if 768 ≤ k ∧ k < 768 + 3072 then 0 else used := by
  have hlo : mapNr (1024 * 4096 / 4096) = 768 := by decide
  have hcount : (4096 * 4096 - 1024 * 4096) / 4096 = 3072 := by decide
  rw [boot16, memInit]
  dsimp only
  rw [hlo, hcount, clearMap_apply]

theorem bootCpu_holds : Holds 0x20000 bootCpu.mem boot16.mem := by
  intro k hk
  have hplace := @place_toNat 0x20000 k (by decide) hk
  rw [boot16_memMap, bootCpu]
  dsimp only
  rw [pagingPages] at hk
  rw [hplace, show (0x20000 : Addr).toNat = 0x20000 from rfl]
  by_cases hlow : 768 ≤ k
  · rw [if_pos (by omega), if_pos (by omega)]
    rfl
  · rw [if_neg (by omega), if_neg (by omega)]
    rfl

/-- The first page that is taken is the last one below 16 MB. -/
theorem getFreePage_boot : (getFreePage 0x20000 bootCpu).eax = 0xfff000 ∧
    4095 * 4096 < boot16.mem.highMemory := by
  have hb : Reachable (Boot arena16) Step boot16 := Reachable.start ⟨fun _ _ => 0#32, rfl⟩
  have hspec := (getFreePage_spec hb (by decide) bootCpu_holds).2.2 3839 (by decide)
    ((boot16_memMap 3839).trans (if_pos (by decide)))
    fun j hj hj' => absurd hj' (by rw [pagingPages]; omega)
  exact ⟨hspec.1, hspec.2.2.1⟩

end Linux011.Mm.FreePage

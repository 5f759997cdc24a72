import Linux011.Exec.Access
import Linux011.Exec.Execve

/-!
# How far `copy_strings` goes

`copy_strings` once more, for where it stores, in the 32 bits of the code and with its comparison:
`p-len < 0` is meant to catch what does not fit into the argument pages, but `p` is unsigned, and
nothing is below 0. So `p` goes on below 0 when the strings are too long, to the highest page there
is, of which `page` has no entry.

The strings are given, and for each argument page whether there is a free page for it when it is
missing. The calls that `do_execve` makes stay inside the pages exactly if the strings fit, or some
of the calls together take exactly what there is, or a page that is needed cannot be had
(`Linux011.Exec.Bounds.copies_inside`).
-/

namespace Linux011.Exec.Bounds

/-! ### Strings -/

/-- **A string**: it ends at the first zero, within the 32 bits of an address. -/
structure CString where
  bytes : List UInt8
  ends : (0 : UInt8) ∉ bytes
  short : bytes.length + 1 < 2 ^ 32

/-- What the `do` loop leaves in `len`, with the zero. -/
def CString.len (s : CString) : BitVec 32 := BitVec.ofNat 32 (s.bytes.length + 1)

/-- The bytes in the order in which they are copied. -/
def CString.fromEnd (s : CString) : List UInt8 := (s.bytes ++ [0]).reverse

/-- How much room strings take. -/
def size (ss : List CString) : ℕ := (ss.map fun s => s.bytes.length + 1).sum

/-! ### `copy_strings` -/

/-- `p`, `offset`, `pag` as the number of a page, and the array `page`. -/
structure Cursor where
  p : BitVec 32
  offset : ℤ
  pag : ℕ
  page : ℕ → Option Page

/-- How a call ends early. -/
inductive Stop
  /-- `return 0;` -/
  | none (page : ℕ → Option Page)
  /-- This index is not in the array. -/
  | outside (index : ℕ)

/-- One turn of the loop over a string: `--p`, `--offset`, and the byte is stored. -/
def store (avail : ℕ → Bool) (c : Cursor) (b : UInt8) : Except Stop Cursor :=
  let p := c.p - 1#32
  let offset := c.offset - 1
  if offset < 0 then
    let offset := p.toNat % pageSize
    let n := p.toNat / pageSize
    if maxArgPages ≤ n then .error (.outside n)
    else if (c.page n).isSome then .ok ⟨p, offset, n, setFlat c.page n offset b⟩
    else if avail n then
      .ok ⟨p, offset, n, setFlat (Function.update c.page n (some fun _ => 0)) n offset b⟩
    else .error (.none c.page)
  else .ok ⟨p, offset, c.pag, setFlat c.page c.pag offset.toNat b⟩

/-- The loop over the strings, which are given from the last. -/
def copyLoop (avail : ℕ → Bool) : List CString → Cursor → Except Stop Cursor
  | [], c => .ok c
  | s :: ss, c =>
    if (c.p - s.len).ult 0#32 then .error (.none c.page)
    else do
      let c ← s.fromEnd.foldlM (store avail) c
      copyLoop avail ss c

/-- **`copy_strings`**: what it returns and what becomes of `page`, or an index that is not in
`page`. -/
def copyStrings (avail : ℕ → Bool) (ss : List CString) (p : BitVec 32) (page : ℕ → Option Page) :
    Except ℕ (BitVec 32 × (ℕ → Option Page)) :=
  if p = 0#32 then .ok (0#32, page)
  else
    match copyLoop avail ss.reverse ⟨p, 0, 0, page⟩ with
    | .ok c => .ok (c.p, c.page)
    | .error (.none page) => .ok (0#32, page)
    | .error (.outside n) => .error n

/-! ### The calls of `do_execve` -/

/-- What kind of file is executed. -/
inductive Program
  | binary
  | script (filename : CString) (iArg : Option CString) (iName : CString)

/-- **The calls of `copy_strings`**, each by its strings. -/
def calls (envp argv : List CString) : Program → List (List CString)
  | .binary => [envp, argv]
  | .script filename iArg iName =>
    [envp, argv.tail, [filename]] ++ iArg.toList.map (fun s => [s]) ++ [[iName]]

/-- One call after another. -/
def copyAll (avail : ℕ → Bool) : List (List CString) → BitVec 32 → (ℕ → Option Page) →
    Except ℕ (BitVec 32 × (ℕ → Option Page))
  | [], p, page => .ok (p, page)
  | ss :: cs, p, page => do
    let r ← copyStrings avail ss p page
    copyAll avail cs r.1 r.2

/-- `ENOMEM`. -/
def enomem : ℤ := 12

/-- What `do_execve` makes of it. -/
def execArguments (avail : ℕ → Bool) (cs : List (List CString)) (p : BitVec 32)
    (page : ℕ → Option Page) : Except ℕ (ℤ ⊕ BitVec 32) := do
  let r ← copyAll avail cs p page
  pure (if r.1 = 0#32 then .inl (-enomem) else .inr r.1)

/-! ### What is claimed of them -/

/-- **Every call stays inside the array**, and returns 0 when its strings do not fit. -/
def Proper (avail : ℕ → Bool) : List (List CString) → BitVec 32 → (ℕ → Option Page) → Prop
  | [], _, _ => True
  | ss :: cs, p, page => ∃ p' page', copyStrings avail ss p page = .ok (p', page') ∧
    (p.toNat < size ss → p' = 0#32) ∧ Proper avail cs p' page'

/-- **All calls stay inside**, and `do_execve` fails when the strings do not fit. -/
structure Inside (avail : ℕ → Bool) (cs : List (List CString)) (p : BitVec 32)
    (page : ℕ → Option Page) : Prop where
  proper : Proper avail cs p page
  fails : p.toNat < size cs.flatten → execArguments avail cs p page = .ok (.inl (-enomem))

/-- The page is there, or can be had. -/
def Usable (avail : ℕ → Bool) (page : ℕ → Option Page) (n : ℕ) : Prop :=
  (page n).isSome = true ∨ avail n = true

/-- **The strings fit**, or a number of calls fill the pages to the last byte, or a page at or
below `p` cannot be had. -/
def Room (avail : ℕ → Bool) (cs : List (List CString)) (p : BitVec 32)
    (page : ℕ → Option Page) : Prop :=
  size cs.flatten ≤ p.toNat ∨ (∃ k, size (cs.take k).flatten = p.toNat) ∨
    ∃ n, pageSize * n < p.toNat ∧ ¬Usable avail page n

/-! ### One byte -/

variable {avail : ℕ → Bool} {c c' : Cursor} {b : UInt8} {n k : ℕ} {bs : List UInt8}
  {ss : List CString} {cs : List (List CString)} {p : BitVec 32} {page : ℕ → Option Page}

/-- **The cursor is in the pages.** -/
structure Cursor.Ok (c : Cursor) : Prop where
  le : c.p.toNat ≤ top
  offset : c.offset = 0 ∨ c.offset = c.p.toNat % pageSize ∧ c.pag = c.p.toNat / pageSize ∧
    (c.page c.pag).isSome = true

theorem usable_setFlat {off : ℕ} :
    Usable avail (setFlat page n off b) k ↔ Usable avail page k := by
  rw [Usable, Usable, setFlat, Function.update_apply]
  split
  · next h => rw [h, Option.isSome_map]
  · rfl

/-- Below 0 there is no entry of the array. -/
theorem store_zero (h : c.Ok) (hp : c.p.toNat = 0) :
    ∃ i, store avail c b = .error (.outside i) := by
  have hoff : c.offset = 0 := by
    rcases h.offset with h0 | ⟨h0, -⟩
    · exact h0
    · rw [h0, hp]
      rfl
  have hpred : (c.p - 1#32).toNat = 2 ^ 32 - 1 := by
    rw [BitVec.eq_of_toNat_eq (y := 0#32) hp]
    rfl
  refine ⟨(2 ^ 32 - 1) / pageSize, ?_⟩
  rw [store]
  dsimp only
  rw [hoff, hpred, if_pos (by decide), if_pos (by decide)]

theorem store_succ (h : c.Ok) (hp : c.p.toNat = k + 1) :
    (Usable avail c.page (k / pageSize) → ∃ c', store avail c b = .ok c' ∧ c'.Ok ∧
      c'.p.toNat = k ∧ ∀ n, Usable avail c'.page n ↔ Usable avail c.page n) ∧
    (¬Usable avail c.page (k / pageSize) →
      ∃ page, store avail c b = .error (.none page)) := by
  have hle := h.le
  have hpred : (c.p - 1#32).toNat = k := by
    rw [BitVec.toNat_sub, hp]
    have hlt := c.p.isLt
    simp only [BitVec.toNat_ofNat]
    omega
  have hindex : ¬maxArgPages ≤ k / pageSize := by
    rw [top] at hle
    rw [maxArgPages, pageSize] at *
    omega
  have hk : k ≤ top := by omega
  rw [store]
  dsimp only
  rw [hpred]
  by_cases hoff : c.offset - 1 < 0
  · rw [if_pos hoff, if_neg hindex]
    constructor
    · intro hus
      split
      · next hsome =>
        refine ⟨_, rfl, ⟨hpred.trans_le hk, Or.inr ⟨?_, ?_, ?_⟩⟩, hpred, fun n => usable_setFlat⟩
        · change ((k % pageSize : ℕ) : ℤ) = _
          rw [hpred]
          push_cast
          rfl
        · rw [hpred]
        · exact isSome_setFlat.trans hsome
      · next hnone =>
        have havail := hus.resolve_left hnone
        rw [if_pos havail]
        refine ⟨_, rfl, ⟨hpred.trans_le hk, Or.inr ⟨?_, ?_, ?_⟩⟩, hpred, fun n => ?_⟩
        · change ((k % pageSize : ℕ) : ℤ) = _
          rw [hpred]
          push_cast
          rfl
        · rw [hpred]
        · refine isSome_setFlat.trans ?_
          rw [Function.update_self]
          rfl
        · rw [usable_setFlat, Usable, Usable, Function.update_apply]
          split
          · next hn => exact iff_of_true (Or.inl rfl) (hn ▸ Or.inr havail)
          · rfl
    · intro hno
      rw [Usable, not_or] at hno
      rw [if_neg hno.1, if_neg hno.2]
      exact ⟨_, rfl⟩
  · rw [if_neg hoff]
    obtain ⟨hoff', hpag, hsome⟩ := h.offset.resolve_left (by omega)
    have hdiv : k / pageSize = c.p.toNat / pageSize ∧
        ((c.p.toNat % pageSize : ℕ) : ℤ) - 1 = (k % pageSize : ℕ) := by
      have hpos : 0 < c.p.toNat % pageSize := by omega
      rw [hp] at hpos ⊢
      rw [pageSize] at *
      omega
    constructor
    · intro _
      refine ⟨_, rfl, ⟨hpred.trans_le hk, Or.inr ⟨?_, ?_, ?_⟩⟩, hpred, fun n => usable_setFlat⟩
      · change c.offset - 1 = _
        rw [hoff', hpred]
        exact_mod_cast hdiv.2
      · rw [hpred, hdiv.1]
        exact hpag
      · exact isSome_setFlat.trans hsome
    · intro hno
      rw [hdiv.1, ← hpag] at hno
      exact absurd (Or.inl hsome) hno

/-! ### The bytes of a call -/

/-- **Where the bytes of a call end up**: at a page that cannot be had, or below 0, or that many
bytes lower. -/
inductive Copied (avail : ℕ → Bool) (len : ℕ) (c : Cursor) : Except Stop Cursor → Prop
  | none {page : ℕ → Option Page} (h : ∃ n, pageSize * n < c.p.toNat ∧ ¬Usable avail c.page n) :
    Copied avail len c (.error (.none page))
  | outside {i : ℕ} (hlt : c.p.toNat < len)
    (h : ∀ n, pageSize * n < c.p.toNat → Usable avail c.page n) :
    Copied avail len c (.error (.outside i))
  | done {c' : Cursor} (hok : c'.Ok) (hp : c'.p.toNat + len = c.p.toNat)
    (h : ∀ n, Usable avail c'.page n ↔ Usable avail c.page n)
    (hin : ∀ n, pageSize * n < c.p.toNat → c'.p.toNat ≤ pageSize * n → Usable avail c.page n) :
    Copied avail len c (.ok c')

theorem copied_foldlM (h : c.Ok) : Copied avail bs.length c (bs.foldlM (store avail) c) := by
  induction bs generalizing c with
  | nil =>
    exact .done h rfl (fun _ => Iff.rfl) fun n hlt hle => absurd hle (Nat.not_le_of_lt hlt)
  | cons b bs ih =>
    rw [List.foldlM_cons, List.length_cons]
    cases hp : c.p.toNat with
    | zero =>
      obtain ⟨i, hi⟩ := @store_zero avail _ b h hp
      rw [hi]
      exact .outside (by omega) fun n hn => by omega
    | succ k =>
      obtain ⟨hgo, hstop⟩ := @store_succ avail _ b _ h hp
      by_cases hus : Usable avail c.page (k / pageSize)
      · obtain ⟨c₁, hc₁, hok, hk, huse⟩ := hgo hus
        -- a page that begins below `p` is the one at `k`, or begins below `k`
        have hpage : ∀ n, pageSize * n < k + 1 → pageSize * n < k ∨ Usable avail c.page n := by
          intro n hn
          rcases Nat.lt_or_ge (pageSize * n) k with hlt | hge
          · exact Or.inl hlt
          · right
            have hn' : k / pageSize = n := by
              rw [pageSize] at *
              omega
            exact hn' ▸ hus
        rw [hc₁]
        change Copied avail (bs.length + 1) c (bs.foldlM (store avail) c₁)
        have hrest := ih hok
        generalize bs.foldlM (store avail) c₁ = r at hrest
        cases hrest with
        | none hex =>
          obtain ⟨n, hn, hno⟩ := hex
          exact .none ⟨n, by omega, fun hu => hno ((huse n).mpr hu)⟩
        | outside hlt hall =>
          refine .outside (by omega) fun n hn => ?_
          rcases hpage n (by omega) with hlt' | hu
          · exact (huse n).mp (hall n (by omega))
          · exact hu
        | done hok' hp' huse' hin =>
          refine .done hok' (by omega) (fun n => (huse' n).trans (huse n)) fun n hn hle => ?_
          rcases hpage n (by omega) with hlt' | hu
          · exact (huse n).mp (hin n (by omega) hle)
          · exact hu
      · obtain ⟨page, hpage⟩ := hstop hus
        rw [hpage]
        refine .none ⟨k / pageSize, ?_, hus⟩
        rw [pageSize]
        omega

/-- **The comparison never stops anything.** -/
theorem copyLoop_eq (h : c.Ok) : copyLoop avail ss c =
    (ss.flatMap CString.fromEnd).foldlM (store avail) c := by
  induction ss generalizing c with
  | nil => rfl
  | cons s ss ih =>
    have hult : ¬(c.p - s.len).ult 0#32 = true := by simp [BitVec.ult]
    rw [copyLoop, if_neg hult, List.flatMap_cons, List.foldlM_append]
    have hs : Copied avail s.fromEnd.length c (s.fromEnd.foldlM (store avail) c) :=
      copied_foldlM h
    cases hr : s.fromEnd.foldlM (store avail) c with
    | error e => rfl
    | ok c' =>
      rw [hr] at hs
      cases hs with
      | done hok => exact ih hok

theorem length_fromEnd (s : CString) : s.fromEnd.length = s.bytes.length + 1 := by
  rw [CString.fromEnd, List.length_reverse, List.length_append, List.length_singleton]

theorem length_flatMap : (ss.reverse.flatMap CString.fromEnd).length = size ss := by
  rw [List.length_flatMap, size, List.map_reverse, List.sum_reverse]
  refine congrArg List.sum (List.map_congr_left fun s _ => length_fromEnd s)

/-! ### The calls -/

/-- **What a call comes to**, when there is room left. -/
inductive Returns (avail : ℕ → Bool) (len : ℕ) (p : BitVec 32) (page : ℕ → Option Page) :
    Except ℕ (BitVec 32 × (ℕ → Option Page)) → Prop
  | none {page' : ℕ → Option Page} (h : ∃ n, pageSize * n < p.toNat ∧ ¬Usable avail page n) :
    Returns avail len p page (.ok (0#32, page'))
  | outside {i : ℕ} (hlt : p.toNat < len)
    (h : ∀ n, pageSize * n < p.toNat → Usable avail page n) :
    Returns avail len p page (.error i)
  | done {p' : BitVec 32} {page' : ℕ → Option Page} (hp : p'.toNat + len = p.toNat)
    (h : ∀ n, Usable avail page' n ↔ Usable avail page n)
    (hin : ∀ n, pageSize * n < p.toNat → p'.toNat ≤ pageSize * n → Usable avail page n) :
    Returns avail len p page (.ok (p', page'))

theorem copyStrings_zero : copyStrings avail ss 0#32 page = .ok (0#32, page) := if_pos rfl

theorem returns_copyStrings (h0 : p ≠ 0#32) (hle : p.toNat ≤ top) :
    Returns avail (size ss) p page (copyStrings avail ss p page) := by
  have hok : Cursor.Ok ⟨p, 0, 0, page⟩ := ⟨hle, Or.inl rfl⟩
  have hcopied : Copied avail (ss.reverse.flatMap CString.fromEnd).length ⟨p, 0, 0, page⟩
      ((ss.reverse.flatMap CString.fromEnd).foldlM (store avail) ⟨p, 0, 0, page⟩) :=
    copied_foldlM hok
  rw [length_flatMap] at hcopied
  rw [copyStrings, if_neg h0, copyLoop_eq hok]
  generalize (ss.reverse.flatMap CString.fromEnd).foldlM (store avail) ⟨p, 0, 0, page⟩ = r
    at hcopied
  cases hcopied with
  | none hex => exact .none hex
  | outside hlt hall => exact .outside hlt hall
  | done hok' hp huse hin => exact .done hp huse hin

theorem size_cons (ss : List CString) (cs : List (List CString)) :
    size (ss :: cs).flatten = size ss + size cs.flatten := by
  rw [List.flatten_cons, size, size, size, List.map_append, List.sum_append]

/-- When nothing is left, nothing is done. -/
theorem proper_zero : Proper avail cs 0#32 page ∧
    copyAll avail cs 0#32 page = .ok (0#32, page) := by
  induction cs with
  | nil => exact ⟨trivial, rfl⟩
  | cons ss cs ih =>
    refine ⟨⟨0#32, page, copyStrings_zero, fun _ => rfl, ih.1⟩, ?_⟩
    rw [copyAll, copyStrings_zero]
    exact ih.2

/-- **There is room for a call and the others** if there is for the others. -/
theorem room_cons {p' : BitVec 32} {page' : ℕ → Option Page} (h0 : p ≠ 0#32)
    (hp : p'.toNat + size ss = p.toNat) (h : ∀ n, Usable avail page' n ↔ Usable avail page n)
    (hin : ∀ n, pageSize * n < p.toNat → p'.toNat ≤ pageSize * n → Usable avail page n) :
    Room avail (ss :: cs) p page ↔ Room avail cs p' page' := by
  have hpos : p.toNat ≠ 0 := fun hz => h0 (BitVec.eq_of_toNat_eq hz)
  rw [Room, Room, size_cons]
  refine or_congr (by omega) (or_congr ⟨?_, ?_⟩ ⟨?_, ?_⟩)
  · rintro ⟨k, hk⟩
    cases k with
    | zero => exact absurd hk.symm hpos
    | succ k =>
      rw [List.take_succ_cons, size_cons] at hk
      exact ⟨k, by omega⟩
  · rintro ⟨k, hk⟩
    refine ⟨k + 1, ?_⟩
    rw [List.take_succ_cons, size_cons]
    omega
  · rintro ⟨n, hn, hno⟩
    refine ⟨n, ?_, fun hu => hno ((h n).mp hu)⟩
    by_contra hge
    exact hno (hin n hn (by omega))
  · rintro ⟨n, hn, hno⟩
    exact ⟨n, by omega, fun hu => hno ((h n).mpr hu)⟩

/-- **All calls**, one after another: the induction is on the calls that are left. -/
theorem proper_iff (hle : p.toNat ≤ top) : (Proper avail cs p page ↔ Room avail cs p page) ∧
    (Room avail cs p page → p.toNat < size cs.flatten →
      ∃ page', copyAll avail cs p page = .ok (0#32, page')) := by
  induction cs generalizing p page with
  | nil =>
    refine ⟨iff_of_true trivial (Or.inl (Nat.zero_le _)), fun _ hlt => ?_⟩
    exact absurd hlt (Nat.not_lt_zero _)
  | cons ss cs ih =>
    by_cases h0 : p = 0#32
    · subst h0
      refine ⟨iff_of_true proper_zero.1 (Or.inr (Or.inl ⟨0, rfl⟩)), fun _ _ => ?_⟩
      exact ⟨page, proper_zero.2⟩
    · have hret : Returns avail (size ss) p page (copyStrings avail ss p page) :=
        returns_copyStrings h0 hle
      rw [Proper, copyAll]
      generalize copyStrings avail ss p page = r at hret
      cases hret with
      | @none page' hex =>
        refine ⟨iff_of_true ⟨0#32, page', rfl, fun _ => rfl, proper_zero.1⟩
          (Or.inr (Or.inr hex)), fun _ _ => ⟨page', proper_zero.2⟩⟩
      | outside hlt hall =>
        have hroom : ¬Room avail (ss :: cs) p page := by
          rintro (hfit | ⟨k, hk⟩ | ⟨n, hn, hno⟩)
          · rw [size_cons] at hfit
            omega
          · cases k with
            | zero => exact h0 (BitVec.eq_of_toNat_eq hk.symm)
            | succ k =>
              rw [List.take_succ_cons, size_cons] at hk
              omega
          · exact hno (hall n hn)
        refine ⟨iff_of_false ?_ hroom, fun h => absurd h hroom⟩
        rintro ⟨p', page', hr, -⟩
        cases hr
      | @done p' page' hp huse hin =>
        obtain ⟨hiff, hfail⟩ := @ih p' page' (by omega)
        rw [room_cons h0 hp huse hin, size_cons]
        refine ⟨⟨?_, ?_⟩, fun hroom hlt => hfail hroom (by omega)⟩
        · rintro ⟨p₁, page₁, hr, -, hproper⟩
          cases hr
          exact hiff.mp hproper
        · intro hroom
          exact ⟨p', page', rfl, fun hlt => by omega, hiff.mpr hroom⟩

theorem inside_iff (hle : p.toNat ≤ top) :
    Inside avail cs p page ↔ Room avail cs p page := by
  obtain ⟨hiff, hfail⟩ := @proper_iff avail cs p page hle
  constructor
  · intro h
    exact hiff.mp h.proper
  · intro h
    refine ⟨hiff.mpr h, fun hlt => ?_⟩
    obtain ⟨page', heq⟩ := hfail h hlt
    rw [execArguments, heq]
    rfl

/-- **The calls of `do_execve` stay inside the argument pages**, from any `p` that is not above the
top, and fail when the strings do not fit, exactly when the strings fit, or a number of calls fill
the pages to the last byte, or a page cannot be had. -/
theorem copies_inside (avail : ℕ → Bool) (envp argv : List CString) (file : Program)
    {p : BitVec 32} (page : ℕ → Option Page) (hle : p.toNat ≤ top) :
    Inside avail (calls envp argv file) p page ↔ Room avail (calls envp argv file) p page :=
  inside_iff hle

/-- A string of that many letters. -/
def letters (n : ℕ) (h : n + 1 < 2 ^ 32) : CString where
  bytes := List.replicate n 97
  ends := fun hmem => absurd (List.eq_of_mem_replicate hmem) (by decide)
  short := by rwa [List.length_replicate]

/-- One argument. -/
theorem copies_inside_letters : Inside (fun _ => true)
    (calls [] [letters 5 (by decide)] .binary) (BitVec.ofNat 32 top) fun _ => none := by
  rw [copies_inside (fun _ => true) [] [letters 5 (by decide)] .binary (fun _ => none) (by decide)]
  exact Or.inl (by decide)

/-- **An argument that is too long by one byte** is stored below the first page. -/
theorem not_copies_inside : ¬Inside (fun _ => true)
    (calls [] [letters top (by decide)] .binary) (BitVec.ofNat 32 top) fun _ => none := by
  have hlen : (letters top (by decide)).bytes.length = top := List.length_replicate
  have hfull : size (calls [] [letters top (by decide)] .binary).flatten = top + 1 := by
    simp [calls, size, hlen]
  have hsize : ∀ k, size ((calls [] [letters top (by decide)] .binary).take k).flatten = 0 ∨
      size ((calls [] [letters top (by decide)] .binary).take k).flatten = top + 1 := by
    intro k
    match k with
    | 0 => exact Or.inl rfl
    | 1 => exact Or.inl rfl
    | k + 2 =>
      right
      simp [calls, size, hlen]
  have htop : (BitVec.ofNat 32 top).toNat = top := rfl
  have hpos : top ≠ 0 := by decide
  rw [inside_iff (by decide)]
  rintro (hfit | ⟨k, hk⟩ | ⟨n, -, hno⟩)
  · omega
  · have := hsize k
    omega
  · exact hno (Or.inr rfl)

end Linux011.Exec.Bounds

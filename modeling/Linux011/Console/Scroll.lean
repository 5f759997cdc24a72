import Linux011.Console.Safety

/-!
# Moving the origin cannot be seen

A display that can move its origin scrolls the whole screen by doing so, and copies the screen back
when it has come to the end of video memory; another one copies the screen a line up each time.
Two such consoles show the same (`Linux011.Console.Con.Same`) whatever is written to both of them:
every store is made at the same distance from the origin, every word that is copied comes from
the screen, and the two ways to scroll make the same of it
(`Linux011.Console.Con.Ok.moveOrigin_cell` and `Linux011.Console.Con.Ok.copyUp_cell`).
-/

namespace Linux011.Console.Con

/-! ### The screen -/

/-- A cell of the screen, counted from the origin. -/
def cell (s : Con) (k : ℕ) : BitVec 16 := s.mem (s.origin + 2 * k)

/-- The number of cells. -/
def cells (s : Con) : ℕ := s.video.numLines * s.video.numColumns

variable {s t s' t' : Con} {w : BitVec 16} {n di si p a b k : ℕ}

theorem mem_poke_self (a : ℕ) (w : BitVec 16) (s : Con) : (s.poke a w).mem a = w :=
  Function.update_self _ _ _

theorem mem_poke_of_ne (h : b ≠ a) (w : BitVec 16) (s : Con) : (s.poke a w).mem b = s.mem b :=
  Function.update_of_ne h _ _

/-! ### What the string instructions make of memory -/

/-- What is not stored to stays. -/
theorem stosw_off (hn : di + 2 * n < 0x100000000) (ha : ∀ i < n, a ≠ di + 2 * i) :
    (s.stosw 1 w n di).mem a = s.mem a := by
  induction n generalizing di s with
  | zero => rfl
  | succ n ih =>
    have hdi : u32 (di + 2 * 1) = di + 2 := by
      unfold u32
      omega
    have hfirst : a ≠ di := ha 0 (by omega)
    rw [stosw, hdi, ih (by omega), mem_poke_of_ne hfirst]
    intro i hi
    have := ha (i + 1) (by omega)
    omega

theorem stosw_at {i : ℕ} (hn : di + 2 * n < 0x100000000) (hi : i < n) :
    (s.stosw 1 w n di).mem (di + 2 * i) = w := by
  induction n generalizing di s i with
  | zero => omega
  | succ n ih =>
    have hdi : u32 (di + 2 * 1) = di + 2 := by
      unfold u32
      omega
    rw [stosw, hdi]
    by_cases hfirst : i = 0
    · rw [stosw_off (by omega) fun j _ => by omega, hfirst]
      exact mem_poke_self _ _ _
    · obtain ⟨j, rfl⟩ : ∃ j, i = j + 1 := ⟨i - 1, by omega⟩
      rw [show di + 2 * (j + 1) = di + 2 + 2 * j by omega]
      exact ih (by omega) (by omega)

theorem movsl_off (hn : di + 4 * n < 0x100000000) (ha : ∀ i < 2 * n, a ≠ di + 2 * i) :
    (s.movsl 1 n di si).mem a = s.mem a := by
  induction n generalizing di si s with
  | zero => rfl
  | succ n ih =>
    have hdi : u32 (di + 4 * 1) = di + 4 := by
      unfold u32
      omega
    have hdi₂ : u32 (di + 2) = di + 2 := by
      unfold u32
      omega
    have hfirst : a ≠ di := ha 0 (by omega)
    have hsecond : a ≠ di + 2 := ha 1 (by omega)
    rw [movsl, hdi, hdi₂, ih (by omega), mem_poke_of_ne hsecond, mem_poke_of_ne hfirst]
    intro i hi
    have := ha (i + 2) (by omega)
    omega

/-- What is copied towards lower addresses is what was there before. -/
theorem movsl_at {i : ℕ} (hle : di ≤ si) (hn : si + 4 * n < 0x100000000) (hi : i < 2 * n) :
    (s.movsl 1 n di si).mem (di + 2 * i) = s.mem (si + 2 * i) := by
  induction n generalizing di si s i with
  | zero => omega
  | succ n ih =>
    have hdi : u32 (di + 4 * 1) = di + 4 := by
      unfold u32
      omega
    have hsi : u32 (si + 4 * 1) = si + 4 := by
      unfold u32
      omega
    have hdi₂ : u32 (di + 2) = di + 2 := by
      unfold u32
      omega
    have hsi₂ : u32 (si + 2) = si + 2 := by
      unfold u32
      omega
    rw [movsl, hdi, hsi, hdi₂, hsi₂]
    by_cases hfirst : i < 2
    · rw [movsl_off (by omega) fun j _ => by omega]
      obtain rfl | rfl : i = 0 ∨ i = 1 := by omega
      · rw [mem_poke_of_ne (by omega)]
        exact mem_poke_self _ _ _
      · exact mem_poke_self _ _ _
    · obtain ⟨j, rfl⟩ : ∃ j, i = j + 2 := ⟨i - 2, by omega⟩
      have hrest := ih (s := (s.poke di (s.mem si)).poke (di + 2) (s.mem (si + 2)))
        (show di + 4 ≤ si + 4 by omega) (by omega) (show j < 2 * n by omega)
      rw [show di + 2 * (j + 2) = di + 4 + 2 * j by omega,
        show si + 2 * (j + 2) = si + 4 + 2 * j by omega, hrest, mem_poke_of_ne (by omega),
        mem_poke_of_ne (by omega)]

/-! ### The two ways to scroll the screen -/

namespace Ok

theorem two_cells (h : s.Ok) : s.video.numLines * s.video.sizeRow = 2 * s.cells := by
  rw [h.row, cells]
  ring

theorem low (h : s.Ok) : s.origin + 2 * s.cells < 0x100000000 := by
  have hend := h.scrEnd
  have hlt := h.scrEndLt
  rw [h.two_cells] at hend
  omega

/-- The origin moves: the lines are one further up, and the last one is clear. -/
theorem moveOrigin_cell (h : s.Ok) (heven : s.video.numColumns % 2 = 0) (hk : k < s.cells) :
    s.moveOrigin.cell k =
      if k + s.video.numColumns < s.cells then s.cell (k + s.video.numColumns)
      else s.video.eraseChar := by
  obtain ⟨r, hr, hlongs, hsize⟩ := h.nextLine.screenLongs
  change s.video.numLines * s.video.sizeRow = 2 * r + s.video.sizeRow at hsize
  have hreven : r % 2 = 0 := by
    rw [hr, Nat.mul_mod]
    change _ * (s.video.numColumns % 2) % 2 = 0
    rw [heven, Nat.mul_zero]
  have hcells := h.two_cells
  have hrow := h.row
  have hfits := h.fits
  have hmem := h.memEnd
  have hstart := h.start
  have hend := h.scrEnd
  have hle := h.le
  have horigin : u32 (s.origin + s.video.sizeRow) = s.origin + s.video.sizeRow :=
    u32_eq (by push_cast; rfl) (by omega)
  have hscr : u32 (s.scrEnd + s.video.sizeRow) = s.scrEnd + s.video.sizeRow :=
    u32_eq (by push_cast; rfl) (by omega)
  change s.nextLine.origin = _ at horigin
  change s.nextLine.scrEnd = _ at hscr
  have hmove : s.origin + 2 * (k + s.video.numColumns) = s.nextLine.origin + 2 * k := by omega
  unfold Con.moveOrigin
  split
  · have hdi : u32 (s.nextLine.video.memStart + 4 * s.nextLine.screenLongs) =
        s.video.memStart + 2 * r := by
      rw [hlongs]
      refine u32_eq ?_ (by omega)
      change (s.video.memStart : ℤ) + 4 * (r / 2 : ℕ) = _
      omega
    have hvideo : s.nextLine.copyLines.video = s.video := by
      rw [h.nextLine.copyLines.2]
      rfl
    have hcell : s.nextLine.copyLines.resetOrigin.cell k =
        s.nextLine.copyLines.mem (s.nextLine.copyLines.video.memStart + 2 * k) := rfl
    rw [hcell, hvideo]
    unfold Con.copyLines
    rw [hdi, hlongs]
    split
    · next hin =>
      rw [stosw_off (by change _ + 2 * s.video.numColumns < _; omega) fun i _ => by omega]
      exact (movsl_at (by change s.video.memStart ≤ _; omega) (by omega) (by omega)).trans
        (congrArg s.mem hmove.symm)
    · next hin =>
      rw [show s.video.memStart + 2 * k = s.video.memStart + 2 * r + 2 * (k - r) by omega]
      refine stosw_at ?_ ?_
      · change _ + 2 * s.video.numColumns < _
        omega
      · change _ < s.video.numColumns
        omega
  · next hin =>
    change ¬ s.video.memEnd < _ at hin
    have hdi : u32 (s.nextLine.scrEnd - s.nextLine.video.sizeRow) = s.scrEnd := by
      rw [hscr]
      change u32 (((s.scrEnd + s.video.sizeRow : ℕ) : ℤ) - s.video.sizeRow) = _
      refine u32_eq (by push_cast; ring) (by omega)
    unfold Con.clearLast
    rw [hdi]
    have hcell : ∀ u : Con, u.origin = s.nextLine.origin →
        u.cell k = u.mem (s.nextLine.origin + 2 * k) := fun u hu => by rw [cell, hu]
    rw [hcell _ (by rw [stosw_eq])]
    split
    · next hlt =>
      rw [stosw_off (by change _ + 2 * s.video.numColumns < _; omega) fun i _ => by omega]
      exact congrArg s.mem hmove.symm
    · next hlt =>
      rw [show s.nextLine.origin + 2 * k = s.scrEnd + 2 * (k - r) by omega]
      refine stosw_at ?_ ?_
      · change _ + 2 * s.video.numColumns < _
        omega
      · change _ < s.video.numColumns
        omega

/-- The screen is copied: the same. -/
theorem copyUp_cell (h : s.Ok) (heven : s.video.numColumns % 2 = 0) (htop : s.ctl.top = 0)
    (hbottom : s.ctl.bottom = s.video.numLines) (hk : k < s.cells) :
    s.copyUp.cell k =
      if k + s.video.numColumns < s.cells then s.cell (k + s.video.numColumns)
      else s.video.eraseChar := by
  obtain ⟨l, r, hl, hr, hlongs, hsize, hscr⟩ := h.regionLongs
  have hreven : r % 2 = 0 := by
    rw [hr, Nat.mul_mod, heven, Nat.mul_zero]
  have hcells := h.two_cells
  have hrow := h.row
  have hmem := h.memEnd
  have hend := h.scrEnd
  have hle := h.le
  rw [htop, Nat.mul_zero, hbottom, Nat.mul_comm] at hsize
  have hdi : u32 (s.origin + s.video.sizeRow * s.ctl.top) = s.origin := by
    rw [htop]
    exact u32_eq (by push_cast; ring) (by omega)
  have hsi : u32 (s.origin + s.video.sizeRow * (s.ctl.top + 1)) = s.origin + s.video.sizeRow := by
    rw [htop]
    exact u32_eq (by push_cast; ring) (by omega)
  have hclear : u32 (s.origin + 4 * (r / 2 : ℕ)) = s.origin + 2 * r :=
    u32_eq (by push_cast; omega) (by omega)
  have hcell : s.copyUp.cell k = s.copyUp.mem (s.origin + 2 * k) := by
    rw [cell, (h.copyUp).eq]
  rw [hcell]
  unfold Con.copyUp
  dsimp only
  rw [hdi, hsi, hlongs, hclear]
  split
  · next hin =>
    rw [stosw_off (by omega) fun i _ => by omega, movsl_at (by omega) (by omega) (by omega), cell]
    exact congrArg s.mem (by omega)
  · next hin =>
    rw [show s.origin + 2 * k = s.origin + 2 * r + 2 * (k - r) by omega]
    exact stosw_at (by omega) (by omega)

end Ok

/-! ### Two consoles that show the same -/

/-- **Two consoles show the same**, one that can move its origin and one that cannot. -/
structure Same (s t : Con) : Prop where
  moves : s.video.type.ega = true
  copies : t.video.type.ega = false
  even : s.video.numColumns % 2 = 0
  numColumns : t.video.numColumns = s.video.numColumns
  sizeRow : t.video.sizeRow = s.video.sizeRow
  numLines : t.video.numLines = s.video.numLines
  eraseChar : t.video.eraseChar = s.video.eraseChar
  ctl : t.ctl = s.ctl
  left : s.origin + 2 * s.cells < 0x100000000
  right : t.origin + 2 * s.cells < 0x100000000
  cell : ∀ k < s.cells, s.cell k = t.cell k

/-- Two addresses at the same distance from the origin. -/
structure Beside (s t : Con) (a b : ℕ) : Prop where
  left : a < 0x100000000
  right : b < 0x100000000
  eq : u32 (a - s.origin) = u32 (b - t.origin)

theorem Beside.of_eq {m n : ℤ} (h : u32 (m - s.origin) = u32 (n - t.origin)) :
    Beside s t (u32 m) (u32 n) := by
  refine ⟨u32_lt m, u32_lt n, ?_⟩
  rw [Int.sub_eq_add_neg, u32_add, Int.sub_eq_add_neg, u32_add]
  exact h

theorem Beside.add (h : Beside s t a b) (d : ℤ) : Beside s t (u32 (a + d)) (u32 (b + d)) := by
  refine .of_eq ?_
  have heq := h.eq
  unfold u32 at heq ⊢
  omega

/-- Stores leave the origin where it is. -/
theorem Beside.poke (h : Beside s t a b) (di di' : ℕ) (w : BitVec 16) :
    Beside (s.poke di w) (t.poke di' w) a b := ⟨h.left, h.right, h.eq⟩

theorem Beside.movsl (h : Beside s t a b) (dir : ℤ) (n di si di' si' : ℕ) :
    Beside (s.movsl dir n di si) (t.movsl dir n di' si') a b := by
  rw [movsl_eq, movsl_eq dir n di' si' t]
  exact ⟨h.left, h.right, h.eq⟩

namespace Same

/-- A cell of the screen and its address on the other console. -/
theorem address (h : Same s t) (hb : Beside s t a b) (hk : k < s.cells) :
    a = s.origin + 2 * k ↔ b = t.origin + 2 * k := by
  have heq := hb.eq
  have hs := h.left
  have ht := h.right
  have ha := hb.left
  have hb' := hb.right
  unfold u32 at heq
  omega

/-- What is read from the screen is the same. -/
theorem mem (h : Same s t) (hb : Beside s t a b) (hk : k < s.cells) (ha : a = s.origin + 2 * k) :
    s.mem a = t.mem b := by
  rw [(h.address hb hk).mp ha, ha]
  exact h.cell k hk

theorem poke (h : Same s t) (hb : Beside s t a b) (w : BitVec 16) :
    Same (s.poke a w) (t.poke b w) := by
  refine ⟨h.moves, h.copies, h.even, h.numColumns, h.sizeRow, h.numLines, h.eraseChar, h.ctl,
    h.left, h.right, fun k hk => ?_⟩
  change (s.poke a w).mem (s.origin + 2 * k) = (t.poke b w).mem (t.origin + 2 * k)
  have haddress := h.address hb hk
  by_cases ha : a = s.origin + 2 * k
  · rw [← ha, ← haddress.mp ha, mem_poke_self, mem_poke_self]
  · rw [mem_poke_of_ne (Ne.symm ha), mem_poke_of_ne (Ne.symm fun hb => ha (haddress.mpr hb))]
    exact h.cell k hk

theorem stosw (h : Same s t) (hb : Beside s t a b) (dir : ℤ) (w : BitVec 16) (n : ℕ) :
    Same (s.stosw dir w n a) (t.stosw dir w n b) := by
  induction n generalizing s t a b with
  | zero => exact h
  | succ n ih => exact ih (h.poke hb w) ((hb.add _).poke _ _ _)

/-- Longs are copied from the screen. -/
theorem movsl {dir : ℤ} {si si' di di' : ℕ} (h : Same s t) (hd : Beside s t di di')
    (hs : Beside s t si si') (hread : ∀ i < n, ∃ k, k + 1 < s.cells ∧
      u32 (si + 4 * dir * i) = s.origin + 2 * k) :
    Same (s.movsl dir n di si) (t.movsl dir n di' si') := by
  induction n generalizing s t di di' si si' with
  | zero => exact h
  | succ n ih =>
    obtain ⟨k, hk, hsi⟩ := hread 0 (Nat.succ_pos n)
    have hfirst : si = s.origin + 2 * k := by
      have := hs.left
      unfold u32 at hsi
      omega
    have hsecond : u32 (si + 2) = s.origin + 2 * (k + 1) := by
      have := h.left
      unfold u32
      omega
    rw [Con.movsl, Con.movsl, ← h.mem hs (by omega) hfirst, ← h.mem (hs.add 2) hk hsecond]
    refine ih ((h.poke hd _).poke ((hd.add 2).poke _ _ _) _) (((hd.add _).poke _ _ _).poke _ _ _)
      (((hs.add _).poke _ _ _).poke _ _ _) fun i hi => ?_
    obtain ⟨l, hl, hli⟩ := hread (i + 1) (Nat.succ_lt_succ hi)
    refine ⟨l, hl, ?_⟩
    rw [u32_add]
    refine Eq.trans (congrArg u32 ?_) hli
    push_cast
    ring

theorem insertFrom (h : Same s t) (hb : Beside s t a b) (ha : a = s.origin + 2 * k)
    (hn : k + n ≤ s.cells) (w : BitVec 16) : Same (s.insertFrom n a w) (t.insertFrom n b w) := by
  induction n generalizing s t a b k w with
  | zero => exact h
  | succ n ih =>
    have hnext : u32 (a + 2) = s.origin + 2 * (k + 1) := by
      have := h.left
      unfold u32
      omega
    rw [Con.insertFrom, Con.insertFrom, ← h.mem hb (by omega) ha]
    exact ih (h.poke hb w) ((hb.add 2).poke _ _ _) hnext (show k + 1 + n ≤ s.cells by omega) _

theorem deleteFrom (h : Same s t) (hb : Beside s t a b) (ha : a = s.origin + 2 * k)
    (hn : k + n < s.cells) : Same (s.deleteFrom n a) (t.deleteFrom n b) := by
  induction n generalizing s t a b k with
  | zero =>
    rw [Con.deleteFrom, Con.deleteFrom, h.eraseChar]
    exact h.poke hb _
  | succ n ih =>
    have hnext : u32 (a + 2) = s.origin + 2 * (k + 1) := by
      have := h.left
      unfold u32
      omega
    rw [Con.deleteFrom, Con.deleteFrom, ← h.mem (hb.add 2) (by omega) hnext]
    exact ih (h.poke hb _) ((hb.add 2).poke _ _ _) hnext (show k + 1 + n < s.cells by omega)

theorem ite {p q : Prop} [Decidable p] [Decidable q] (hpq : p ↔ q) (h : p → Same s t)
    (h' : ¬ p → Same s' t') : Same (if p then s else s') (if q then t else t') := by
  by_cases hp : p
  · rw [if_pos hp, if_pos (hpq.mp hp)]
    exact h hp
  · rw [if_neg hp, if_neg fun hq => hp (hpq.mpr hq)]
    exact h' hp

/-- The control state becomes the same, wherever the cursor goes. -/
theorem setCtl (h : Same s t) (c : Ctl) (p q : ℕ) :
    Same { s with ctl := c, pos := p } { t with ctl := c, pos := q } :=
  ⟨h.moves, h.copies, h.even, h.numColumns, h.sizeRow, h.numLines, h.eraseChar, rfl, h.left,
    h.right, h.cell⟩

/-- Both consoles change, but not what they are. -/
theorem of (h : Same s t) (hs : s'.Ok) (ht : t'.Ok) (hsv : s'.video = s.video)
    (htv : t'.video = t.video) (hctl : t'.ctl = s'.ctl)
    (hcell : ∀ k < s.cells, s'.cell k = t'.cell k) : Same s' t' := by
  have hcells : s'.cells = s.cells := by rw [cells, cells, hsv]
  have htcells : t'.cells = s.cells := by
    rw [cells, cells, htv, h.numLines, h.numColumns]
  refine ⟨?_, ?_, ?_, ?_, ?_, ?_, ?_, hctl, ?_, ?_, ?_⟩
  · rw [hsv]
    exact h.moves
  · rw [htv]
    exact h.copies
  · rw [hsv]
    exact h.even
  · rw [hsv, htv]
    exact h.numColumns
  · rw [hsv, htv]
    exact h.sizeRow
  · rw [hsv, htv]
    exact h.numLines
  · rw [hsv, htv]
    exact h.eraseChar
  · exact hcells ▸ hs.low
  · rw [hcells, ← htcells]
    exact ht.low
  · rw [hcells]
    exact hcell

end Same

/-- **Two consoles in order that show the same.** -/
structure Twins (s t : Con) : Prop where
  left : s.Ok
  right : t.Ok
  same : Same s t

namespace Twins

theorem stays (h : Same s' t') (hs : Stays s s') (ht : Stays t t') : Twins s' t' :=
  ⟨hs.ok, ht.ok, h⟩

theorem pos (h : Twins s t) : Beside s t s.pos t.pos := by
  rw [h.left.pos, h.right.pos, h.same.ctl, h.same.sizeRow]
  refine .of_eq (congrArg u32 ?_)
  ring

/-! ### Scrolling and drawing -/

theorem regionLongs (h : Twins s t) : t.regionLongs = s.regionLongs := by
  rw [Con.regionLongs, Con.regionLongs, h.same.ctl, h.same.numColumns]

/-- A line of the region begins at the same distance from the origin. -/
theorem line (_ : Twins s t) (d : ℤ) : Beside s t (u32 (s.origin + d)) (u32 (t.origin + d)) := by
  refine .of_eq (congrArg u32 ?_)
  ring

/-- The region, in cells: `c` are above it, and `2 * n` are copied. -/
theorem region (h : Twins s t) : ∃ c n, s.regionLongs = n ∧
    s.video.sizeRow * s.ctl.top = 2 * c ∧
    s.video.sizeRow * s.ctl.bottom = 2 * (c + 2 * n + s.video.numColumns) ∧
    c + 2 * n + s.video.numColumns ≤ s.cells := by
  obtain ⟨l, r, hl, hr, hlongs, hsize, hle⟩ := h.left.regionLongs
  have hreven : r % 2 = 0 := by
    rw [hr, Nat.mul_mod, h.same.even, Nat.mul_zero]
  have hcells := h.left.two_cells
  have hend := h.left.scrEnd
  have hrow := h.left.row
  have htop : s.video.sizeRow * s.ctl.top = 2 * (s.video.numColumns * s.ctl.top) := by
    rw [hrow, Nat.mul_assoc]
  exact ⟨s.video.numColumns * s.ctl.top, r / 2, hlongs, htop, by omega, by omega⟩

theorem copyUp (h : Twins s t) : Same s.copyUp t.copyUp := by
  obtain ⟨c, n, hlongs, htop, -, hle⟩ := h.region
  have hrow := h.left.row
  have hlow := h.same.left
  have hfrom : (s.video.sizeRow : ℤ) * (s.ctl.top + 1) = 2 * c + 2 * s.video.numColumns := by
    rw [mul_add, mul_one]
    omega
  unfold Con.copyUp
  dsimp only
  rw [h.regionLongs, h.same.ctl, h.same.sizeRow, h.same.eraseChar, h.same.numColumns, hlongs]
  refine (h.same.movsl (h.line _) (h.line _) fun i hi => ?_).stosw
    (((h.line _).add _).movsl ..) _ _ _
  refine ⟨c + s.video.numColumns + 2 * i, by omega, ?_⟩
  rw [u32_add, hfrom]
  exact u32_eq (by push_cast; ring) (by omega)

theorem scrdown (h : Twins s t) : Same s.scrdown t.scrdown := by
  obtain ⟨c, n, hlongs, htop, hbottom, hle⟩ := h.region
  have hrow := h.left.row
  have hlow := h.same.left
  have hfrom : (s.video.sizeRow : ℤ) * (s.ctl.bottom - 1) = 2 * c + 4 * n := by
    rw [mul_sub, mul_one]
    omega
  unfold Con.scrdown
  dsimp only
  rw [h.regionLongs, h.same.ctl, h.same.sizeRow, h.same.eraseChar, h.same.numColumns, hlongs]
  simp only [add_sub_assoc, sub_add_eq_add_sub]
  refine (h.same.movsl (h.line _) (h.line _) fun i hi => ?_).stosw
    (((h.line _).add _).movsl ..) _ _ _
  refine ⟨c + 2 * n - 2 - 2 * i, by omega, ?_⟩
  rw [u32_add, hfrom]
  exact u32_eq (by push_cast; omega) (by omega)

/-- **The two ways to scroll show the same.** -/
theorem scrup (h : Twins s t) : Same s.scrup t.scrup := by
  have hnot : ¬ t.video.type.ega = true := by
    rw [h.same.copies]
    exact Bool.false_ne_true
  unfold Con.scrup
  rw [if_pos h.same.moves, if_neg hnot]
  split
  · next hscreen =>
    have hmove := h.left.moveOrigin
    have hcopy := h.right.draws h.right.copyUp
    have htcells : t.cells = s.cells := by
      rw [cells, cells, h.same.numLines, h.same.numColumns]
    refine h.same.of hmove.ok hcopy.ok hmove.video hcopy.video ?_ fun k hk => ?_
    · rw [hcopy.ctl, hmove.ctl]
      exact h.same.ctl
    · have heven : t.video.numColumns % 2 = 0 := by
        rw [h.same.numColumns]
        exact h.same.even
      rw [h.left.moveOrigin_cell h.same.even hk, h.right.copyUp_cell heven, htcells,
        h.same.numColumns, h.same.eraseChar]
      · split
        · next hin => exact h.same.cell _ hin
        · rfl
      · rw [h.same.ctl]
        exact hscreen.1
      · rw [h.same.ctl, h.same.numLines]
        exact hscreen.2
      · rw [htcells]
        exact hk
  · exact h.copyUp

theorem csiJ (h : Twins s t) (par : ℕ) : Same (s.csiJ par) (t.csiJ par) := by
  have horigin : Beside s t s.origin t.origin := by
    refine ⟨by have := h.same.left; omega, by have := h.same.right; omega, congrArg u32 ?_⟩
    ring
  have hpos := h.pos
  have hend : u32 ((t.scrEnd : ℤ) - t.pos) = u32 ((s.scrEnd : ℤ) - s.pos) := by
    have heq := hpos.eq
    rw [h.left.scrEnd, h.right.scrEnd, h.same.numLines, h.same.sizeRow]
    unfold u32 at heq ⊢
    omega
  unfold Con.csiJ
  rw [h.same.eraseChar, h.same.numColumns, h.same.numLines, hend, ← hpos.eq]
  refine .ite Iff.rfl (fun _ => h.same.stosw hpos _ _ _) fun _ => ?_
  refine .ite Iff.rfl (fun _ => h.same.stosw horigin _ _ _) fun _ => ?_
  exact .ite Iff.rfl (fun _ => h.same.stosw horigin _ _ _) fun _ => h.same

theorem csiK (h : Twins s t) (par : ℕ) : Same (s.csiK par) (t.csiK par) := by
  have hline : Beside s t (u32 (s.pos - 2 * s.ctl.x)) (u32 (t.pos - 2 * s.ctl.x)) := by
    rw [Int.sub_eq_add_neg, Int.sub_eq_add_neg]
    exact h.pos.add _
  unfold Con.csiK
  rw [h.same.eraseChar, h.same.numColumns, h.same.ctl]
  refine .ite Iff.rfl (fun _ => ?_) fun _ => ?_
  · exact .ite Iff.rfl (fun _ => h.same) fun _ => h.same.stosw h.pos _ _ _
  · refine .ite Iff.rfl (fun _ => h.same.stosw hline _ _ _) fun _ => ?_
    exact .ite Iff.rfl (fun _ => h.same.stosw hline _ _ _) fun _ => h.same

/-- The cell of the cursor, if it is not beyond the last column. -/
theorem cursor (h : Twins s t) (hx : s.ctl.x ≤ s.video.numColumns) : ∃ k, s.pos = s.origin + 2 * k ∧
    k + (s.video.numColumns - s.ctl.x) ≤ s.cells := by
  obtain ⟨hpos, hle⟩ := h.left.pos_eq hx
  have hcells := h.left.two_cells
  have hend := h.left.scrEnd
  have hrow : s.ctl.y * s.video.sizeRow = 2 * (s.ctl.y * s.video.numColumns) := by
    rw [h.left.row]
    ring
  exact ⟨s.ctl.y * s.video.numColumns + s.ctl.x, by omega, by omega⟩

theorem insertChar (h : Twins s t) : Same s.insertChar t.insertChar := by
  unfold Con.insertChar
  rw [h.same.eraseChar, h.same.numColumns, h.same.ctl]
  rcases Nat.le_total s.ctl.x s.video.numColumns with hx | hx
  · obtain ⟨k, hk, hle⟩ := h.cursor hx
    exact h.same.insertFrom h.pos hk hle _
  · rw [Nat.sub_eq_zero_of_le hx]
    exact h.same

theorem deleteChar (h : Twins s t) : Same s.deleteChar t.deleteChar := by
  unfold Con.deleteChar
  rw [h.same.numColumns, h.same.ctl]
  refine .ite Iff.rfl (fun _ => h.same) fun hx => ?_
  obtain ⟨k, hk, hle⟩ := h.cursor (Nat.le_of_not_le hx)
  exact h.same.deleteFrom h.pos hk (by omega)

/-! ### The cursor -/

theorem gotoxy (h : Twins s t) (x y : ℕ) : Twins (s.gotoxy x y) (t.gotoxy x y) := by
  refine stays ?_ (h.left.gotoxy x y) (h.right.gotoxy x y)
  unfold Con.gotoxy
  rw [h.same.numColumns, h.same.numLines, h.same.ctl]
  exact .ite Iff.rfl (fun _ => h.same) fun _ => h.same.setCtl _ _ _

theorem lf (h : Twins s t) : Twins s.lf t.lf := by
  refine stays ?_ h.left.lf h.right.lf
  unfold Con.lf
  rw [h.same.ctl]
  exact .ite Iff.rfl (fun _ => h.same.setCtl _ _ _) fun _ => h.scrup

theorem ri (h : Twins s t) : Twins s.ri t.ri := by
  refine stays ?_ h.left.ri h.right.ri
  unfold Con.ri
  rw [h.same.ctl]
  exact .ite Iff.rfl (fun _ => h.same.setCtl _ _ _) fun _ => h.scrdown

theorem cr (h : Twins s t) : Twins s.cr t.cr := by
  refine stays ?_ h.left.cr h.right.cr
  unfold Con.cr
  rw [h.same.ctl]
  exact h.same.setCtl _ _ _

theorem back (h : Twins s t) (hx : s.ctl.x ≠ 0) : Twins s.back t.back := by
  refine stays ?_ (h.left.back hx) (h.right.back (h.same.ctl ▸ hx))
  unfold Con.back
  rw [h.same.ctl]
  exact h.same.setCtl _ _ _

theorem del (h : Twins s t) : Twins s.del t.del := by
  refine stays ?_ h.left.del h.right.del
  unfold Con.del
  rw [h.same.ctl, h.same.eraseChar]
  refine .ite Iff.rfl (fun hx => ?_) fun _ => h.same
  exact (h.back hx).same.poke (h.back hx).pos _

/-- A line is taken off. -/
theorem wrapLine (h : Twins s t) {x p q : ℕ} (hx : s.video.numColumns ≤ x)
    (hlt : x < 0x100000000) (hle : 8 ≤ s.video.numColumns → x ≤ 2 * s.video.numColumns)
    (hp : p = u32 (s.origin + s.ctl.y * s.video.sizeRow + 2 * x))
    (hq : q = u32 (t.origin + t.ctl.y * t.video.sizeRow + 2 * x)) :
    Twins (Con.wrapLine { s with ctl := { s.ctl with x := x }, pos := p })
      (Con.wrapLine { t with ctl := { s.ctl with x := x }, pos := q }) := by
  have hs := h.left.wrapped hx hlt hle hp
  have ht := h.right.wrapped (h.same.numColumns ▸ hx) hlt (h.same.numColumns ▸ hle) hq
  have hwrapped : Same _ _ := h.same.setCtl
    { s.ctl with x := u32 ((x : ℤ) - s.video.numColumns) }
    (u32 ((p : ℤ) - s.video.sizeRow)) (u32 ((q : ℤ) - t.video.sizeRow))
  rw [h.same.numColumns, h.same.ctl] at ht
  have htwins := (Twins.mk hs ht hwrapped).lf
  unfold Con.wrapLine
  dsimp only
  rw [h.same.numColumns]
  exact htwins

/-- The cursor is on its line again. -/
theorem wrap (h : Twins s t) :
    Twins (if s.video.numColumns ≤ s.ctl.x then s.wrapLine else s)
      (if t.video.numColumns ≤ t.ctl.x then t.wrapLine else t) := by
  by_cases hx : s.video.numColumns ≤ s.ctl.x
  · have hx' : t.video.numColumns ≤ t.ctl.x := by
      rw [h.same.numColumns, h.same.ctl]
      exact hx
    have heq : t.wrapLine = Con.wrapLine { t with ctl := s.ctl } := by
      rw [← h.same.ctl]
    have hq := h.right.pos
    rw [h.same.ctl] at hq
    rw [if_pos hx, if_pos hx', heq]
    refine h.wrapLine (x := s.ctl.x) (p := s.pos) (q := t.pos) hx h.left.xLt (fun hc => ?_)
      h.left.pos ?_
    · have := h.left.x hc
      omega
    · rw [h.same.ctl]
      exact hq
  · have hx' : ¬ t.video.numColumns ≤ t.ctl.x := by
      rw [h.same.numColumns, h.same.ctl]
      exact hx
    rw [if_neg hx, if_neg hx']
    exact h

theorem putChar (h : Twins s t) (c : BitVec 8) : Twins (s.putChar c) (t.putChar c) := by
  refine stays ?_ (h.left.putChar c) (h.right.putChar c)
  have hwrap := h.wrap
  unfold Con.putChar
  dsimp only
  obtain ⟨u, hu⟩ : ∃ u, u = if s.video.numColumns ≤ s.ctl.x then s.wrapLine else s := ⟨_, rfl⟩
  obtain ⟨v, hv⟩ : ∃ v, v = if t.video.numColumns ≤ t.ctl.x then t.wrapLine else t := ⟨_, rfl⟩
  rw [← hu, ← hv] at hwrap ⊢
  have hpoke := hwrap.same.poke hwrap.pos (u.ctl.attr ++ c)
  rw [hwrap.same.ctl, hpoke.ctl]
  exact hpoke.setCtl _ _ _

theorem tab (h : Twins s t) : Twins s.tab t.tab := by
  refine stays ?_ h.left.tab h.right.tab
  have hlt := h.left.numColumns_lt
  have hp := h.left.pos_right (8 - s.ctl.x % 8)
  have hq := h.right.pos_right (8 - s.ctl.x % 8)
  rw [h.same.ctl] at hq
  unfold Con.tab
  dsimp only
  rw [h.same.ctl, h.same.numColumns]
  refine .ite Iff.rfl (fun hx => ?_) fun _ => h.same.setCtl _ _ _
  refine (h.wrapLine (Nat.le_of_lt hx) (u32_lt _) (fun hc => ?_) hp ?_).same
  · have := h.left.x hc
    have hword : u32 (s.ctl.x + (8 - s.ctl.x % 8 : ℕ)) = s.ctl.x + (8 - s.ctl.x % 8) :=
      u32_eq (by push_cast; rfl) (by omega)
    omega
  · rw [h.same.ctl]
    exact hq

/-! ### Commands -/

theorem iterate (h : Twins s t) {f : Con → Con}
    (hf : ∀ u v : Con, Twins u v → Twins (f u) (f v)) (n : ℕ) : Twins (f^[n] s) (f^[n] t) := by
  induction n with
  | zero => exact h
  | succ n ih =>
    rw [Function.iterate_succ_apply', Function.iterate_succ_apply']
    exact hf _ _ ih

theorem fromCursor (h : Twins s t) {scroll : Con → Con}
    (hkeeps : ∀ u : Con, u.Ok → Keeps u (scroll u))
    (hscroll : ∀ u v : Con, Twins u v → Same (scroll u) (scroll v)) :
    Twins (s.fromCursor scroll) (t.fromCursor scroll) := by
  refine stays ?_ (h.left.fromCursor hkeeps) (h.right.fromCursor hkeeps)
  have hs := h.left.setCtl (c := { s.ctl with top := s.ctl.y, bottom := s.video.numLines }) rfl rfl
    h.left.y (Nat.le_refl _) h.left.npar
  have ht := h.right.setCtl (c := { t.ctl with top := t.ctl.y, bottom := t.video.numLines }) rfl rfl
    h.right.y (Nat.le_refl _) h.right.npar
  unfold Con.fromCursor
  dsimp only
  rw [h.same.ctl, h.same.numLines] at ht ⊢
  have hset := h.same.setCtl { s.ctl with top := s.ctl.y, bottom := s.video.numLines } s.pos t.pos
  have hsame := hscroll _ _ (stays hset hs ht)
  rw [hsame.ctl]
  exact hsame.setCtl _ _ _

theorem insertLine (h : Twins s t) : Twins s.insertLine t.insertLine :=
  h.fromCursor (fun _ hu => hu.draws hu.scrdown) fun _ _ huv => huv.scrdown

theorem deleteLine (h : Twins s t) : Twins s.deleteLine t.deleteLine :=
  h.fromCursor (fun _ hu => hu.scrup) fun _ _ huv => huv.scrup

/-- What only draws. -/
theorem draws (h : Twins s t) (hs : Draws s s') (ht : Draws t t') (hsame : Same s' t') :
    Twins s' t' := stays hsame (h.left.stays hs) (h.right.stays ht)

theorem csiAt (h : Twins s t) (nr : ℕ) : Twins (s.csiAt nr) (t.csiAt nr) := by
  unfold Con.csiAt
  rw [h.same.numColumns]
  exact h.iterate (fun _ _ hu => hu.draws hu.left.insertChar hu.right.insertChar hu.insertChar) _

theorem csiL (h : Twins s t) (nr : ℕ) : Twins (s.csiL nr) (t.csiL nr) := by
  unfold Con.csiL
  rw [h.same.numLines]
  exact h.iterate (fun _ _ hu => hu.insertLine) _

theorem csiP (h : Twins s t) (nr : ℕ) : Twins (s.csiP nr) (t.csiP nr) := by
  unfold Con.csiP
  rw [h.same.numColumns]
  exact h.iterate (fun _ _ hu => hu.draws hu.left.deleteChar hu.right.deleteChar hu.deleteChar) _

theorem csiM (h : Twins s t) (nr : ℕ) : Twins (s.csiM nr) (t.csiM nr) := by
  unfold Con.csiM
  rw [h.same.numLines]
  exact h.iterate (fun _ _ hu => hu.deleteLine) _

/-! ### The state of the escape sequence -/

theorem setState (h : Twins s t) (n : ℕ) : Twins (s.setState n) (t.setState n) := by
  refine stays ?_ (h.left.setState n) (h.right.setState n)
  unfold Con.setState
  rw [h.same.ctl]
  exact h.same.setCtl _ _ _

theorem setPar (h : Twins s t) (i v : ℕ) : Twins (s.setPar i v) (t.setPar i v) := by
  refine stays ?_ (h.left.setPar i v) (h.right.setPar i v)
  unfold Con.setPar
  rw [h.same.ctl]
  exact h.same.setCtl _ _ _

/-- One of two things is done, and the same on both. -/
theorem ite {p : Prop} [Decidable p] (h : Twins s t) (h' : Twins s' t') :
    Twins (if p then s else s') (if p then t else t') := by
  split
  · exact h
  · exact h'

theorem decPar (h : Twins s t) (i : ℕ) : Twins (s.decPar i) (t.decPar i) := by
  unfold Con.decPar
  rw [h.same.ctl]
  exact (h.setPar _ _).ite h

theorem incPar (h : Twins s t) : Twins s.incPar t.incPar := by
  unfold Con.incPar
  rw [h.same.ctl]
  exact (h.setPar _ _).ite h

theorem csim (h : Twins s t) : Twins s.csim t.csim := by
  refine stays ?_ h.left.csim h.right.csim
  unfold Con.csim
  rw [h.same.ctl]
  exact h.same.setCtl _ _ _

theorem saveCur (h : Twins s t) : Twins s.saveCur t.saveCur := by
  refine stays ?_ h.left.saveCur h.right.saveCur
  unfold Con.saveCur
  rw [h.same.ctl]
  exact h.same.setCtl _ _ _

theorem restoreCur (h : Twins s t) : Twins s.restoreCur t.restoreCur := by
  unfold Con.restoreCur
  rw [h.same.ctl]
  exact h.gotoxy _ _

theorem setRegion (h : Twins s t) : Twins s.setRegion t.setRegion := by
  refine stays ?_ h.left.setRegion h.right.setRegion
  unfold Con.setRegion
  dsimp only
  have hdec := h.decPar 0
  have hset : Twins (if (s.decPar 0).ctl.par 1 = 0
        then (s.decPar 0).setPar 1 (s.decPar 0).video.numLines else s.decPar 0)
      (if (t.decPar 0).ctl.par 1 = 0
        then (t.decPar 0).setPar 1 (t.decPar 0).video.numLines else t.decPar 0) := by
    rw [hdec.same.ctl, hdec.same.numLines]
    exact (hdec.setPar _ _).ite hdec
  obtain ⟨u, hu⟩ : ∃ u, u = if (s.decPar 0).ctl.par 1 = 0
    then (s.decPar 0).setPar 1 (s.decPar 0).video.numLines else s.decPar 0 := ⟨_, rfl⟩
  obtain ⟨v, hv⟩ : ∃ v, v = if (t.decPar 0).ctl.par 1 = 0
    then (t.decPar 0).setPar 1 (t.decPar 0).video.numLines else t.decPar 0 := ⟨_, rfl⟩
  rw [← hu, ← hv] at hset ⊢
  rw [hset.same.ctl, hset.same.numLines]
  exact .ite Iff.rfl (fun _ => hset.same.setCtl _ _ _) fun _ => hset.same

theorem move (h : Twins s t) (f : Ctl → ℤ × ℤ) : Twins (s.move f) (t.move f) := by
  unfold Con.move
  rw [h.same.ctl]
  exact h.gotoxy _ _

/-! ### Bytes -/

theorem plain (h : Twins s t) (erase c : BitVec 8) : Twins (s.plain erase c) (t.plain erase c) := by
  unfold Con.plain
  refine (h.putChar c).ite ((h.setState 1).ite (h.lf.ite (h.cr.ite (h.del.ite ?_))))
  refine ite ?_ (h.tab.ite h)
  rw [h.same.ctl]
  split
  · next hx => exact h.back hx
  · exact h

theorem escape (h : Twins s t) (c : ℤ) : Twins (s.escape c) (t.escape c) := by
  have h₀ := h.setState 0
  unfold Con.escape
  dsimp only
  rw [h₀.same.ctl]
  exact (h₀.setState 2).ite ((h₀.gotoxy _ _).ite (h₀.ri.ite (h₀.lf.ite (h₀.ite
    (h₀.saveCur.ite (h₀.restoreCur.ite h₀))))))

theorem command (h : Twins s t) (c : ℤ) : Twins (s.command c) (t.command c) := by
  have h₀ := h.setState 0
  have hdec := h₀.decPar 0
  have hinc := h₀.incPar
  unfold Con.command
  dsimp only
  refine (hdec.move _).ite ?_
  refine (hinc.move _).ite ?_
  refine (hinc.move _).ite ?_
  refine (hinc.move _).ite ?_
  refine (hinc.move _).ite ?_
  refine (hinc.move _).ite ?_
  refine (hinc.move _).ite ?_
  refine (hdec.move _).ite ?_
  refine ((hdec.decPar 1).move _).ite ?_
  rw [h₀.same.ctl]
  refine (h₀.draws (h₀.left.csiJ _) (h₀.right.csiJ _) (h₀.csiJ _)).ite ?_
  refine (h₀.draws (h₀.left.csiK _) (h₀.right.csiK _) (h₀.csiK _)).ite ?_
  refine (h₀.csiL _).ite ?_
  refine (h₀.csiM _).ite ?_
  refine (h₀.csiP _).ite ?_
  refine (h₀.csiAt _).ite ?_
  refine h₀.csim.ite ?_
  exact h₀.setRegion.ite (h₀.saveCur.ite (h₀.restoreCur.ite h₀))

theorem params (h : Twins s t) (c : ℤ) : Twins (s.params c) (t.params c) := by
  refine stays ?_ (h.left.params c) (h.right.params c)
  unfold Con.params
  rw [h.same.ctl]
  refine .ite Iff.rfl (fun _ => h.same.setCtl _ _ _) fun _ => ?_
  exact .ite Iff.rfl (fun _ => (h.setPar _ _).same) fun _ => ((h.setState 4).command c).same

theorem clearParams (h : Twins s t) (c : ℤ) : Twins (s.clearParams c) (t.clearParams c) := by
  unfold Con.clearParams
  dsimp only
  rw [h.same.ctl]
  have hclear : Twins _ _ := stays (h.same.setCtl _ s.pos t.pos)
    (h.left.setCtl (c := { s.ctl with
      par := fun i => if i < nPar then 0 else s.ctl.par i
      npar := 0
      state := 3
      ques := decide (c = ch '?') }) rfl rfl h.left.top h.left.bottom (show 0 < nPar by decide))
    (h.right.setCtl (congrArg Ctl.x h.same.ctl).symm (congrArg Ctl.y h.same.ctl).symm h.left.top
      (h.same.numLines ▸ h.left.bottom) (show 0 < nPar by decide))
  exact hclear.ite (hclear.params c)

theorem conChar (h : Twins s t) (erase c : BitVec 8) :
    Twins (s.conChar erase c) (t.conChar erase c) := by
  unfold Con.conChar
  rw [h.same.ctl]
  exact (h.plain erase c).ite ((h.escape _).ite ((h.clearParams _).ite ((h.params _).ite
    ((h.command _).ite h))))

/-- **They go on to show the same**, whatever is written to both. -/
theorem conWrite (h : Twins s t) (bytes : List (BitVec 8 × BitVec 8)) :
    Twins (s.conWrite bytes) (t.conWrite bytes) := by
  induction bytes generalizing s t with
  | nil => exact h
  | cons b bytes ih => exact ih (h.conChar b.1 b.2)

end Twins

/-- **Moving the origin cannot be seen**: two consoles in order, of an even number of columns, one
that can move its origin and one that cannot, stay equal in their cells and in their control
state, whatever is written to both. -/
theorem hardware_scroll (hs : s.Ok) (ht : t.Ok) (hmoves : s.video.type.ega = true)
    (hcopies : t.video.type.ega = false) (heven : s.video.numColumns % 2 = 0)
    (hcolumns : t.video.numColumns = s.video.numColumns)
    (hlines : t.video.numLines = s.video.numLines)
    (herase : t.video.eraseChar = s.video.eraseChar) (hctl : t.ctl = s.ctl)
    (hcell : ∀ k < s.video.numLines * s.video.numColumns, s.cell k = t.cell k)
    (bytes : List (BitVec 8 × BitVec 8)) :
    (t.conWrite bytes).ctl = (s.conWrite bytes).ctl ∧
      ∀ k < s.video.numLines * s.video.numColumns,
        (s.conWrite bytes).cell k = (t.conWrite bytes).cell k := by
  have hrow : t.video.sizeRow = s.video.sizeRow := by rw [hs.row, ht.row, hcolumns]
  have htcells : t.cells = s.cells := by rw [cells, cells, hlines, hcolumns]
  have hslow := hs.low
  have htlow := ht.low
  rw [htcells] at htlow
  have htwins : Twins s t := ⟨hs, ht, hmoves, hcopies, heven, hcolumns, hrow, hlines, herase, hctl,
    hslow, htlow, hcell⟩
  have hsame := (htwins.conWrite bytes).same
  have hvideo : (s.conWrite bytes).cells = s.cells := by
    rw [cells, cells, (hs.conWrite bytes).video]
  exact ⟨hsame.ctl, fun k hk => hsame.cell k (hvideo ▸ hk)⟩

/-- A blank screen. -/
def blank (b : Setup) : Con := { conInit b fun _ => 0 with mem := fun _ => 0x0720#16 }

theorem blank_ok (b : Setup) (hx : b.x.toNat < b.video.numColumns)
    (hy : b.y.toNat < b.video.numLines)
    (hfits : b.video.memStart + b.video.numLines * b.video.sizeRow ≤ b.video.memEnd) :
    (blank b).Ok := by
  have hdraws : Draws (conInit b fun _ => 0) (blank b) := ⟨rfl, fun _ _ ha => Or.inl ha⟩
  exact ((b.ok _ hx hy hfits).draws hdraws).ok

theorem blank_ctl (b : Setup) (hx : b.x.toNat < b.video.numColumns)
    (hy : b.y.toNat < b.video.numLines) : (blank b).ctl =
      ⟨b.x.toNat, b.y.toNat, 0, 25, 0, 0, fun _ => 0, false, 0x07#8, 0, 0⟩ := by
  unfold blank
  rw [conInit_eq b _ hx hy]
  rfl

theorem blank_video (b : Setup) (hx : b.x.toNat < b.video.numColumns)
    (hy : b.y.toNat < b.video.numLines) : (blank b).video = b.video := by
  unfold blank
  rw [conInit_eq b _ hx hy]
  rfl

/-- Two blank screens, and a line feed on the last line. -/
theorem hardware_scroll_blank :
    ((blank ⟨false, false, 80, 0, 24⟩).conWrite [(127, 10)]).ctl =
      ((blank ⟨false, true, 80, 0, 24⟩).conWrite [(127, 10)]).ctl := by
  have hs := blank_video ⟨false, true, 80, 0, 24⟩ (by decide) (by decide)
  have ht := blank_video ⟨false, false, 80, 0, 24⟩ (by decide) (by decide)
  have hctl : (blank ⟨false, false, 80, 0, 24⟩).ctl = (blank ⟨false, true, 80, 0, 24⟩).ctl :=
    (blank_ctl _ (by decide) (by decide)).trans (blank_ctl _ (by decide) (by decide)).symm
  refine (hardware_scroll (blank_ok _ (by decide) (by decide) (by decide))
    (blank_ok _ (by decide) (by decide) (by decide)) ?_ ?_ ?_ ?_ ?_ ?_ hctl (fun _ _ => rfl) _).1
  all_goals first | rw [hs, ht] | rw [hs] | rw [ht]
  all_goals rfl

end Linux011.Console.Con

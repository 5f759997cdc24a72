import Linux011.Console.Screen
import Linux011.Lib.Run

/-!
# The console stays inside video memory

`pos` is kept beside the cursor by every function that moves one of them, and `scr_end` beside
`origin`. What they have to be is `Linux011.Console.Con.Ok`, which every byte written keeps
(`Linux011.Console.Con.Ok.conChar`). That the cursor stays on its line, and the stores inside
video memory, needs a line of at least 8 columns: a tab may move the cursor on by 8, and only
one line is taken off.
-/

namespace Linux011.Console

/-! ### Words -/

theorem u32_eq {n : ℤ} {m : ℕ} (h : n = m) (hlt : m < 0x100000000) : u32 n = m := by
  unfold u32
  omega

theorem u32_lt (n : ℤ) : u32 n < 0x100000000 := by
  unfold u32
  omega

/-- What is added to a word that has been cut may be added before. -/
theorem u32_add (m n : ℤ) : u32 (u32 m + n) = u32 (m + n) := by
  unfold u32
  omega

/-! ### What the functions keep -/

namespace Con

/-- **The console is in order**, but that the screen may end beyond video memory. -/
structure Laid (s : Con) : Prop where
  row : s.video.sizeRow = 2 * s.video.numColumns
  lines : s.video.numLines < 0x80000000
  fits : s.video.memStart + s.video.numLines * s.video.sizeRow ≤ s.video.memEnd
  memEnd : s.video.memEnd < 0x80000000
  start : s.video.memStart ≤ s.origin
  scrEnd : s.scrEnd = s.origin + s.video.numLines * s.video.sizeRow
  scrEndLt : s.scrEnd < 0x100000000
  xLt : s.ctl.x < 0x100000000
  y : s.ctl.y < s.video.numLines
  top : s.ctl.top < s.ctl.bottom
  bottom : s.ctl.bottom ≤ s.video.numLines
  pos : s.pos = u32 (s.origin + s.ctl.y * s.video.sizeRow + 2 * s.ctl.x)
  npar : s.ctl.npar < nPar
  x : 8 ≤ s.video.numColumns → s.ctl.x ≤ s.video.numColumns
  inside : 8 ≤ s.video.numColumns → ∀ a ∈ s.stores, s.video.memStart ≤ a ∧ a + 2 ≤ s.video.memEnd

/-- **The console is in order.** -/
structure Ok (s : Con) : Prop extends Laid s where
  le : s.scrEnd ≤ s.video.memEnd

/-- **Only video memory changes**, and only in the screen. -/
structure Draws (s s' : Con) : Prop where
  eq : s' = { s with mem := s'.mem, stores := s'.stores }
  stores : 8 ≤ s.video.numColumns → ∀ a ∈ s'.stores, a ∈ s.stores ∨
    (s.origin ≤ a ∧ a + 2 ≤ s.scrEnd)

/-- **The screen changes**, and where it is; the control state does not. -/
structure Keeps (s s' : Con) : Prop where
  ok : s'.Ok
  video : s'.video = s.video
  ctl : s'.ctl = s.ctl

variable {s s' s'' : Con} {w : BitVec 16} {n di si p : ℕ}

theorem Draws.refl (s : Con) : Draws s s := ⟨rfl, fun _ _ ha => Or.inl ha⟩

theorem Draws.trans (h : Draws s s') (h' : Draws s' s'') : Draws s s'' := by
  have hv : s'.video = s.video ∧ s'.origin = s.origin ∧ s'.scrEnd = s.scrEnd := by
    rw [h.eq]
    exact ⟨rfl, rfl, rfl⟩
  refine ⟨?_, fun hc a ha => ?_⟩
  · rw [h'.eq, h.eq]
  · rcases h'.stores (hv.1 ▸ hc) a ha with ha | ha
    · exact h.stores hc a ha
    · rw [hv.2.1, hv.2.2] at ha
      exact Or.inr ha

theorem Ok.draws (h : s.Ok) (hd : Draws s s') : Keeps s s' := by
  have heq := hd.eq
  refine ⟨?_, by rw [heq], by rw [heq]⟩
  have hin : 8 ≤ s.video.numColumns → ∀ a ∈ s'.stores,
      s.video.memStart ≤ a ∧ a + 2 ≤ s.video.memEnd := by
    intro hc a ha
    rcases hd.stores hc a ha with ha | ⟨hle, hlt⟩
    · exact h.inside hc a ha
    · exact ⟨h.start.trans hle, hlt.trans h.le⟩
  rw [heq]
  exact ⟨⟨h.row, h.lines, h.fits, h.memEnd, h.start, h.scrEnd, h.scrEndLt, h.xLt, h.y, h.top,
    h.bottom, h.pos, h.npar, h.x, hin⟩, h.le⟩

/-! ### The string instructions -/

theorem stosw_eq (dir : ℤ) (w : BitVec 16) (n di : ℕ) (s : Con) :
    s.stosw dir w n di =
      { s with mem := (s.stosw dir w n di).mem, stores := (s.stosw dir w n di).stores } := by
  induction n generalizing di s with
  | zero => rfl
  | succ n ih =>
    rw [stosw]
    exact ih _ _

theorem movsl_eq (dir : ℤ) (n di si : ℕ) (s : Con) :
    s.movsl dir n di si =
      { s with mem := (s.movsl dir n di si).mem, stores := (s.movsl dir n di si).stores } := by
  induction n generalizing di si s with
  | zero => rfl
  | succ n ih =>
    rw [movsl]
    exact ih _ _ _

theorem insertFrom_eq (n p : ℕ) (w : BitVec 16) (s : Con) :
    s.insertFrom n p w =
      { s with mem := (s.insertFrom n p w).mem, stores := (s.insertFrom n p w).stores } := by
  induction n generalizing p w s with
  | zero => rfl
  | succ n ih =>
    rw [insertFrom]
    exact ih _ _ _

theorem deleteFrom_eq (n p : ℕ) (s : Con) :
    s.deleteFrom n p =
      { s with mem := (s.deleteFrom n p).mem, stores := (s.deleteFrom n p).stores } := by
  induction n generalizing p s with
  | zero => rfl
  | succ n ih =>
    rw [deleteFrom]
    exact ih _ _

/-- Upwards: from `di` on. -/
theorem mem_stosw {a : ℕ} (hn : di + 2 * n < 0x100000000) (ha : a ∈ (s.stosw 1 w n di).stores) :
    a ∈ s.stores ∨ (di ≤ a ∧ a + 2 ≤ di + 2 * n) := by
  induction n generalizing di s with
  | zero => exact Or.inl ha
  | succ n ih =>
    have hdi : u32 (di + 2 * 1) = di + 2 := by
      unfold u32
      omega
    rw [stosw, hdi] at ha
    rcases ih (by omega) ha with ha | ha
    · rcases List.mem_cons.mp ha with rfl | ha
      · exact Or.inr (by omega)
      · exact Or.inl ha
    · exact Or.inr (by omega)

/-- Downwards: from `di` on. -/
theorem mem_stosw_down {a : ℕ} (hdi : di < 0x100000000) (hn : 2 * n ≤ di + 2)
    (ha : a ∈ (s.stosw (-1) w n di).stores) :
    a ∈ s.stores ∨ (di + 2 ≤ a + 2 * n ∧ a ≤ di) := by
  induction n generalizing di s with
  | zero => exact Or.inl ha
  | succ n ih =>
    rw [stosw] at ha
    cases n with
    | zero =>
      rcases List.mem_cons.mp ha with rfl | ha
      · exact Or.inr (by omega)
      · exact Or.inl ha
    | succ n =>
      have hnext : u32 (di + 2 * -1) = di - 2 := by
        unfold u32
        omega
      rw [hnext] at ha
      rcases ih (by omega) (by omega) ha with ha | ha
      · rcases List.mem_cons.mp ha with rfl | ha
        · exact Or.inr (by omega)
        · exact Or.inl ha
      · exact Or.inr (by omega)

theorem mem_movsl {a : ℕ} (hn : di + 4 * n < 0x100000000)
    (ha : a ∈ (s.movsl 1 n di si).stores) :
    a ∈ s.stores ∨ (di ≤ a ∧ a + 2 ≤ di + 4 * n) := by
  induction n generalizing di si s with
  | zero => exact Or.inl ha
  | succ n ih =>
    have hdi : u32 (di + 4 * 1) = di + 4 := by
      unfold u32
      omega
    have hdi₂ : u32 (di + 2) = di + 2 := by
      unfold u32
      omega
    rw [movsl, hdi, hdi₂] at ha
    rcases ih (by omega) ha with ha | ha
    · rcases List.mem_cons.mp ha with rfl | ha
      · exact Or.inr (by omega)
      · rcases List.mem_cons.mp ha with rfl | ha
        · exact Or.inr (by omega)
        · exact Or.inl ha
    · exact Or.inr (by omega)

theorem mem_movsl_down {a : ℕ} (hdi : di + 2 < 0x100000000) (hn : 4 * n ≤ di + 4)
    (ha : a ∈ (s.movsl (-1) n di si).stores) :
    a ∈ s.stores ∨ (di + 4 ≤ a + 4 * n ∧ a ≤ di + 2) := by
  induction n generalizing di si s with
  | zero => exact Or.inl ha
  | succ n ih =>
    have hdi₂ : u32 (di + 2) = di + 2 := by
      unfold u32
      omega
    rw [movsl, hdi₂] at ha
    have hfirst : a ∈ ((s.poke di (s.mem si)).poke (di + 2) (s.mem (u32 (si + 2)))).stores →
        a ∈ s.stores ∨ (di + 4 ≤ a + 4 * (n + 1) ∧ a ≤ di + 2) := by
      intro ha
      rcases List.mem_cons.mp ha with rfl | ha
      · exact Or.inr (by omega)
      · rcases List.mem_cons.mp ha with rfl | ha
        · exact Or.inr (by omega)
        · exact Or.inl ha
    cases n with
    | zero => exact hfirst ha
    | succ n =>
      have hnext : u32 (di + 4 * -1) = di - 4 := by
        unfold u32
        omega
      rw [hnext] at ha
      rcases ih (by omega) (by omega) ha with ha | ha
      · exact hfirst ha
      · exact Or.inr (by omega)

theorem mem_insertFrom {a : ℕ} (hn : p + 2 * n < 0x100000000)
    (ha : a ∈ (s.insertFrom n p w).stores) :
    a ∈ s.stores ∨ (p ≤ a ∧ a + 2 ≤ p + 2 * n) := by
  induction n generalizing p w s with
  | zero => exact Or.inl ha
  | succ n ih =>
    have hp : u32 (p + 2) = p + 2 := by
      unfold u32
      omega
    rw [insertFrom, hp] at ha
    rcases ih (by omega) ha with ha | ha
    · rcases List.mem_cons.mp ha with rfl | ha
      · exact Or.inr (by omega)
      · exact Or.inl ha
    · exact Or.inr (by omega)

theorem mem_deleteFrom {a : ℕ} (hn : p + 2 * n + 2 < 0x100000000)
    (ha : a ∈ (s.deleteFrom n p).stores) :
    a ∈ s.stores ∨ (p ≤ a ∧ a + 2 ≤ p + 2 * n + 2) := by
  induction n generalizing p s with
  | zero =>
    rcases List.mem_cons.mp ha with rfl | ha
    · exact Or.inr (by omega)
    · exact Or.inl ha
  | succ n ih =>
    have hp : u32 (p + 2) = p + 2 := by
      unfold u32
      omega
    rw [deleteFrom, hp] at ha
    rcases ih (by omega) ha with ha | ha
    · rcases List.mem_cons.mp ha with rfl | ha
      · exact Or.inr (by omega)
      · exact Or.inl ha
    · exact Or.inr (by omega)

/-! ### Places on the screen -/

namespace Ok

/-- The end of a line, from its beginning. -/
theorem line_le (h : s.Ok) {k : ℕ} (hk : k < s.video.numLines) :
    s.origin + k * s.video.sizeRow + s.video.sizeRow ≤ s.scrEnd := by
  have := Nat.mul_le_mul_right s.video.sizeRow (Nat.succ_le_of_lt hk)
  rw [Nat.succ_mul] at this
  have := h.scrEnd
  omega

theorem scrEnd_lt (h : s.Ok) : s.scrEnd < 0x80000000 := Nat.lt_of_le_of_lt h.le h.memEnd

/-- The cursor, on a line that is long enough. -/
theorem pos_eq (h : s.Ok) (hx : s.ctl.x ≤ s.video.numColumns) :
    s.pos = s.origin + s.ctl.y * s.video.sizeRow + 2 * s.ctl.x ∧
      s.pos + 2 * (s.video.numColumns - s.ctl.x) ≤ s.scrEnd := by
  have hline := h.line_le h.y
  have hend := h.scrEnd_lt
  have hrow := h.row
  have hpos : s.pos = s.origin + s.ctl.y * s.video.sizeRow + 2 * s.ctl.x := by
    rw [h.pos]
    exact u32_eq (by push_cast; rfl) (by omega)
  omega

/-- The longs of the region, and where it begins and ends. -/
theorem regionLongs (h : s.Ok) : ∃ k r, s.ctl.bottom = s.ctl.top + k + 1 ∧
    r = k * s.video.numColumns ∧ s.regionLongs = r / 2 ∧
    s.video.sizeRow * s.ctl.bottom = s.video.sizeRow * s.ctl.top + 2 * r + s.video.sizeRow ∧
    s.origin + s.video.sizeRow * s.ctl.bottom ≤ s.scrEnd := by
  obtain ⟨k, hk⟩ : ∃ k, s.ctl.bottom = s.ctl.top + k + 1 := by
    obtain ⟨k, hk⟩ := Nat.exists_eq_add_of_lt h.top
    exact ⟨k, hk⟩
  have hmul : s.video.sizeRow * s.ctl.bottom =
      s.video.sizeRow * s.ctl.top + 2 * (k * s.video.numColumns) + s.video.sizeRow := by
    rw [hk, h.row]
    ring
  have hle : s.origin + s.video.sizeRow * s.ctl.bottom ≤ s.scrEnd := by
    rw [h.scrEnd, Nat.mul_comm]
    exact Nat.add_le_add_left (Nat.mul_le_mul_right _ h.bottom) _
  have hend := h.scrEnd_lt
  refine ⟨k, _, hk, rfl, ?_, hmul, hle⟩
  have hcast : ((s.ctl.bottom : ℤ) - s.ctl.top - 1) * s.video.numColumns =
      ((k * s.video.numColumns : ℕ) : ℤ) := by
    rw [hk]
    push_cast
    ring
  rw [Con.regionLongs, hcast]
  unfold u32
  omega

end Ok

/-! ### Drawing -/

namespace Ok

/-- Words are stored from `di` on, on the screen. -/
theorem stosw (_ : s.Ok) (hlt : s.scrEnd < 0x80000000) (hle : s.origin ≤ di)
    (hn : di + 2 * n ≤ s.scrEnd) : Draws s (s.stosw 1 w n di) := by
  refine ⟨stosw_eq 1 w n di s, fun _ a ha => ?_⟩
  rcases mem_stosw (by omega) ha with ha | ha
  · exact Or.inl ha
  · exact Or.inr (by omega)

theorem copyUp (h : s.Ok) : Draws s s.copyUp := by
  obtain ⟨k, r, hk, -, hlongs, hmul, hle⟩ := h.regionLongs
  have hlt := h.scrEnd_lt
  have hrow := h.row
  have hdi : u32 (s.origin + s.video.sizeRow * s.ctl.top) =
      s.origin + s.video.sizeRow * s.ctl.top := u32_eq (by push_cast; rfl) (by omega)
  have hdi₂ : u32 ((s.origin + s.video.sizeRow * s.ctl.top : ℕ) + 4 * (r / 2 : ℕ)) =
      s.origin + s.video.sizeRow * s.ctl.top + 4 * (r / 2) := u32_eq (by push_cast; rfl) (by omega)
  unfold Con.copyUp
  dsimp only
  rw [hdi, hlongs, hdi₂]
  obtain ⟨t, ht⟩ : ∃ t, t = s.movsl 1 (r / 2) (s.origin + s.video.sizeRow * s.ctl.top)
    (u32 (s.origin + s.video.sizeRow * (s.ctl.top + 1))) := ⟨_, rfl⟩
  have hmov : Draws s t := by
    rw [ht]
    refine ⟨movsl_eq _ _ _ _ s, fun _ a ha => ?_⟩
    rcases mem_movsl (by omega) ha with ha | ha
    · exact Or.inl ha
    · exact Or.inr (by omega)
  have hok := (h.draws hmov).ok
  have hv : t.video = s.video := (h.draws hmov).video
  have hend : t.origin = s.origin ∧ t.scrEnd = s.scrEnd := by
    rw [hmov.eq]
    exact ⟨rfl, rfl⟩
  rw [← ht]
  refine hmov.trans (hok.stosw ?_ ?_ ?_) <;> omega

theorem scrdown (h : s.Ok) : Draws s s.scrdown := by
  obtain ⟨k, r, hk, -, hlongs, hmul, hle⟩ := h.regionLongs
  have hlt := h.scrEnd_lt
  have hrow := h.row
  refine ⟨?_, fun hc a ha => ?_⟩
  · unfold Con.scrdown
    dsimp only
    rw [stosw_eq, movsl_eq]
  · have hdi : u32 (s.origin + s.video.sizeRow * s.ctl.bottom - 4) =
        s.origin + s.video.sizeRow * s.ctl.bottom - 4 := by
      refine u32_eq ?_ (by omega)
      rw [Nat.cast_sub (by omega)]
      push_cast
      rfl
    unfold Con.scrdown at ha
    dsimp only at ha
    rw [hdi, hlongs] at ha
    have hdi₂ : u32 ((s.origin + s.video.sizeRow * s.ctl.bottom - 4 : ℕ) - 4 * (r / 2 : ℕ) + 2) =
        s.origin + s.video.sizeRow * s.ctl.bottom - 4 - 4 * (r / 2) + 2 := by
      unfold u32
      omega
    rw [hdi₂] at ha
    rcases mem_stosw_down (by omega) (by omega) ha with ha | ha
    · rcases mem_movsl_down (by omega) (by omega) ha with ha | ha
      · exact Or.inl ha
      · exact Or.inr (by omega)
    · exact Or.inr (by omega)

theorem csiJ (h : s.Ok) (par : ℕ) : Draws s (s.csiJ par) := by
  have hlt := h.scrEnd_lt
  have hend := h.scrEnd
  unfold Con.csiJ
  split
  · refine ⟨stosw_eq _ _ _ _ s, fun hc a ha => ?_⟩
    obtain ⟨hpos, hle⟩ := h.pos_eq (h.x hc)
    have hn : u32 ((s.scrEnd : ℤ) - s.pos) = s.scrEnd - s.pos := by
      unfold u32
      omega
    rw [hn] at ha
    rcases mem_stosw (by omega) ha with ha | ha
    · exact Or.inl ha
    · exact Or.inr (by omega)
  · split
    · refine ⟨stosw_eq _ _ _ _ s, fun hc a ha => ?_⟩
      obtain ⟨hpos, hle⟩ := h.pos_eq (h.x hc)
      have hn : u32 ((s.pos : ℤ) - s.origin) = s.pos - s.origin := by
        unfold u32
        omega
      rw [hn] at ha
      rcases mem_stosw (by omega) ha with ha | ha
      · exact Or.inl ha
      · exact Or.inr (by omega)
    · split
      · have hmul : 2 * (s.video.numColumns * s.video.numLines) =
            s.video.numLines * s.video.sizeRow := by
          rw [h.row]
          ring
        have hn : u32 (s.video.numColumns * s.video.numLines) =
            s.video.numColumns * s.video.numLines := u32_eq (by push_cast; rfl) (by omega)
        rw [hn]
        exact h.stosw hlt (Nat.le_refl _) (by omega)
      · exact .refl s

theorem csiK (h : s.Ok) (par : ℕ) : Draws s (s.csiK par) := by
  have hlt := h.scrEnd_lt
  have hrow := h.row
  have hline := h.line_le h.y
  have hback : 8 ≤ s.video.numColumns → u32 (s.pos - 2 * s.ctl.x) =
      s.origin + s.ctl.y * s.video.sizeRow := by
    intro hc
    obtain ⟨hpos, hle⟩ := h.pos_eq (h.x hc)
    unfold u32
    omega
  unfold Con.csiK
  split
  · split
    · exact .refl s
    · refine ⟨stosw_eq _ _ _ _ s, fun hc a ha => ?_⟩
      obtain ⟨hpos, hle⟩ := h.pos_eq (h.x hc)
      rcases mem_stosw (by omega) ha with ha | ha
      · exact Or.inl ha
      · exact Or.inr (by omega)
  · split
    · refine ⟨stosw_eq _ _ _ _ s, fun hc a ha => ?_⟩
      have hn : (if s.ctl.x < s.video.numColumns then s.ctl.x else s.video.numColumns) ≤
          s.video.numColumns := by split <;> omega
      rw [hback hc] at ha
      rcases mem_stosw (by omega) ha with ha | ha
      · exact Or.inl ha
      · exact Or.inr (by omega)
    · split
      · refine ⟨stosw_eq _ _ _ _ s, fun hc a ha => ?_⟩
        rw [hback hc] at ha
        rcases mem_stosw (by omega) ha with ha | ha
        · exact Or.inl ha
        · exact Or.inr (by omega)
      · exact .refl s

theorem insertChar (h : s.Ok) : Draws s s.insertChar := by
  refine ⟨insertFrom_eq _ _ _ s, fun hc a ha => ?_⟩
  have hlt := h.scrEnd_lt
  obtain ⟨hpos, hle⟩ := h.pos_eq (h.x hc)
  rcases mem_insertFrom (by omega) ha with ha | ha
  · exact Or.inl ha
  · exact Or.inr (by omega)

theorem deleteChar (h : s.Ok) : Draws s s.deleteChar := by
  unfold Con.deleteChar
  split
  · exact .refl s
  · refine ⟨deleteFrom_eq _ _ s, fun hc a ha => ?_⟩
    have hlt := h.scrEnd_lt
    obtain ⟨hpos, hle⟩ := h.pos_eq (h.x hc)
    rcases mem_deleteFrom (by omega) ha with ha | ha
    · exact Or.inl ha
    · exact Or.inr (by omega)

/-! ### Scrolling -/

theorem nextLine (h : s.Ok) : s.nextLine.Laid := by
  have hlt := h.scrEnd_lt
  have hline := h.line_le h.y
  have hend := h.scrEnd
  have hstart := h.start
  have horigin : u32 (s.origin + s.video.sizeRow) = s.origin + s.video.sizeRow :=
    u32_eq (by push_cast; rfl) (by omega)
  have hscr : u32 (s.scrEnd + s.video.sizeRow) = s.scrEnd + s.video.sizeRow :=
    u32_eq (by push_cast; rfl) (by omega)
  refine ⟨h.row, h.lines, h.fits, h.memEnd, ?_, ?_, ?_, h.xLt, h.y, h.top, h.bottom, ?_, h.npar,
    h.x, h.inside⟩
  · change s.video.memStart ≤ u32 (s.origin + s.video.sizeRow)
    omega
  · change u32 (s.scrEnd + s.video.sizeRow) = u32 (s.origin + s.video.sizeRow) + _
    rw [horigin, hscr]
    change _ = _ + s.video.numLines * s.video.sizeRow
    omega
  · exact u32_lt (s.scrEnd + s.video.sizeRow)
  · change u32 (s.pos + s.video.sizeRow) = u32 (u32 (s.origin + s.video.sizeRow) +
      s.ctl.y * s.video.sizeRow + 2 * s.ctl.x)
    rw [horigin, h.pos, u32_add]
    refine congrArg u32 ?_
    push_cast
    ring

end Ok

namespace Laid

/-- The longs of all lines but one, and what is left for the last. -/
theorem screenLongs (h : s.Laid) : ∃ r, r = (s.video.numLines - 1) * s.video.numColumns ∧
    s.screenLongs = r / 2 ∧ s.video.numLines * s.video.sizeRow = 2 * r + s.video.sizeRow := by
  have hfits := h.fits
  have hmem := h.memEnd
  obtain ⟨l, hl⟩ : ∃ l, s.video.numLines = l + 1 := by
    have hy := h.y
    exact ⟨s.video.numLines - 1, by omega⟩
  have hsize : s.video.numLines * s.video.sizeRow =
      2 * (l * s.video.numColumns) + s.video.sizeRow := by
    rw [hl, h.row]
    ring
  refine ⟨l * s.video.numColumns, ?_, ?_, hsize⟩
  · rw [hl, Nat.add_sub_cancel]
  · refine congrArg (· / 2) (u32_eq ?_ (by omega))
    rw [hl]
    push_cast
    ring

theorem copyLines (h : s.Laid) : s.copyLines.Laid ∧
    s.copyLines = { s with mem := s.copyLines.mem, stores := s.copyLines.stores } := by
  have hfits := h.fits
  have hmem := h.memEnd
  have hrow := h.row
  obtain ⟨r, -, hlongs, hsize⟩ := h.screenLongs
  have heq : s.copyLines = { s with mem := s.copyLines.mem, stores := s.copyLines.stores } := by
    unfold Con.copyLines
    rw [stosw_eq, movsl_eq]
  have hin : 8 ≤ s.video.numColumns → ∀ a ∈ s.copyLines.stores,
      s.video.memStart ≤ a ∧ a + 2 ≤ s.video.memEnd := by
    intro hc a ha
    have hdi : u32 (s.video.memStart + 4 * (r / 2 : ℕ)) = s.video.memStart + 4 * (r / 2) :=
      u32_eq (by push_cast; rfl) (by omega)
    unfold Con.copyLines at ha
    rw [hlongs, hdi] at ha
    rcases mem_stosw (by omega) ha with ha | ha
    · rcases mem_movsl (by omega) ha with ha | ha
      · exact h.inside hc a ha
      · omega
    · omega
  refine ⟨?_, heq⟩
  rw [heq]
  exact ⟨h.row, h.lines, h.fits, h.memEnd, h.start, h.scrEnd, h.scrEndLt, h.xLt, h.y, h.top,
    h.bottom, h.pos, h.npar, h.x, hin⟩

theorem resetOrigin (h : s.Laid) : s.resetOrigin.Ok := by
  have hfits := h.fits
  have hstart := h.start
  have hend := h.scrEnd
  have hlt := h.scrEndLt
  have hscr : u32 (s.scrEnd - (s.origin - s.video.memStart)) =
      s.video.memStart + s.video.numLines * s.video.sizeRow := by
    unfold u32
    omega
  refine ⟨⟨h.row, h.lines, h.fits, h.memEnd, Nat.le_refl _, hscr, u32_lt _, h.xLt, h.y, h.top,
    h.bottom,
    ?_, h.npar, h.x, h.inside⟩, ?_⟩
  · change u32 (s.pos - (s.origin - s.video.memStart)) = _
    rw [h.pos, Int.sub_eq_add_neg, u32_add]
    refine congrArg u32 ?_
    change _ = (s.video.memStart : ℤ) + s.ctl.y * s.video.sizeRow + 2 * s.ctl.x
    ring
  · change u32 (s.scrEnd - (s.origin - s.video.memStart)) ≤ s.video.memEnd
    rw [hscr]
    exact h.fits

end Laid

namespace Ok

theorem clearLast (h : s.Ok) : Draws s s.clearLast := by
  have hline := h.line_le h.y
  have hend := h.scrEnd
  have hrow := h.row
  have hdi : u32 (s.scrEnd - s.video.sizeRow) = s.scrEnd - s.video.sizeRow := by
    have := h.scrEndLt
    unfold u32
    omega
  unfold Con.clearLast
  rw [hdi]
  exact h.stosw h.scrEnd_lt (by omega) (by omega)

theorem moveOrigin (h : s.Ok) : Keeps s s.moveOrigin := by
  unfold Con.moveOrigin
  split
  · obtain ⟨hlaid, heq⟩ := h.nextLine.copyLines
    refine ⟨hlaid.resetOrigin, ?_, ?_⟩
    · change s.nextLine.copyLines.video = s.video
      rw [heq]
      rfl
    · change s.nextLine.copyLines.ctl = s.ctl
      rw [heq]
      rfl
  · next hin =>
    have hok : s.nextLine.Ok := ⟨h.nextLine, Nat.le_of_not_lt hin⟩
    have hkeep := hok.draws hok.clearLast
    exact ⟨hkeep.ok, hkeep.video, hkeep.ctl⟩

theorem scrup (h : s.Ok) : Keeps s s.scrup := by
  unfold Con.scrup
  split
  · split
    · exact h.moveOrigin
    · exact h.draws h.copyUp
  · exact h.draws h.copyUp

end Ok

/-! ### The cursor -/

/-- **The console stays in order**, and the display what it is. -/
structure Stays (s s' : Con) : Prop where
  ok : s'.Ok
  video : s'.video = s.video

theorem Stays.ite {q : Prop} [Decidable q] (h : Stays s s') (h' : Stays s s'') :
    Stays s (if q then s' else s'') := by
  split
  · exact h
  · exact h'

theorem Stays.trans (h : Stays s s') (h' : Stays s' s'') : Stays s s'' :=
  ⟨h'.ok, h'.video.trans h.video⟩

theorem scrup_x (s : Con) : s.scrup.ctl.x = s.ctl.x := by
  have hmove : s.moveOrigin.ctl = s.ctl := by
    unfold Con.moveOrigin
    split
    · unfold Con.copyLines
      rw [stosw_eq, movsl_eq]
      rfl
    · unfold Con.clearLast
      rw [stosw_eq]
      rfl
  have hcopy : s.copyUp.ctl = s.ctl := by
    unfold Con.copyUp
    dsimp only
    rw [stosw_eq, movsl_eq]
  unfold Con.scrup
  split
  · split
    · rw [hmove]
    · rw [hcopy]
  · rw [hcopy]

theorem lf_x (s : Con) : s.lf.ctl.x = s.ctl.x := by
  unfold Con.lf
  split
  · rfl
  · exact scrup_x s

namespace Ok

theorem stays (h : s.Ok) (hd : Draws s s') : Stays s s' := ⟨(h.draws hd).ok, (h.draws hd).video⟩

/-- **The cursor moves**, and `pos` with it. -/
theorem cursor (h : s.Ok) {x y pos : ℕ} (hy : y < s.video.numLines) (hlt : x < 0x100000000)
    (hx : 8 ≤ s.video.numColumns → x ≤ s.video.numColumns)
    (hpos : pos = u32 (s.origin + y * s.video.sizeRow + 2 * x)) :
    Ok { s with ctl := { s.ctl with x := x, y := y }, pos := pos } :=
  ⟨⟨h.row, h.lines, h.fits, h.memEnd, h.start, h.scrEnd, h.scrEndLt, hlt, hy, h.top, h.bottom, hpos,
    h.npar, hx, h.inside⟩, h.le⟩

/-- What else is in the control state changes. -/
theorem setCtl (h : s.Ok) {c : Ctl} (hx : c.x = s.ctl.x) (hy : c.y = s.ctl.y)
    (htop : c.top < c.bottom) (hbottom : c.bottom ≤ s.video.numLines) (hnpar : c.npar < nPar) :
    Stays s { s with ctl := c } := by
  refine ⟨⟨⟨h.row, h.lines, h.fits, h.memEnd, h.start, h.scrEnd, h.scrEndLt, ?_, ?_, htop, hbottom,
    ?_, hnpar, ?_, h.inside⟩, h.le⟩, rfl⟩
  · exact hx ▸ h.xLt
  · exact hy ▸ h.y
  · change s.pos = u32 (s.origin + c.y * s.video.sizeRow + 2 * c.x)
    rw [hx, hy]
    exact h.pos
  · exact hx ▸ h.x

theorem numColumns_lt (h : s.Ok) : s.video.numColumns < 0x80000000 := by
  have hline := h.line_le h.y
  have hlt := h.scrEnd_lt
  have hrow := h.row
  omega

theorem gotoxy (h : s.Ok) (x y : ℕ) : Stays s (s.gotoxy x y) := by
  unfold Con.gotoxy
  split
  · exact ⟨h, rfl⟩
  · next hin =>
    rw [not_or, Nat.not_lt, Nat.not_le] at hin
    have := h.numColumns_lt
    exact ⟨h.cursor hin.2 (by omega) (fun _ => hin.1) rfl, rfl⟩

theorem lf (h : s.Ok) : Stays s s.lf := by
  unfold Con.lf
  split
  · next hlt =>
    have hy := h.y
    have hlines := h.lines
    have hbot := h.bottom
    have hsucc : u32 (s.ctl.y + 1) = s.ctl.y + 1 := by
      unfold u32
      omega
    rw [hsucc] at hlt ⊢
    refine ⟨h.cursor (by omega) h.xLt h.x ?_, rfl⟩
    rw [h.pos, u32_add]
    refine congrArg u32 ?_
    push_cast
    ring
  · exact ⟨h.scrup.ok, h.scrup.video⟩

theorem ri (h : s.Ok) : Stays s s.ri := by
  unfold Con.ri
  split
  · next hlt =>
    have hy := h.y
    have hlines := h.lines
    have hpred : u32 (s.ctl.y - 1) = s.ctl.y - 1 := by
      unfold u32
      omega
    rw [hpred]
    refine ⟨h.cursor (by omega) h.xLt h.x ?_, rfl⟩
    rw [h.pos, Int.sub_eq_add_neg, u32_add]
    refine congrArg u32 ?_
    push_cast [Nat.cast_sub (show 1 ≤ s.ctl.y by omega)]
    ring
  · exact h.stays h.scrdown

theorem cr (h : s.Ok) : Stays s s.cr := by
  refine ⟨h.cursor h.y (by omega) (fun _ => Nat.zero_le _) ?_, rfl⟩
  rw [h.pos, Int.sub_eq_add_neg, u32_add]
  refine congrArg u32 ?_
  push_cast
  ring

theorem back (h : s.Ok) (hx : s.ctl.x ≠ 0) : Stays s s.back := by
  have hlt := h.xLt
  have hpred : u32 (s.ctl.x - 1) = s.ctl.x - 1 := by
    unfold u32
    omega
  unfold Con.back
  rw [hpred]
  refine ⟨h.cursor h.y (by omega) (fun hc => (Nat.sub_le _ _).trans (h.x hc)) ?_, rfl⟩
  rw [h.pos, Int.sub_eq_add_neg, u32_add]
  refine congrArg u32 ?_
  push_cast [Nat.cast_sub (show 1 ≤ s.ctl.x by omega)]
  ring

/-- A word is stored at the cursor, which is not beyond the last column. -/
theorem pokeCursor (h : s.Ok) (hx : s.ctl.x < s.video.numColumns) (w : BitVec 16) :
    Draws s (s.poke s.pos w) := by
  refine ⟨rfl, fun _ a ha => ?_⟩
  obtain ⟨hpos, hle⟩ := h.pos_eq (Nat.le_of_lt hx)
  rcases List.mem_cons.mp ha with rfl | ha
  · exact Or.inr (by omega)
  · exact Or.inl ha

theorem del (h : s.Ok) : Stays s s.del := by
  unfold Con.del
  split
  · next hx =>
    have hb := h.back hx
    refine hb.trans ?_
    have hlt := h.xLt
    have hpred : s.back.ctl.x = s.ctl.x - 1 := by
      change u32 (s.ctl.x - 1) = _
      unfold u32
      omega
    refine hb.ok.stays ⟨rfl, fun hc a ha => ?_⟩
    have hxc := h.x hc
    rcases List.mem_cons.mp ha with rfl | ha
    · obtain ⟨hpos, hle⟩ := hb.ok.pos_eq (hb.ok.x hc)
      have hv : s.back.video.numColumns = s.video.numColumns := rfl
      exact Or.inr (by omega)
    · exact Or.inl ha
  · exact ⟨h, rfl⟩

/-- `pos`, to the right of the cursor. -/
theorem pos_right (h : s.Ok) (c : ℕ) : u32 (s.pos + 2 * c) =
    u32 (s.origin + s.ctl.y * s.video.sizeRow + 2 * u32 (s.ctl.x + c)) := by
  rw [h.pos, u32_add]
  unfold u32
  omega

/-- Beyond the last column by no more than a line: a line is taken off. -/
theorem wrapped (h : s.Ok) {x pos : ℕ} (hx : s.video.numColumns ≤ x) (hlt : x < 0x100000000)
    (hle : 8 ≤ s.video.numColumns → x ≤ 2 * s.video.numColumns)
    (hpos : pos = u32 (s.origin + s.ctl.y * s.video.sizeRow + 2 * x)) :
    Ok { s with
      ctl := { s.ctl with x := u32 ((x : ℤ) - s.video.numColumns) }
      pos := u32 ((pos : ℤ) - s.video.sizeRow) } := by
  have hsub : u32 ((x : ℤ) - s.video.numColumns) = x - s.video.numColumns := by
    unfold u32
    omega
  refine h.cursor h.y (u32_lt _) (fun hc => ?_) ?_
  · have := hle hc
    omega
  · rw [hsub, hpos, Int.sub_eq_add_neg, u32_add, h.row]
    refine congrArg u32 ?_
    push_cast [Nat.cast_sub hx]
    ring

theorem wrapLine (h : s.Ok) {x pos : ℕ} (hx : s.video.numColumns ≤ x) (hlt : x < 0x100000000)
    (hle : 8 ≤ s.video.numColumns → x ≤ 2 * s.video.numColumns)
    (hpos : pos = u32 (s.origin + s.ctl.y * s.video.sizeRow + 2 * x)) :
    Stays s (Con.wrapLine { s with ctl := { s.ctl with x := x }, pos := pos }) :=
  ⟨(h.wrapped hx hlt hle hpos).lf.ok, (h.wrapped hx hlt hle hpos).lf.video⟩

/-- The cursor goes to the right. -/
theorem right (h : s.Ok) (c : ℕ) (hx : 8 ≤ s.video.numColumns → s.ctl.x + c ≤ s.video.numColumns) :
    Ok { s with ctl := { s.ctl with x := u32 (s.ctl.x + c) }, pos := u32 (s.pos + 2 * c) } := by
  refine h.cursor h.y (u32_lt _) (fun hc => ?_) (h.pos_right c)
  have hle := hx hc
  have hlt := h.numColumns_lt
  have hword : u32 (s.ctl.x + c) = s.ctl.x + c := u32_eq (by push_cast; rfl) (by omega)
  omega

theorem putChar (h : s.Ok) (c : BitVec 8) : Stays s (s.putChar c) := by
  unfold Con.putChar
  dsimp only
  obtain ⟨t, ht⟩ : ∃ t, t = if s.video.numColumns ≤ s.ctl.x then s.wrapLine else s := ⟨_, rfl⟩
  rw [← ht]
  have hwrap : Stays s t ∧ (8 ≤ s.video.numColumns → t.ctl.x < s.video.numColumns) := by
    rw [ht]
    split
    · next hx =>
      refine ⟨h.wrapLine hx h.xLt (fun hc => ?_) h.pos, fun hc => ?_⟩
      · have := h.x hc
        change s.ctl.x ≤ _
        omega
      · have hle := h.x hc
        rw [Con.wrapLine, lf_x]
        change u32 (s.ctl.x - s.video.numColumns) < _
        unfold u32
        omega
    · next hx => exact ⟨⟨h, rfl⟩, fun _ => Nat.lt_of_not_le hx⟩
  obtain ⟨hstay, hx⟩ := hwrap
  have hdraw : Draws t (t.poke t.pos (t.ctl.attr ++ c)) := by
    refine ⟨rfl, fun hc => ?_⟩
    rw [hstay.video] at hc
    exact (hstay.ok.pokeCursor (hstay.video ▸ hx hc) _).stores (hstay.video ▸ hc)
  have hok := (hstay.ok.draws hdraw).ok
  refine ⟨hok.right 1 (fun hc => ?_), hstay.video⟩
  change t.ctl.x + 1 ≤ t.video.numColumns
  change 8 ≤ t.video.numColumns at hc
  rw [hstay.video] at hc ⊢
  exact hx hc

theorem tab (h : s.Ok) : Stays s s.tab := by
  unfold Con.tab
  dsimp only
  have hlt := h.numColumns_lt
  have hc : s.ctl.x + (8 - s.ctl.x % 8 : ℕ) ≤ s.ctl.x + 8 := by omega
  split
  · next hx =>
    refine h.wrapLine (Nat.le_of_lt hx) (u32_lt _) (fun hcol => ?_) (h.pos_right _)
    have := h.x hcol
    have hword : u32 (s.ctl.x + (8 - s.ctl.x % 8 : ℕ)) = s.ctl.x + (8 - s.ctl.x % 8) :=
      u32_eq (by push_cast; rfl) (by omega)
    omega
  · next hx =>
    refine ⟨h.right _ (fun hcol => ?_), rfl⟩
    have := h.x hcol
    change ¬ s.video.numColumns < u32 (s.ctl.x + (8 - s.ctl.x % 8 : ℕ)) at hx
    have hword : u32 (s.ctl.x + (8 - s.ctl.x % 8 : ℕ)) = s.ctl.x + (8 - s.ctl.x % 8) :=
      u32_eq (by push_cast; rfl) (by omega)
    omega

/-! ### Commands that draw and move -/

/-- What is done over and over. -/
theorem iterate (h : s.Ok) {f : Con → Con} (hf : ∀ t : Con, t.Ok → Stays t (f t)) (n : ℕ) :
    Stays s (f^[n] s) := by
  induction n with
  | zero => exact ⟨h, rfl⟩
  | succ n ih =>
    rw [Function.iterate_succ_apply']
    exact ih.trans (hf _ ih.ok)

theorem fromCursor (h : s.Ok) {scroll : Con → Con}
    (hscroll : ∀ t : Con, t.Ok → Keeps t (scroll t)) :
    Stays s (s.fromCursor scroll) := by
  have hok := (h.setCtl (c := { s.ctl with top := s.ctl.y, bottom := s.video.numLines }) rfl rfl h.y
    (Nat.le_refl _) h.npar).ok
  unfold Con.fromCursor
  dsimp only
  obtain ⟨hkeep, hvideo, hctl⟩ := hscroll _ hok
  obtain ⟨t, ht⟩ : ∃ t, t = scroll { s with
    ctl := { s.ctl with top := s.ctl.y, bottom := s.video.numLines } } := ⟨_, rfl⟩
  rw [← ht] at hkeep hvideo hctl ⊢
  have hbottom : s.ctl.bottom ≤ t.video.numLines := by
    rw [hvideo]
    exact h.bottom
  have hstay := hkeep.setCtl (c := { t.ctl with top := s.ctl.top, bottom := s.ctl.bottom })
    rfl rfl h.top hbottom hkeep.npar
  exact ⟨hstay.ok, hstay.video.trans hvideo⟩

theorem insertLine (h : s.Ok) : Stays s s.insertLine := h.fromCursor fun _ ht => ht.draws ht.scrdown

theorem deleteLine (h : s.Ok) : Stays s s.deleteLine := h.fromCursor fun _ ht => ht.scrup

theorem csiAt (h : s.Ok) (nr : ℕ) : Stays s (s.csiAt nr) :=
  h.iterate (fun _ ht => ht.stays ht.insertChar) _

theorem csiL (h : s.Ok) (nr : ℕ) : Stays s (s.csiL nr) := h.iterate (fun _ ht => ht.insertLine) _

theorem csiP (h : s.Ok) (nr : ℕ) : Stays s (s.csiP nr) :=
  h.iterate (fun _ ht => ht.stays ht.deleteChar) _

theorem csiM (h : s.Ok) (nr : ℕ) : Stays s (s.csiM nr) := h.iterate (fun _ ht => ht.deleteLine) _

/-! ### The state of the escape sequence -/

theorem setState (h : s.Ok) (n : ℕ) : Stays s (s.setState n) :=
  h.setCtl rfl rfl h.top h.bottom h.npar

theorem setPar (h : s.Ok) (i v : ℕ) : Stays s (s.setPar i v) :=
  h.setCtl rfl rfl h.top h.bottom h.npar

theorem decPar (h : s.Ok) (i : ℕ) : Stays s (s.decPar i) := by
  unfold Con.decPar
  split
  · exact h.setPar _ _
  · exact ⟨h, rfl⟩

theorem incPar (h : s.Ok) : Stays s s.incPar := by
  unfold Con.incPar
  split
  · exact h.setPar _ _
  · exact ⟨h, rfl⟩

theorem csim (h : s.Ok) : Stays s s.csim := h.setCtl rfl rfl h.top h.bottom h.npar

theorem saveCur (h : s.Ok) : Stays s s.saveCur := h.setCtl rfl rfl h.top h.bottom h.npar

theorem restoreCur (h : s.Ok) : Stays s s.restoreCur := h.gotoxy _ _

theorem setRegion (h : s.Ok) : Stays s s.setRegion := by
  unfold Con.setRegion
  dsimp only
  have hdec := h.decPar 0
  obtain ⟨t, ht⟩ : ∃ t, t = if (s.decPar 0).ctl.par 1 = 0
    then (s.decPar 0).setPar 1 (s.decPar 0).video.numLines else s.decPar 0 := ⟨_, rfl⟩
  have hstay : Stays s t := by
    rw [ht]
    split
    · exact hdec.trans (hdec.ok.setPar _ _)
    · exact hdec
  rw [← ht]
  split
  · next hreg =>
    exact hstay.trans (hstay.ok.setCtl rfl rfl hreg.1 hreg.2 hstay.ok.npar)
  · exact hstay

theorem move (h : Stays s s') (f : Ctl → ℤ × ℤ) : Stays s (s'.move f) := h.trans (h.ok.gotoxy _ _)

/-! ### Bytes -/

theorem plain (h : s.Ok) (erase c : BitVec 8) : Stays s (s.plain erase c) := by
  unfold Con.plain
  repeat' split
  · exact h.putChar c
  · exact h.setState 1
  · exact h.lf
  · exact h.cr
  · exact h.del
  · next hx => exact h.back hx
  · exact ⟨h, rfl⟩
  · exact h.tab
  · exact ⟨h, rfl⟩

theorem escape (h : s.Ok) (c : ℤ) : Stays s (s.escape c) := by
  have h₀ := h.setState 0
  unfold Con.escape
  dsimp only
  repeat' split
  · exact h₀.trans (h₀.ok.setState 2)
  · exact h₀.trans (h₀.ok.gotoxy _ _)
  · exact h₀.trans h₀.ok.ri
  · exact h₀.trans h₀.ok.lf
  · exact h₀
  · exact h₀.trans h₀.ok.saveCur
  · exact h₀.trans h₀.ok.restoreCur
  · exact h₀

theorem command (h : s.Ok) (c : ℤ) : Stays s (s.command c) := by
  have h₀ := h.setState 0
  have hdec := h₀.trans (h₀.ok.decPar 0)
  have hinc := h₀.trans h₀.ok.incPar
  unfold Con.command
  dsimp only
  refine .ite (move hdec _) ?_
  refine .ite (move hinc _) ?_
  refine .ite (move hinc _) ?_
  refine .ite (move hinc _) ?_
  refine .ite (move hinc _) ?_
  refine .ite (move hinc _) ?_
  refine .ite (move hinc _) ?_
  refine .ite (move hdec _) ?_
  refine .ite (move (hdec.trans (hdec.ok.decPar 1)) _) ?_
  refine .ite (h₀.trans (h₀.ok.stays (h₀.ok.csiJ _))) ?_
  refine .ite (h₀.trans (h₀.ok.stays (h₀.ok.csiK _))) ?_
  refine .ite (h₀.trans (h₀.ok.csiL _)) ?_
  refine .ite (h₀.trans (h₀.ok.csiM _)) ?_
  refine .ite (h₀.trans (h₀.ok.csiP _)) ?_
  refine .ite (h₀.trans (h₀.ok.csiAt _)) ?_
  refine .ite (h₀.trans h₀.ok.csim) ?_
  refine .ite (h₀.trans h₀.ok.setRegion) ?_
  refine .ite (h₀.trans h₀.ok.saveCur) ?_
  refine .ite (h₀.trans h₀.ok.restoreCur) ?_
  exact h₀

theorem params (h : s.Ok) (c : ℤ) : Stays s (s.params c) := by
  unfold Con.params
  split
  · next hsemi =>
    refine h.setCtl rfl rfl h.top h.bottom ?_
    exact Nat.add_lt_of_lt_sub hsemi.2
  · split
    · exact h.setPar _ _
    · exact (h.setState 4).trans ((h.setState 4).ok.command c)

theorem clearParams (h : s.Ok) (c : ℤ) : Stays s (s.clearParams c) := by
  unfold Con.clearParams
  dsimp only
  have hclear := h.setCtl (c := { s.ctl with
    par := fun i => if i < nPar then 0 else s.ctl.par i
    npar := 0
    state := 3
    ques := decide (c = ch '?') }) rfl rfl h.top h.bottom (show 0 < nPar by decide)
  split
  · exact hclear
  · exact hclear.trans (hclear.ok.params c)

/-- **A byte keeps the console in order.** -/
theorem conChar (h : s.Ok) (erase c : BitVec 8) : Stays s (s.conChar erase c) := by
  unfold Con.conChar
  repeat' split
  · exact h.plain erase c
  · exact h.escape _
  · exact h.clearParams _
  · exact h.params _
  · exact h.command _
  · exact ⟨h, rfl⟩

/-- So do all bytes written. -/
theorem conWrite (h : s.Ok) (bytes : List (BitVec 8 × BitVec 8)) : Stays s (s.conWrite bytes) := by
  induction bytes generalizing s with
  | nil => exact ⟨h, rfl⟩
  | cons b bytes ih => exact (h.conChar b.1 b.2).trans (ih (h.conChar b.1 b.2).ok)

end Ok

/-! ### `con_init` -/

theorem gotoxy_stores (x y : ℕ) (s : Con) : (s.gotoxy x y).stores = s.stores := by
  unfold gotoxy
  split
  · rfl
  · rfl

theorem describe_eq (cs : List (BitVec 8)) (p : ℕ) (s : Con) :
    s.describe cs p =
      { s with mem := (s.describe cs p).mem, stores := (s.describe cs p).stores } := by
  induction cs generalizing p s with
  | nil => rfl
  | cons c cs ih =>
    rw [describe]
    exact ih _ _

theorem mem_describe {cs : List (BitVec 8)} {a : ℕ} (ha : a ∈ (s.describe cs p).stores) :
    a ∈ s.stores ∨ (p ≤ a ∧ a + 2 ≤ p + 2 * cs.length) := by
  induction cs generalizing p s with
  | nil => exact Or.inl ha
  | cons c cs ih =>
    rw [describe] at ha
    rw [List.length_cons]
    rcases ih ha with ha | ha
    · rcases List.mem_cons.mp ha with rfl | ha
      · exact Or.inr (by omega)
      · exact Or.inl ha
    · exact Or.inr (by omega)

end Con

theorem Setup.length_displayDesc (b : Setup) : b.displayDesc.length = 4 := by
  unfold displayDesc
  repeat' split
  all_goals rfl

theorem Setup.memEnd_lt (b : Setup) : b.video.memEnd < 0x80000000 := by
  unfold video
  dsimp only
  repeat' split
  all_goals decide

/-- What `con_init` leaves, if the cursor is on the screen. -/
theorem conInit_eq (b : Setup) (mem : ℕ → BitVec 16) (hx : b.x.toNat < b.video.numColumns)
    (hy : b.y.toNat < b.video.numLines) : conInit b mem = { b.fresh mem with
      ctl := { (b.fresh mem).ctl with x := b.x.toNat, y := b.y.toNat }
      pos := u32 (b.video.memStart + b.y.toNat * b.video.sizeRow + 2 * b.x.toNat)
      mem := (conInit b mem).mem
      stores := (conInit b mem).stores } := by
  unfold conInit Con.gotoxy
  rw [Con.describe_eq, if_neg]
  · rfl
  · exact not_or.mpr ⟨Nat.not_lt.mpr (Nat.le_of_lt hx), Nat.not_le.mpr hy⟩

/-- **The console is in order after `con_init`**, if the screen is inside video memory and the
cursor on the screen. -/
theorem Setup.ok (b : Setup) (mem : ℕ → BitVec 16) (hx : b.x.toNat < b.video.numColumns)
    (hy : b.y.toNat < b.video.numLines)
    (hfits : b.video.memStart + b.video.numLines * b.video.sizeRow ≤ b.video.memEnd) :
    (conInit b mem).Ok := by
  have hend := b.memEnd_lt
  have hrow : b.video.sizeRow = 2 * b.video.numColumns := Nat.mul_comm _ _
  have hlen := b.length_displayDesc
  have hin : 8 ≤ b.video.numColumns → ∀ a ∈ (conInit b mem).stores,
      b.video.memStart ≤ a ∧ a + 2 ≤ b.video.memEnd := by
    intro hc a ha
    have hline : 1 * b.video.sizeRow ≤ b.video.numLines * b.video.sizeRow :=
      Nat.mul_le_mul_right _ (show 1 ≤ 25 by decide)
    unfold conInit at ha
    rw [Con.gotoxy_stores] at ha
    rcases Con.mem_describe ha with ha | ha
    · exact absurd ha (List.not_mem_nil)
    · omega
  have hxlt : b.x.toNat < 0x100000000 := Nat.lt_trans b.x.isLt (by decide)
  rw [conInit_eq b mem hx hy]
  exact ⟨⟨hrow, show 25 < 0x80000000 by decide, hfits, hend, Nat.le_refl _, rfl,
    Nat.lt_of_le_of_lt hfits (by omega), hxlt, hy, show 0 < 25 by decide, Nat.le_refl _, rfl,
    show 0 < nPar by decide, fun _ => Nat.le_of_lt hx, hin⟩, hfits⟩

/-! ### Safety -/

/-- **What is safe**: the cursor, the region and the parameters are in their bounds, `pos` is the
cursor's place and `scr_end` the screen's end, and all stores have been inside video memory. -/
structure Con.Safe (s : Con) : Prop where
  x : s.ctl.x ≤ s.video.numColumns
  y : s.ctl.y < s.video.numLines
  top : s.ctl.top < s.ctl.bottom
  bottom : s.ctl.bottom ≤ s.video.numLines
  npar : s.ctl.npar < nPar
  pos : s.pos = s.origin + s.ctl.y * s.video.sizeRow + 2 * s.ctl.x
  scrEnd : s.scrEnd = s.origin + s.video.numLines * s.video.sizeRow
  scrEnd_le : s.scrEnd ≤ s.video.memEnd
  origin : s.video.memStart ≤ s.origin
  stores : ∀ a ∈ s.stores, s.video.memStart ≤ a ∧ a + 2 ≤ s.video.memEnd

/-- **The console is safe**: after any bytes have been written to it, on any display with at least
8 columns whose screen is inside video memory and has the cursor on it. -/
theorem console_safety (b : Setup) (mem : ℕ → BitVec 16) (hcols : 8 ≤ b.video.numColumns)
    (hx : b.x.toNat < b.video.numColumns) (hy : b.y.toNat < b.video.numLines)
    (hfits : b.video.memStart + b.video.numLines * b.video.sizeRow ≤ b.video.memEnd)
    (bytes : List (BitVec 8 × BitVec 8)) : ((conInit b mem).conWrite bytes).Safe := by
  have hinit := b.ok mem hx hy hfits
  obtain ⟨hok, hvideo⟩ := hinit.conWrite bytes
  have hcols' : 8 ≤ ((conInit b mem).conWrite bytes).video.numColumns := by
    rw [hvideo, conInit_eq b mem hx hy]
    exact hcols
  exact ⟨hok.x hcols', hok.y, hok.top, hok.bottom, hok.npar, (hok.pos_eq (hok.x hcols')).1,
    hok.scrEnd, hok.le, hok.start, hok.inside hcols'⟩

/-- 80 columns on a colour display. -/
theorem console_safety_color :
    ((conInit ⟨false, true, 80, 0, 24⟩ fun _ => 0).conWrite [(127, 10), (127, 65)]).Safe :=
  console_safety _ _ (by decide) (by decide) (by decide) (by decide) _

end Linux011.Console

import Linux011.Console.Safety

/-!
# The saved cursor

`ESC [ s` saves the cursor and `ESC [ u` restores it; `ESC 7` and `ESC 8` are meant to do the same.
For these two, however, the column is compared with `'7'` and `'8'`, and not the byte: whatever
comes after `ESC` in column 55 saves the cursor, and in column 56 restores it.

As long as this makes no difference (`Linux011.Console.Con.Meant`), a cursor that is saved is
restored, whatever has been written in between, and nothing else changes what is saved
(`Linux011.Console.cursor_saved`).
-/

namespace Linux011.Console

namespace Con

variable {s s' s'' : Con}

/-- **What is saved stays saved.** -/
structure Kept (s s' : Con) : Prop where
  x : s'.ctl.savedX = s.ctl.savedX
  y : s'.ctl.savedY = s.ctl.savedY

namespace Kept

theorem refl (s : Con) : Kept s s := ⟨rfl, rfl⟩

theorem trans (h : Kept s s') (h' : Kept s' s'') : Kept s s'' :=
  ⟨h'.x.trans h.x, h'.y.trans h.y⟩

theorem ite {q : Prop} [Decidable q] (h : Kept s s') (h' : Kept s s'') :
    Kept s (if q then s' else s'') := by
  split
  · exact h
  · exact h'

/-! ### The screen -/

theorem stosw (dir : ℤ) (w : BitVec 16) (n di : ℕ) (s : Con) : Kept s (s.stosw dir w n di) := by
  rw [stosw_eq]
  exact ⟨rfl, rfl⟩

theorem movsl (dir : ℤ) (n di si : ℕ) (s : Con) : Kept s (s.movsl dir n di si) := by
  rw [movsl_eq]
  exact ⟨rfl, rfl⟩

theorem moveOrigin (s : Con) : Kept s s.moveOrigin := by
  have hnext : Kept s s.nextLine := ⟨rfl, rfl⟩
  rw [Con.moveOrigin]
  refine ite ?_ (hnext.trans (stosw ..))
  have hcopy : Kept s s.nextLine.copyLines := (hnext.trans (movsl ..)).trans (stosw ..)
  exact hcopy.trans ⟨rfl, rfl⟩

theorem scrup (s : Con) : Kept s s.scrup := by
  have hcopy : Kept s s.copyUp := (movsl ..).trans (stosw ..)
  rw [Con.scrup]
  exact ite (ite (moveOrigin s) hcopy) hcopy

theorem scrdown (s : Con) : Kept s s.scrdown := (movsl ..).trans (stosw ..)

theorem lf (s : Con) : Kept s s.lf := by
  rw [Con.lf]
  exact ite ⟨rfl, rfl⟩ (scrup s)

theorem ri (s : Con) : Kept s s.ri := by
  rw [Con.ri]
  exact ite ⟨rfl, rfl⟩ (scrdown s)

theorem gotoxy (x y : ℕ) (s : Con) : Kept s (s.gotoxy x y) := by
  rw [Con.gotoxy]
  exact ite (refl s) ⟨rfl, rfl⟩

theorem del (s : Con) : Kept s s.del := by
  rw [Con.del]
  exact ite ⟨rfl, rfl⟩ (refl s)

theorem wrapLine (s : Con) : Kept s s.wrapLine := by
  have hback : Kept s { s with
      ctl := { s.ctl with x := u32 (s.ctl.x - s.video.numColumns) }
      pos := u32 (s.pos - s.video.sizeRow) } := ⟨rfl, rfl⟩
  exact hback.trans (lf _)

theorem putChar (c : BitVec 8) (s : Con) : Kept s (s.putChar c) := by
  have hwrap : Kept s (if s.video.numColumns ≤ s.ctl.x then s.wrapLine else s) :=
    ite (wrapLine s) (refl s)
  exact hwrap.trans ⟨rfl, rfl⟩

theorem tab (s : Con) : Kept s s.tab := by
  rw [Con.tab]
  refine ite (Kept.trans ?_ (wrapLine _)) ⟨rfl, rfl⟩
  exact ⟨rfl, rfl⟩

/-! ### Commands -/

theorem csiJ (par : ℕ) (s : Con) : Kept s (s.csiJ par) := by
  rw [Con.csiJ]
  exact ite (stosw ..) (ite (stosw ..) (ite (stosw ..) (refl s)))

theorem csiK (par : ℕ) (s : Con) : Kept s (s.csiK par) := by
  rw [Con.csiK]
  exact ite (ite (refl s) (stosw ..)) (ite (stosw ..) (ite (stosw ..) (refl s)))

theorem insertChar (s : Con) : Kept s s.insertChar := by
  rw [Con.insertChar, insertFrom_eq]
  exact ⟨rfl, rfl⟩

theorem deleteChar (s : Con) : Kept s s.deleteChar := by
  rw [Con.deleteChar, deleteFrom_eq]
  exact ite (refl s) ⟨rfl, rfl⟩

/-- The region is set for a scroll, and set back. -/
theorem fromCursor {scroll : Con → Con} (h : ∀ t, Kept t (scroll t)) (s : Con) :
    Kept s (s.fromCursor scroll) := by
  have hset : Kept s { s with ctl := { s.ctl with top := s.ctl.y, bottom := s.video.numLines } } :=
    ⟨rfl, rfl⟩
  exact (hset.trans (h _)).trans ⟨rfl, rfl⟩

theorem iterate {f : Con → Con} (h : ∀ t, Kept t (f t)) (n : ℕ) (s : Con) : Kept s (f^[n] s) := by
  induction n generalizing s with
  | zero => exact refl s
  | succ n ih => exact (h s).trans (ih (f s))

theorem setPar (i v : ℕ) (s : Con) : Kept s (s.setPar i v) := ⟨rfl, rfl⟩

theorem setState (n : ℕ) (s : Con) : Kept s (s.setState n) := ⟨rfl, rfl⟩

theorem decPar (i : ℕ) (s : Con) : Kept s (s.decPar i) := by
  rw [Con.decPar]
  exact ite (setPar ..) (refl s)

theorem incPar (s : Con) : Kept s s.incPar := by
  rw [Con.incPar]
  exact ite (setPar ..) (refl s)

theorem move (h : Kept s s') (f : Ctl → ℤ × ℤ) : Kept s (s'.move f) := h.trans (gotoxy ..)

theorem setRegion (s : Con) : Kept s s.setRegion := by
  have hdec := decPar 0 s
  have hpar : Kept s (if (s.decPar 0).ctl.par 1 = 0
      then (s.decPar 0).setPar 1 (s.decPar 0).video.numLines else s.decPar 0) :=
    ite (hdec.trans (setPar ..)) hdec
  rw [Con.setRegion]
  exact ite (hpar.trans ⟨rfl, rfl⟩) hpar

/-! ### Bytes -/

theorem plain (erase c : BitVec 8) (s : Con) : Kept s (s.plain erase c) := by
  have hback : Kept s s.back := ⟨rfl, rfl⟩
  have hcr : Kept s s.cr := ⟨rfl, rfl⟩
  rw [Con.plain]
  refine ite (putChar c s) (ite (setState 1 s) (ite (lf s) (ite hcr (ite (del s) ?_))))
  exact ite (ite hback (refl s)) (ite (tab s) (refl s))

/-- **An escape sequence of two bytes**, where the column makes nothing else of it. -/
theorem escape {c : ℤ} (h : c = ch '[' ∨ c = ch 'E' ∨ c = ch 'M' ∨ c = ch 'D' ∨ c = ch 'Z' ∨
    s.ctl.x ≠ 55) : Kept s (s.escape c) := by
  have h₀ := setState 0 s
  rw [Con.escape]
  by_cases hx : s.ctl.x = 55
  · rcases h with rfl | rfl | rfl | rfl | rfl | hne
    · exact h₀.trans (setState 2 _)
    · exact h₀.trans (gotoxy ..)
    · exact h₀.trans (ri _)
    · exact h₀.trans (lf _)
    · exact h₀
    · exact absurd hx hne
  · have hx' : ¬(s.setState 0).ctl.x = 55 := hx
    rw [if_neg hx']
    refine ite (h₀.trans (setState 2 _)) (ite (h₀.trans (gotoxy ..)) (ite (h₀.trans (ri _)) ?_))
    exact ite (h₀.trans (lf _)) (ite h₀ (ite (h₀.trans (gotoxy ..)) h₀))

/-- **A command but `s`.** -/
theorem command {c : ℤ} (h : c ≠ ch 's') (s : Con) : Kept s (s.command c) := by
  have h₀ := setState 0 s
  have hdec := h₀.trans (decPar 0 _)
  have hinc := h₀.trans (incPar _)
  rw [Con.command, if_neg h]
  refine ite (move hdec _) ?_
  refine ite (move hinc _) ?_
  refine ite (move hinc _) ?_
  refine ite (move hinc _) ?_
  refine ite (move hinc _) ?_
  refine ite (move hinc _) ?_
  refine ite (move hinc _) ?_
  refine ite (move hdec _) ?_
  refine ite (move (hdec.trans (decPar 1 _)) _) ?_
  refine ite (h₀.trans (csiJ ..)) ?_
  refine ite (h₀.trans (csiK ..)) ?_
  refine ite (h₀.trans (iterate (fromCursor scrdown) ..)) ?_
  refine ite (h₀.trans (iterate (fromCursor scrup) ..)) ?_
  refine ite (h₀.trans (iterate deleteChar ..)) ?_
  refine ite (h₀.trans (iterate insertChar ..)) ?_
  refine ite (h₀.trans ⟨rfl, rfl⟩) ?_
  refine ite (h₀.trans (setRegion _)) ?_
  exact ite (h₀.trans (gotoxy ..)) h₀

theorem params {c : ℤ} (h : c ≠ ch 's') (s : Con) : Kept s (s.params c) := by
  rw [Con.params]
  refine ite ⟨rfl, rfl⟩ (ite (setPar ..) ?_)
  exact (setState 4 s).trans (command h _)

theorem clearParams {c : ℤ} (h : c ≠ ch 's') (s : Con) : Kept s (s.clearParams c) := by
  have hclear : Kept s { s with ctl := { s.ctl with
      par := fun i => if i < nPar then 0 else s.ctl.par i
      npar := 0
      state := 3
      ques := decide (c = ch '?') } } := ⟨rfl, rfl⟩
  rw [Con.clearParams]
  exact ite hclear (hclear.trans (params h _))

end Kept

/-! ### What saves and restores -/

/-- **A byte that completes a sequence which saves the cursor**: `ESC 7`, or a command `s`. -/
def Saves (c : BitVec 8) (s : Con) : Prop :=
  (s.ctl.state = 1 ∧ c.toInt = ch '7') ∨
    ((s.ctl.state = 2 ∨ s.ctl.state = 3 ∨ s.ctl.state = 4) ∧ c.toInt = ch 's')

theorem not_saves {c : BitVec 8} (h : c.toInt ≠ ch '7') (h' : c.toInt ≠ ch 's') (s : Con) :
    ¬Saves c s := by
  rintro (⟨-, hc⟩ | ⟨-, hc⟩)
  · exact h hc
  · exact h' hc

/-- **The column says what the byte says**: a byte after `ESC` that is not looked at itself is `'7'`
in column 55 and `'8'` in column 56, and in no other. -/
def Meant (c : BitVec 8) (s : Con) : Prop :=
  s.ctl.state = 1 → c.toInt ∉ ['[', 'E', 'M', 'D', 'Z'].map ch →
    ((s.ctl.x = 55 ↔ c.toInt = ch '7') ∧ (s.ctl.x = 56 ↔ c.toInt = ch '8'))

/-- All bytes are meant so. -/
def AllMeant : List (BitVec 8 × BitVec 8) → Con → Prop
  | [], _ => True
  | b :: bytes, s => Meant b.2 s ∧ AllMeant bytes (s.conChar b.1 b.2)

/-- None of the bytes saves the cursor. -/
def NoSave : List (BitVec 8 × BitVec 8) → Con → Prop
  | [], _ => True
  | b :: bytes, s => ¬Saves b.2 s ∧ NoSave bytes (s.conChar b.1 b.2)

/-- **A byte that does not save the cursor** leaves what is saved. -/
theorem Kept.conChar {c : BitVec 8} (hm : Meant c s) (hno : ¬Saves c s) (erase : BitVec 8) :
    Kept s (s.conChar erase c) := by
  rw [Con.conChar]
  split
  · exact plain erase c s
  · split
    · next hstate =>
      refine escape ?_
      by_cases hin : c.toInt ∈ ['[', 'E', 'M', 'D', 'Z'].map ch
      · simp only [List.map_cons, List.map_nil, List.mem_cons, List.not_mem_nil, or_false] at hin
        tauto
      · have hx : s.ctl.x ≠ 55 := fun hx => hno (Or.inl ⟨hstate, (hm hstate hin).1.mp hx⟩)
        tauto
    · have hs {n : ℕ} (hn : s.ctl.state = n) (h : n = 2 ∨ n = 3 ∨ n = 4) : c.toInt ≠ ch 's' := by
        intro hc
        exact hno (Or.inr ⟨by rwa [hn], hc⟩)
      split
      · next hstate => exact clearParams (hs hstate (by omega)) s
      · split
        · next hstate => exact params (hs hstate (by omega)) s
        · split
          · next hstate => exact command (hs hstate (by omega)) s
          · exact refl s

/-- **So do any bytes** of which none saves it. -/
theorem Kept.conWrite {bytes : List (BitVec 8 × BitVec 8)} (hm : AllMeant bytes s)
    (hno : NoSave bytes s) : Kept s (s.conWrite bytes) := by
  induction bytes generalizing s with
  | nil => exact refl s
  | cons b bytes ih => exact (Kept.conChar hm.1 hno.1 b.1).trans (ih hm.2 hno.2)

/-! ### The sequences -/

theorem conWrite_append (a b : List (BitVec 8 × BitVec 8)) (s : Con) :
    s.conWrite (a ++ b) = (s.conWrite a).conWrite b := List.foldl_append

theorem AllMeant.append {a b : List (BitVec 8 × BitVec 8)} (h : AllMeant (a ++ b) s) :
    AllMeant a s ∧ AllMeant b (s.conWrite a) := by
  induction a generalizing s with
  | nil => exact ⟨trivial, h⟩
  | cons c a ih => exact ⟨⟨h.1, (ih h.2).1⟩, (ih h.2).2⟩

/-- The byte `ESC`. -/
theorem conChar_esc (h : s.ctl.state = 0) (erase : BitVec 8) :
    s.conChar erase 27 = s.setState 1 := by
  rw [conChar, if_pos h, plain, if_neg (by decide), if_pos (by decide)]

/-- The byte `[` after it. -/
theorem conChar_csi (h : s.ctl.state = 1) (erase : BitVec 8) :
    s.conChar erase 91 = (s.setState 0).setState 2 := by
  have hne : ¬s.ctl.state = 0 := by omega
  rw [conChar, if_neg hne, if_pos h, escape, if_pos (by decide)]

/-- The byte `7` after `ESC`, in column 55. -/
theorem conChar_seven (h : s.ctl.state = 1) (hx : s.ctl.x = 55) (erase : BitVec 8) :
    s.conChar erase 55 = (s.setState 0).saveCur := by
  have hne : ¬s.ctl.state = 0 := by omega
  have hx' : (s.setState 0).ctl.x = 55 := hx
  rw [conChar, if_neg hne, if_pos h, escape, if_neg (by decide), if_neg (by decide),
    if_neg (by decide), if_neg (by decide), if_neg (by decide), if_pos hx']

/-- The byte `8` after `ESC`, in column 56. -/
theorem conChar_eight (h : s.ctl.state = 1) (hx : s.ctl.x = 56) (erase : BitVec 8) :
    s.conChar erase 56 = (s.setState 0).restoreCur := by
  have hne : ¬s.ctl.state = 0 := by omega
  have hne' : ¬(s.setState 0).ctl.x = 55 := show ¬s.ctl.x = 55 by omega
  have hx' : (s.setState 0).ctl.x = 56 := hx
  rw [conChar, if_neg hne, if_pos h, escape, if_neg (by decide), if_neg (by decide),
    if_neg (by decide), if_neg (by decide), if_neg (by decide), if_neg hne', if_pos hx']

/-- What `case 2` makes of the parameters. -/
def cleared (s : Con) : Con := { s with ctl := { s.ctl with
  par := fun i => if i < nPar then 0 else s.ctl.par i
  npar := 0
  state := 3
  ques := false } }

/-- A command without parameters. -/
theorem conChar_command (h : s.ctl.state = 2) (erase c : BitVec 8)
    (hc : c.toInt ≠ ch '?' ∧ c.toInt ≠ ch ';' ∧ ¬(ch '0' ≤ c.toInt ∧ c.toInt ≤ ch '9')) :
    s.conChar erase c = (s.cleared.setState 4).command c.toInt := by
  have hne : ¬s.ctl.state = 0 ∧ ¬s.ctl.state = 1 := by omega
  obtain ⟨hques, hsemi, hdigit⟩ := hc
  rw [conChar, if_neg hne.1, if_neg hne.2, if_pos h, clearParams]
  simp only [hques, decide_false, Bool.false_eq_true, if_false]
  rw [params, if_neg fun hs => hsemi hs.1, if_neg hdigit]
  rfl

theorem command_s (s : Con) : s.command (ch 's') = (s.setState 0).saveCur := by
  rw [command]
  simp +decide only [if_false, if_true]

theorem command_u (s : Con) : s.command (ch 'u') = (s.setState 0).restoreCur := by
  rw [command]
  simp +decide only [if_false, if_true]

/-- **A sequence that saves the cursor**, and the one that restores it. -/
def Pair (save restore : List (BitVec 8)) : Prop :=
  (save = [27, 55] ∧ restore = [27, 56]) ∨ (save = [27, 91, 115] ∧ restore = [27, 91, 117])

variable {bytes : List (BitVec 8 × BitVec 8)}

theorem eq_of_map_two {c d : BitVec 8} (h : bytes.map Prod.snd = [c, d]) :
    ∃ e e', bytes = [(e, c), (e', d)] := by
  obtain ⟨⟨e, c'⟩, rest, rfl, rfl, hrest⟩ := List.map_eq_cons_iff.mp h
  obtain ⟨⟨e', d'⟩, rest', rfl, rfl, hnil⟩ := List.map_eq_cons_iff.mp hrest
  exact ⟨e, e', by rw [List.map_eq_nil_iff.mp hnil]⟩

theorem eq_of_map_three {c d d' : BitVec 8} (h : bytes.map Prod.snd = [c, d, d']) :
    ∃ e e' e'', bytes = [(e, c), (e', d), (e'', d')] := by
  obtain ⟨⟨e, c'⟩, rest, rfl, rfl, hrest⟩ := List.map_eq_cons_iff.mp h
  obtain ⟨e', e'', rfl⟩ := eq_of_map_two hrest
  exact ⟨e, e', e'', rfl⟩

/-- A byte that is meant, after `ESC`: the column. -/
theorem AllMeant.column {e e' c : BitVec 8} (hs : s.ctl.state = 0)
    (h : AllMeant [(e, 27), (e', c)] s) (hc : c.toInt ∉ ['[', 'E', 'M', 'D', 'Z'].map ch) :
    (s.ctl.x = 55 ↔ c.toInt = ch '7') ∧ (s.ctl.x = 56 ↔ c.toInt = ch '8') := by
  obtain ⟨-, hm, -⟩ := h
  rw [conChar_esc hs] at hm
  exact hm rfl hc

/-- **A sequence that has begun** has done nothing to the cursor yet. -/
structure Begun (s t : Con) : Prop where
  x : t.ctl.x = s.ctl.x
  y : t.ctl.y = s.ctl.y
  savedX : t.ctl.savedX = s.ctl.savedX
  savedY : t.ctl.savedY = s.ctl.savedY
  video : t.video = s.video

namespace Begun

variable {t : Con}

theorem refl (s : Con) : Begun s s := ⟨rfl, rfl, rfl, rfl, rfl⟩

theorem setState (h : Begun s t) (n : ℕ) : Begun s (t.setState n) :=
  ⟨h.x, h.y, h.savedX, h.savedY, h.video⟩

theorem cleared (h : Begun s t) : Begun s t.cleared := ⟨h.x, h.y, h.savedX, h.savedY, h.video⟩

theorem saveCur (h : Begun s t) :
    t.saveCur.ctl.savedX = s.ctl.x ∧ t.saveCur.ctl.savedY = s.ctl.y := ⟨h.x, h.y⟩

theorem restoreCur (h : Begun s t) (hx : s.ctl.savedX ≤ s.video.numColumns)
    (hy : s.ctl.savedY < s.video.numLines) :
    t.restoreCur.ctl.x = s.ctl.savedX ∧ t.restoreCur.ctl.y = s.ctl.savedY := by
  have hin : ¬(t.video.numColumns < t.ctl.savedX ∨ t.video.numLines ≤ t.ctl.savedY) := by
    rw [h.video, h.savedX, h.savedY]
    omega
  rw [Con.restoreCur, gotoxy, if_neg hin]
  exact ⟨h.savedX, h.savedY⟩

end Begun

/-- **A sequence that saves the cursor** has saved it. -/
theorem conWrite_save {save restore : List (BitVec 8)} (hp : Pair save restore)
    (hs : s.ctl.state = 0) (hb : bytes.map Prod.snd = save) (hm : AllMeant bytes s) :
    (s.conWrite bytes).ctl.savedX = s.ctl.x ∧ (s.conWrite bytes).ctl.savedY = s.ctl.y := by
  rcases hp with ⟨rfl, -⟩ | ⟨rfl, -⟩
  · obtain ⟨e, e', rfl⟩ := eq_of_map_two hb
    have hx : s.ctl.x = 55 := (hm.column hs (by decide)).1.mpr (by decide)
    have hrun : s.conWrite [(e, 27), (e', 55)] = ((s.setState 1).setState 0).saveCur := by
      change (s.conChar e 27).conChar e' 55 = _
      rw [conChar_esc hs]
      exact conChar_seven (s := s.setState 1) rfl hx e'
    rw [hrun]
    exact (((Begun.refl s).setState 1).setState 0).saveCur
  · obtain ⟨e, e', e'', rfl⟩ := eq_of_map_three hb
    have hrun : s.conWrite [(e, 27), (e', 91), (e'', 115)] =
        (((((s.setState 1).setState 0).setState 2).cleared.setState 4).setState 0).saveCur := by
      change ((s.conChar e 27).conChar e' 91).conChar e'' 115 = _
      rw [conChar_esc hs, conChar_csi rfl, conChar_command rfl _ _ (by decide)]
      exact command_s _
    rw [hrun]
    exact ((((((Begun.refl s).setState 1).setState 0).setState 2).cleared.setState 4).setState
      0).saveCur

/-- **The one that restores it** has moved the cursor to where it was saved. -/
theorem conWrite_restore {save restore : List (BitVec 8)} (hp : Pair save restore)
    (hs : s.ctl.state = 0) (hb : bytes.map Prod.snd = restore) (hm : AllMeant bytes s)
    (hx : s.ctl.savedX ≤ s.video.numColumns) (hy : s.ctl.savedY < s.video.numLines) :
    (s.conWrite bytes).ctl.x = s.ctl.savedX ∧ (s.conWrite bytes).ctl.y = s.ctl.savedY := by
  rcases hp with ⟨-, rfl⟩ | ⟨-, rfl⟩
  · obtain ⟨e, e', rfl⟩ := eq_of_map_two hb
    have hcol : s.ctl.x = 56 := (hm.column hs (by decide)).2.mpr (by decide)
    have hrun : s.conWrite [(e, 27), (e', 56)] = ((s.setState 1).setState 0).restoreCur := by
      change (s.conChar e 27).conChar e' 56 = _
      rw [conChar_esc hs]
      exact conChar_eight (s := s.setState 1) rfl hcol e'
    rw [hrun]
    exact (((Begun.refl s).setState 1).setState 0).restoreCur hx hy
  · obtain ⟨e, e', e'', rfl⟩ := eq_of_map_three hb
    have hrun : s.conWrite [(e, 27), (e', 91), (e'', 117)] =
        (((((s.setState 1).setState 0).setState 2).cleared.setState 4).setState 0).restoreCur := by
      change ((s.conChar e 27).conChar e' 91).conChar e'' 117 = _
      rw [conChar_esc hs, conChar_csi rfl, conChar_command rfl _ _ (by decide)]
      exact command_u _
    rw [hrun]
    exact ((((((Begun.refl s).setState 1).setState 0).setState 2).cleared.setState 4).setState
      0).restoreCur hx hy

end Con

/-! ### The laws -/

variable {s : Con}

/-- **A saved cursor is restored**, and nothing else changes what is saved, in every run in which
the column always says what the byte says. -/
theorem cursor_saved (h : s.Ok) (hcols : 8 ≤ s.video.numColumns) :
    (∀ save restore (a w b : List (BitVec 8 × BitVec 8)), Con.Pair save restore →
      a.map Prod.snd = save → b.map Prod.snd = restore → s.ctl.state = 0 →
      s.AllMeant (a ++ w ++ b) → (s.conWrite a).NoSave w →
      (s.conWrite (a ++ w)).ctl.state = 0 →
        (s.conWrite (a ++ w ++ b)).ctl.x = s.ctl.x ∧
          (s.conWrite (a ++ w ++ b)).ctl.y = s.ctl.y) ∧
      ∀ w, s.AllMeant w → s.NoSave w → (s.conWrite w).ctl.savedX = s.ctl.savedX ∧
        (s.conWrite w).ctl.savedY = s.ctl.savedY := by
  constructor
  · intro save restore a w b hp ha hb hs hm hno hend
    obtain ⟨hmaw, hmb⟩ := hm.append
    obtain ⟨hma, hmw⟩ := hmaw.append
    obtain ⟨hx, hy⟩ := Con.conWrite_save hp hs ha hma
    have hkept := Con.Kept.conWrite hmw hno
    rw [← Con.conWrite_append] at hkept
    -- the cursor was on the screen, and the screen is the same
    have hvideo := (h.conWrite (a ++ w)).video
    have hsx : (s.conWrite (a ++ w)).ctl.savedX = s.ctl.x := hkept.x.trans hx
    have hsy : (s.conWrite (a ++ w)).ctl.savedY = s.ctl.y := hkept.y.trans hy
    rw [Con.conWrite_append]
    rw [← hsx, ← hsy]
    refine Con.conWrite_restore hp hend hb hmb ?_ ?_
    · rw [hsx, hvideo]
      exact h.x hcols
    · rw [hsy, hvideo]
      exact h.y
  · intro w hm hno
    have hkept := Con.Kept.conWrite hm hno
    exact ⟨hkept.x, hkept.y⟩

/-- The cursor is in column 55 of the last line of a colour display. -/
def column55 : Con := conInit ⟨false, true, 80, 55, 24⟩ fun _ => 0

theorem column55_ok : column55.Ok := Setup.ok _ _ (by decide) (by decide) (by decide)

/-- `ESC 7`, a letter and `ESC 8`, from column 55. -/
theorem cursor_saved_column55 :
    (column55.conWrite [(127, 27), (127, 55), (127, 65), (127, 27), (127, 56)]).ctl.x = 55 := by
  have h := (cursor_saved column55_ok (by decide)).1 [27, 55] [27, 56] [(127, 27), (127, 55)]
    [(127, 65)] [(127, 27), (127, 56)] (Or.inl ⟨rfl, rfl⟩) rfl rfl rfl
  refine (h ?_ ?_ rfl).1
  · exact ⟨fun h => absurd h (by decide), fun _ _ => by decide, fun h => absurd h (by decide),
      fun h => absurd h (by decide), fun _ _ => by decide, trivial⟩
  · exact ⟨Con.not_saves (by decide) (by decide) _, trivial⟩

/-- **`ESC 7` does not save the cursor** in column 0, and `ESC 8` does not restore it in column
1. -/
theorem not_cursor_saved : ¬∀ s : Con, s.Ok → 8 ≤ s.video.numColumns → s.ctl.state = 0 →
    ∀ w : List (BitVec 8 × BitVec 8), (s.conWrite [(127, 27), (127, 55)]).NoSave w →
      (s.conWrite ([(127, 27), (127, 55)] ++ w)).ctl.state = 0 →
      (s.conWrite ([(127, 27), (127, 55)] ++ w ++ [(127, 27), (127, 56)])).ctl.x = s.ctl.x := by
  intro h
  have hok : (conInit ⟨false, true, 80, 0, 24⟩ fun _ => 0).Ok :=
    Setup.ok _ _ (by decide) (by decide) (by decide)
  have hno : ((conInit ⟨false, true, 80, 0, 24⟩ fun _ => 0).conWrite
      [(127, 27), (127, 55)]).NoSave [(127, 65)] :=
    ⟨Con.not_saves (by decide) (by decide) _, trivial⟩
  have hx := h _ hok (by decide) rfl [(127, 65)] hno rfl
  exact absurd hx (by decide)

end Linux011.Console

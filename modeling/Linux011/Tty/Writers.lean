import Linux011.Tty.Line

/-!
# Several writers

`tty_write` puts a CR before a new line in a round of its own and keeps in `cr_flag` that it has
done so. There is one `cr_flag` for all calls and all terminals. A call that finds its queue full
after the CR leaves the loop, and whoever comes next takes the flag for its own: a new line is
written without a CR (`Linux011.Tty.Writers.not_output_per_call`), and the CR of the first call is
written twice.

As long as no call writes while another one is between a CR and its new line, each call writes what
is in its buffer, with a CR before every new line (`Linux011.Tty.Writers.output_per_call`).

The flags that concern the output are fixed; whatever else happens to the terminals, to their queues
too, may happen at any time.
-/

namespace Linux011.Tty

/-! ### A round of `tty_write` -/

/-- **What a round puts** into the queue, and whether it is the CR before a new line. -/
def Termios.round (t : Termios) (toUpper : Byte → Byte) (crFlag : Bool) (b : Byte) : Byte × Bool :=
  let c := t.output b
  if t.opost ∧ c = 10#8 ∧ crFlag = false ∧ t.onlcr then (13#8, true)
  else (if t.opost ∧ t.olcuc then toUpper c else c, false)

/-- It is the round of `tty_write` on one terminal. -/
theorem fetch_eq (d : Device) (b : Byte) (rest : List Byte) (s : Sys) : d.fetch b rest s =
    { s.putWrite (s.line.termios.round d.toUpper s.crFlag b).1 with
      crFlag := (s.line.termios.round d.toUpper s.crFlag b).2
      stack := [.ttyWrite (if (s.line.termios.round d.toUpper s.crFlag b).2 then b :: rest
        else rest)] } := by
  rw [Device.fetch, Termios.round]
  dsimp only
  by_cases hcr : s.line.termios.opost = true ∧ s.line.termios.output b = 10#8 ∧
      s.crFlag = false ∧ s.line.termios.onlcr = true
  · rw [if_pos hcr, if_pos hcr]
    rfl
  · rw [if_neg hcr, if_neg hcr]
    rfl

namespace Writers

/-! ### The terminals and the calls -/

/-- **A call of `tty_write`.** -/
structure Call where
  channel : Fin 3
  buf : List Byte
  /-- What is left of the buffer. -/
  rest : List Byte
  /-- For the record, all that it has put. -/
  put : List Byte
  /-- For the record, it is between a CR and the new line. -/
  halfway : Bool

/-- **`tty_table`** and the calls; at most one of them is in the inner loop, and the others are at
`sleep_if_full` or `schedule`. -/
structure Sys where
  crFlag : Bool
  line : Fin 3 → Line
  calls : ℕ → Option Call
  running : Option ℕ

/-- There is no room in the queue of a call. -/
def Sys.Full (s : Sys) (c : Call) : Prop := (s.line c.channel).writeQ.Full

instance (s : Sys) (c : Call) : Decidable (s.Full c) := inferInstanceAs (Decidable (Queue.Full _))

/-- What a call has done after a round. -/
def Call.after (c : Call) (p : Byte × Bool) : Call :=
  { c with
    rest := if p.2 then c.rest else c.rest.tail
    put := c.put ++ [p.1]
    halfway := p.2 }

/-- **A round of call `i`**, for the character `b`. -/
def Sys.round (toUpper : Byte → Byte) (s : Sys) (i : ℕ) (c : Call) (b : Byte) : Sys :=
  let t := s.line c.channel
  let p := t.termios.round toUpper s.crFlag b
  { s with
    crFlag := p.2
    line := Function.update s.line c.channel { t with writeQ := t.writeQ.putch p.1 }
    calls := Function.update s.calls i (some (c.after p)) }

/-- The flags that concern the output: `OPOST` and `ONLCR` are set, `OCRNL` and `ONLRET` clear. -/
structure Fixed (up : Bool) (t : Termios) : Prop where
  opost : t.opost = true
  onlcr : t.onlcr = true
  ocrnl : t.ocrnl = false
  onlret : t.onlret = false
  olcuc : t.olcuc = up

/-- **A step**; if `K` holds, no round while another call is between a CR and its new line. -/
inductive Step (toUpper : Byte → Byte) (up : Fin 3 → Bool) (K : Prop) (s : Sys) : Sys → Prop
  | start (i : ℕ) (channel : Fin 3) (buf : List Byte) (hrun : s.running = none)
    (hi : s.calls i = none) : Step toUpper up K s
      { s with calls := Function.update s.calls i (some ⟨channel, buf, buf, [], false⟩) }
  /-- It comes past `sleep_if_full`. -/
  | enter {i : ℕ} {c : Call} (hrun : s.running = none) (hc : s.calls i = some c)
    (hne : c.rest ≠ []) (hfull : ¬s.Full c) : Step toUpper up K s { s with running := some i }
  | round {i : ℕ} {c : Call} {b : Byte} {rest : List Byte} (hrun : s.running = some i)
    (hc : s.calls i = some c) (hb : c.rest = b :: rest) (hfull : ¬s.Full c)
    (hK : K → ∀ j c', s.calls j = some c' → c'.halfway = true → j = i) :
    Step toUpper up K s (s.round toUpper i c b)
  /-- The inner loop is over: it returns, or comes to `schedule`. -/
  | leave {i : ℕ} {c : Call} (hrun : s.running = some i) (hc : s.calls i = some c)
    (hend : c.rest = [] ∨ s.Full c) : Step toUpper up K s { s with running := none }
  /-- What else happens to the terminals. -/
  | other (line : Fin 3 → Line) (hline : ∀ n, Fixed (up n) (line n).termios) :
    Step toUpper up K s { s with line := line }

/-- No call has been made yet. -/
structure Start (up : Fin 3 → Bool) (s : Sys) : Prop where
  crFlag : s.crFlag = false
  fixed : ∀ n, Fixed (up n) (s.line n).termios
  calls : ∀ i, s.calls i = none
  running : s.running = none

/-- **What is to be written**: the buffer, with a CR before every new line. -/
def translated (toUpper : Byte → Byte) (up : Bool) (buf : List Byte) : List Byte :=
  buf.flatMap fun b =>
    (if b = 10#8 then [13#8] else []) ++ [if up then toUpper b else b]

/-! ### One call -/

variable {toUpper : Byte → Byte} {up : Fin 3 → Bool} {K : Prop} {s s' : Sys} {c c' : Call}
  {i j : ℕ} {b : Byte} {u : Bool} {t : Termios}

/-- **A call has written what it should have** of what it has read. -/
structure Right (toUpper : Byte → Byte) (u : Bool) (c : Call) : Prop where
  halfway : c.halfway = true → c.rest.head? = some 10#8
  put : ∃ done, c.buf = done ++ c.rest ∧
    c.put = translated toUpper u done ++ if c.halfway then [13#8] else []

theorem translated_append (done : List Byte) (b : Byte) :
    translated toUpper u (done ++ [b]) = translated toUpper u done ++
      ((if b = 10#8 then [13#8] else []) ++ [if u then toUpper b else b]) := by
  rw [translated, translated, List.flatMap_append, List.flatMap_singleton]

/-- **A round**, when the output is translated in this way: first the CR of a new line, if it has
not been put before. -/
theorem round_eq (h : Fixed u t) (crFlag : Bool) (b : Byte) : t.round toUpper crFlag b =
    if b = 10#8 ∧ crFlag = false then (13#8, true) else (if u then toUpper b else b, false) := by
  have hout : t.output b = b := by
    rw [Termios.output, h.ocrnl, h.onlret]
    simp
  rw [Termios.round, hout, h.opost, h.onlcr, h.olcuc]
  simp

/-- **A round of a call** whose flag is what the call itself has left. -/
theorem Right.round {rest : List Byte} (h : Right toUpper u c) (ht : Fixed u t)
    (hb : c.rest = b :: rest) : Right toUpper u (c.after (t.round toUpper c.halfway b)) := by
  obtain ⟨hhalf, done, hbuf, hput⟩ := h
  rw [round_eq ht]
  by_cases hcr : b = 10#8 ∧ c.halfway = false
  · -- the CR
    rw [if_pos hcr]
    obtain ⟨rfl, hno⟩ := hcr
    rw [hno] at hput
    refine ⟨fun _ => ?_, done, hbuf, ?_⟩
    · rw [Call.after]
      dsimp only
      rw [hb]
      rfl
    · rw [Call.after]
      dsimp only
      rw [hput]
      simp
  · -- the character itself
    rw [if_neg hcr]
    refine ⟨fun h => absurd h Bool.false_ne_true, done ++ [b], ?_, ?_⟩
    · rw [Call.after]
      dsimp only
      rw [hbuf, hb]
      simp
    · have hcase : (if c.halfway then [13#8] else []) = if b = 10#8 then [13#8] else [] := by
        cases hc : c.halfway with
        | true =>
          have hhead := hhalf hc
          rw [hb] at hhead
          rw [if_pos rfl, if_pos (Option.some.inj hhead)]
        | false =>
          rw [if_neg Bool.false_ne_true, if_neg fun h => hcr ⟨h, hc⟩]
      rw [Call.after]
      dsimp only
      rw [hput, hcase, translated_append]
      simp

/-! ### Every step -/

/-- **The flag is that of the call that is halfway**, and there is one such call at most. -/
structure Inv (toUpper : Byte → Byte) (up : Fin 3 → Bool) (s : Sys) : Prop where
  fixed : ∀ n, Fixed (up n) (s.line n).termios
  right : ∀ i c, s.calls i = some c → Right toUpper (up c.channel) c
  one : ∀ i j c c', s.calls i = some c → s.calls j = some c' → c.halfway = true →
    c'.halfway = true → i = j
  flag : s.crFlag = true ↔ ∃ i c, s.calls i = some c ∧ c.halfway = true

/-- **A call finds the flag as it has left it**, when no other one is halfway. -/
theorem Inv.crFlag_eq (h : Inv toUpper up s) (hc : s.calls i = some c)
    (hK : ∀ j c', s.calls j = some c' → c'.halfway = true → j = i) : s.crFlag = c.halfway := by
  rw [Bool.eq_iff_iff, h.flag]
  constructor
  · rintro ⟨j, c', hj, hhalf⟩
    obtain rfl := hK j c' hj hhalf
    rw [hc] at hj
    rw [Option.some.inj hj]
    exact hhalf
  · exact fun hhalf => ⟨i, c, hc, hhalf⟩

/-- **A round.** -/
theorem Inv.round {rest : List Byte} (h : Inv toUpper up s) (hc : s.calls i = some c)
    (hb : c.rest = b :: rest)
    (hK : ∀ j c', s.calls j = some c' → c'.halfway = true → j = i) :
    Inv toUpper up (s.round toUpper i c b) := by
  have hflag := h.crFlag_eq hc hK
  rw [Sys.round, hflag]
  set p := (s.line c.channel).termios.round toUpper c.halfway b with hp
  have hcalls : ∀ j c', Function.update s.calls i (some (c.after p)) j = some c' →
      (j = i ∧ c' = c.after p) ∨ (j ≠ i ∧ s.calls j = some c') := by
    intro j c' hj
    by_cases hji : j = i
    · rw [hji, Function.update_self] at hj
      exact Or.inl ⟨hji, (Option.some.inj hj).symm⟩
    · rw [Function.update_of_ne hji] at hj
      exact Or.inr ⟨hji, hj⟩
  -- no other call is halfway after it
  have honly : ∀ j c', Function.update s.calls i (some (c.after p)) j = some c' →
      c'.halfway = true → j = i := by
    intro j c' hj hhalf
    rcases hcalls j c' hj with ⟨hji, -⟩ | ⟨hji, hj⟩
    · exact hji
    · exact absurd (hK j c' hj hhalf) hji
  refine ⟨fun n => ?_, fun j c' hj => ?_, fun j k c₁ c₂ hj hk h₁ h₂ => ?_, ?_⟩
  · dsimp only
    by_cases hn : n = c.channel
    · rw [hn, Function.update_self]
      exact h.fixed c.channel
    · rw [Function.update_of_ne hn]
      exact h.fixed n
  · rcases hcalls j c' hj with ⟨-, rfl⟩ | ⟨-, hj⟩
    · exact (h.right i c hc).round (h.fixed c.channel) hb
    · exact h.right j c' hj
  · exact (honly j c₁ hj h₁).trans (honly k c₂ hk h₂).symm
  · constructor
    · exact fun hhalf => ⟨i, c.after p, Function.update_self _ _ _, hhalf⟩
    · rintro ⟨j, c', hj, hhalf⟩
      rcases hcalls j c' hj with ⟨-, rfl⟩ | ⟨hji, hj⟩
      · exact hhalf
      · exact absurd (hK j c' hj hhalf) hji

/-- **A call begins.** -/
theorem Inv.start (h : Inv toUpper up s) (hi : s.calls i = none) (channel : Fin 3)
    (buf : List Byte) : Inv toUpper up
      { s with calls := Function.update s.calls i (some ⟨channel, buf, buf, [], false⟩) } := by
  have hcalls : ∀ j c',
      Function.update s.calls i (some ⟨channel, buf, buf, [], false⟩) j = some c' →
      c' = ⟨channel, buf, buf, [], false⟩ ∨ s.calls j = some c' := by
    intro j c' hj
    by_cases hji : j = i
    · rw [hji, Function.update_self] at hj
      exact Or.inl (Option.some.inj hj).symm
    · rw [Function.update_of_ne hji] at hj
      exact Or.inr hj
  have hold : ∀ j c',
      Function.update s.calls i (some ⟨channel, buf, buf, [], false⟩) j = some c' →
      c'.halfway = true → s.calls j = some c' := by
    intro j c' hj hhalf
    rcases hcalls j c' hj with rfl | hj
    · exact absurd hhalf Bool.false_ne_true
    · exact hj
  refine ⟨h.fixed, fun j c' hj => ?_, fun j k c₁ c₂ hj hk h₁ h₂ => ?_, ?_⟩
  · rcases hcalls j c' hj with rfl | hj
    · exact ⟨fun h => absurd h Bool.false_ne_true, [], rfl, rfl⟩
    · exact h.right j c' hj
  · exact h.one j k c₁ c₂ (hold j c₁ hj h₁) (hold k c₂ hk h₂) h₁ h₂
  · rw [h.flag]
    constructor
    · rintro ⟨j, c', hj, hhalf⟩
      have hji : j ≠ i := by
        rintro rfl
        rw [hi] at hj
        cases hj
      exact ⟨j, c', (Function.update_of_ne hji _ _).trans hj, hhalf⟩
    · rintro ⟨j, c', hj, hhalf⟩
      exact ⟨j, c', hold j c' hj hhalf, hhalf⟩

theorem Inv.step (h : Inv toUpper up s) (hstep : Step toUpper up True s s') :
    Inv toUpper up s' := by
  cases hstep with
  | start i channel buf hrun hi => exact h.start hi channel buf
  | enter hrun hc hne hfull => exact ⟨h.fixed, h.right, h.one, h.flag⟩
  | round hrun hc hb hfull hK => exact h.round hc hb (hK trivial)
  | leave hrun hc hend => exact ⟨h.fixed, h.right, h.one, h.flag⟩
  | other line hline => exact ⟨hline, h.right, h.one, h.flag⟩

theorem Start.inv (h : Start up s) : Inv toUpper up s := by
  have hnone : ∀ i c, s.calls i ≠ some c := by
    intro i c hc
    rw [h.calls i] at hc
    cases hc
  refine ⟨h.fixed, fun i c hc => absurd hc (hnone i c),
    fun i j c c' hc => absurd hc (hnone i c), ?_⟩
  rw [h.crFlag]
  constructor
  · exact fun h => absurd h Bool.false_ne_true
  · rintro ⟨i, c, hc, -⟩
    exact absurd hc (hnone i c)

/-- **Output translation is per call**, as long as no call writes while another one is between a CR
and its new line: what a call has put is the beginning of its translated buffer, and all of it when
nothing is left. -/
theorem output_per_call (hs : Reachable (Start up) (Step toUpper up True) s)
    (hc : s.calls i = some c) : c.put <+: translated toUpper (up c.channel) c.buf ∧
      (c.rest = [] → c.put = translated toUpper (up c.channel) c.buf) := by
  have h : Inv toUpper up s := hs.inv (fun _ h0 => h0.inv) fun _ _ h hstep => h.step hstep
  obtain ⟨hhalf, done, hbuf, hput⟩ := h.right i c hc
  have hsplit : translated toUpper (up c.channel) c.buf =
      translated toUpper (up c.channel) done ++ translated toUpper (up c.channel) c.rest := by
    rw [hbuf, translated, List.flatMap_append]
    rfl
  rw [hput, hsplit]
  cases hc : c.halfway with
  | true =>
    -- the head of the rest is the new line
    obtain ⟨rest, hrest⟩ := List.head?_eq_some_iff.mp (hhalf hc)
    rw [hrest, if_pos rfl]
    refine ⟨?_, fun h => absurd h (List.cons_ne_nil _ _)⟩
    rw [List.prefix_append_right_inj]
    exact ⟨(if up c.channel then toUpper 10#8 else 10#8) ::
      translated toUpper (up c.channel) rest, rfl⟩
  | false =>
    rw [if_neg Bool.false_ne_true, List.append_nil]
    refine ⟨List.prefix_append _ _, fun hrest => ?_⟩
    rw [hrest]
    exact (List.append_nil _).symm

/-! ### A CR in the last place -/

/-- A terminal whose output is translated, with so many characters in the queue. -/
def translating (n : ℕ) : Line :=
  ⟨{ echoing with opost := true, onlcr := true }, false, emptyQueue, { emptyQueue with head := n },
    emptyQueue⟩

/-- There is one place left in the first queue, and the others are empty. -/
def nearlyFull : Sys :=
  ⟨false, fun n => translating (if n = 0 then 1022 else 0), fun _ => none, none⟩

theorem start_nearlyFull : Start (fun _ => false) nearlyFull :=
  ⟨rfl, fun _ => ⟨rfl, rfl, rfl, rfl, rfl⟩, fun _ => rfl, rfl⟩

/-- A call that is to write a new line. -/
def newLine (channel : Fin 3) : Call := ⟨channel, [10#8], [10#8], [], false⟩

/-- It has put the CR. -/
def newLineCr (channel : Fin 3) : Call := ⟨channel, [10#8], [10#8], [13#8], true⟩

/-- A call of `tty_write` is in the inner loop. -/
def entered (channel : Fin 3) : Sys :=
  { nearlyFull with
    calls := Function.update nearlyFull.calls 0 (some (newLine channel))
    running := some 0 }

/-- There is room for it. -/
theorem not_full_nearlyFull : ∀ channel, ¬(nearlyFull.line channel).writeQ.Full := by
  decide +kernel

theorem reachable_entered (channel : Fin 3) : Reachable (Start fun _ => false)
    (Step id (fun _ => false) K) (entered channel) := by
  have hstart : Step id (fun _ => false) K nearlyFull
      { nearlyFull with calls := Function.update nearlyFull.calls 0 (some (newLine channel)) } :=
    .start 0 channel [10#8] rfl rfl
  have henter : Step id (fun _ => false) K
      { nearlyFull with calls := Function.update nearlyFull.calls 0 (some (newLine channel)) }
      (entered channel) :=
    .enter (c := newLine channel) rfl (by simp) (List.cons_ne_nil _ _)
      (not_full_nearlyFull channel)
  exact ((Reachable.start start_nearlyFull).next hstart).next henter

/-- What a call has done in a round. -/
theorem calls_round (s : Sys) (i : ℕ) (c : Call) (b : Byte) : (s.round toUpper i c b).calls i =
    some (c.after ((s.line c.channel).termios.round toUpper s.crFlag b)) := by
  simp [Sys.round]

/-- The first round. -/
theorem reachable_round (channel : Fin 3) : Reachable (Start fun _ => false)
    (Step id (fun _ => false) K) ((entered channel).round id 0 (newLine channel) 10#8) := by
  have hcalls : (entered channel).calls 0 = some (newLine channel) := by simp [entered]
  refine (reachable_entered channel).next (.round rfl hcalls rfl (not_full_nearlyFull channel) ?_)
  intro _ j c' hj _
  by_contra hne
  simp [entered, hne, nearlyFull] at hj

/-- **A new line** on a terminal where there is room. -/
theorem output_per_call_newLine :
    ((newLineCr 1).after (10#8, false)).put = translated id false [10#8] := by
  have hs : Reachable (Start fun _ => false) (Step id (fun _ => false) True)
      (((entered 1).round id 0 (newLine 1) 10#8).round id 0 (newLineCr 1) 10#8) := by
    refine (reachable_round 1).next (.round rfl (calls_round (entered 1) 0 (newLine 1) 10#8) rfl
      ?_ ?_)
    · decide +kernel
    · intro _ j c' hj _
      by_contra hne
      simp [Sys.round, entered, hne, nearlyFull] at hj
  exact (output_per_call hs (calls_round _ 0 (newLineCr 1) 10#8)).2 rfl

/-- **A CR in the last place** of a queue, and a new line on another terminal: it is written without
a CR. -/
theorem not_output_per_call : ¬∀ (toUpper : Byte → Byte) (up : Fin 3 → Bool) (s : Sys) (i : ℕ)
    (c : Call), Reachable (Start up) (Step toUpper up False) s → s.calls i = some c →
    c.put <+: translated toUpper (up c.channel) c.buf ∧
      (c.rest = [] → c.put = translated toUpper (up c.channel) c.buf) := by
  intro h
  -- call 0 has put the CR, and there is no more room
  have h₁ := (reachable_round (K := False) 0).next (.leave (c := newLineCr 0) rfl
    (calls_round (entered 0) 0 (newLine 0) 10#8) (Or.inr (by decide +kernel)))
  have h₂ := h₁.next (.start 1 1 [10#8] rfl (by simp [Sys.round, entered, nearlyFull]))
  have h₃ := h₂.next (.enter (i := 1) (c := newLine 1) rfl (by simp; rfl) (List.cons_ne_nil _ _)
    (by decide +kernel))
  have h₄ := h₃.next (.round (c := newLine 1) (b := 10#8) rfl (by simp; rfl)
    (rfl : [10#8] = 10#8 :: []) (by decide +kernel) False.elim)
  have hlast := (h id (fun _ => false) _ 1 ((newLine 1).after (10#8, false)) h₄
    (calls_round _ 1 (newLine 1) 10#8)).2 rfl
  exact absurd hlast (by decide)

end Writers

end Linux011.Tty

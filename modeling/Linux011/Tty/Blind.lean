import Linux011.Tty.Keyboard

/-!
# The keyboard and the program it interrupts

Every routine of `key_table` loads the registers it uses, so that what it does to the keyboard
depends on the scan code and on the keyboard alone (`Linux011.Keyboard.call_agree`); but for `func`.
It asks `%ecx` for the room in the queue, and `%ecx` is what the interrupted program has left there.

So what is typed depends on nothing else exactly if no function key comes while the queue has room
for what it sends (`Linux011.Keyboard.run_blind_iff`).
-/

namespace Linux011.Keyboard

variable {L : Layout} {m m' : Machine} {k k' : Kbd} {r r' : Regs} {code : Byte}

/-! ### Two machines -/

/-- **Two machines agree** on `%eax` and on what there is to be seen of the interrupt. -/
structure Agree (m m' : Machine) : Prop where
  eax : m.eax = m'.eax
  kbd : m.kbd = m'.kbd
  put : m.put = m'.put

namespace Agree

theorem al (h : Agree m m') : m.al = m'.al := by rw [Machine.al, Machine.al, h.eax]

theorem ite {c c' : Prop} [Decidable c] [Decidable c'] {n n' : Machine} (hc : c ↔ c')
    (h : Agree m m') (h' : Agree n n') : Agree (if c then m else n) (if c' then m' else n') := by
  by_cases hp : c
  · rwa [if_pos hp, if_pos (hc.mp hp)]
  · rwa [if_neg hp, if_neg fun hp' => hp (hc.mpr hp')]

variable {b b' : Byte}

theorem setAl (h : Agree m m') (hb : b = b') : Agree (m.setAl b) (m'.setAl b') := by
  refine ⟨?_, h.kbd, h.put⟩
  rw [Machine.setAl, Machine.setAl, h.eax, hb]

theorem setAh (h : Agree m m') (hb : b = b') : Agree (m.setAh b) (m'.setAh b') := by
  refine ⟨?_, h.kbd, h.put⟩
  rw [Machine.setAh, Machine.setAh, h.eax, hb]

theorem setMode (h : Agree m m') (hb : b = b') : Agree (m.setMode b) (m'.setMode b') := by
  refine ⟨h.eax, ?_, h.put⟩
  rw [Machine.setMode, Machine.setMode, h.kbd, hb]

theorem setLeds (h : Agree m m') (hb : b = b') : Agree (m.setLeds b) (m'.setLeds b') := by
  refine ⟨h.eax, ?_, h.put⟩
  rw [Machine.setLeds, Machine.setLeds, h.kbd, hb]

theorem outb (h : Agree m m') (port : ℕ) : Agree (m.outb port) (m'.outb port) := by
  refine ⟨h.eax, ?_, h.put⟩
  rw [Machine.outb, Machine.outb, h.kbd, h.al]

/-- `put_queue` uses `%ebx` as well. -/
theorem putQueue (h : Agree m m') (hebx : m.ebx = m'.ebx) :
    Agree (putQueue m) (putQueue m') := by
  refine ⟨h.eax, ?_, ?_⟩
  · rw [Keyboard.putQueue, Keyboard.putQueue, h.eax, h.kbd, hebx]
  · rw [Keyboard.putQueue, Keyboard.putQueue, h.eax, h.kbd, h.put, hebx]

end Agree

/-! ### The routines -/

theorem press_agree (h : Agree m m') : Agree (press m) (press m') := by
  have hal : Agree (if m.kbd.e0 = 0 then m else m.setAl (m.al + m.al))
      (if m'.kbd.e0 = 0 then m' else m'.setAl (m'.al + m'.al)) :=
    Agree.ite (by rw [h.kbd]) h (h.setAl (by rw [h.al]))
  exact hal.setMode (by rw [hal.kbd, hal.al])

theorem release_agree (h : Agree m m') : Agree (release m) (release m') := by
  have hal : Agree (if m.kbd.e0 = 0 then m else m.setAl (m.al + m.al))
      (if m'.kbd.e0 = 0 then m' else m'.setAl (m'.al + m'.al)) :=
    Agree.ite (by rw [h.kbd]) h (h.setAl (by rw [h.al]))
  have hnot := hal.setAl (congrArg (~~~·) hal.al)
  exact hnot.setMode (by rw [hnot.kbd, hnot.al])

/-- What is done with `mode` only. -/
theorem mode_agree (h : Agree m m') (f : Byte → Byte) :
    Agree (m.setMode (f m.kbd.mode)) (m'.setMode (f m'.kbd.mode)) :=
  h.setMode (by rw [h.kbd])

theorem setLeds_agree (h : Agree m m') : Agree (setLeds m) (setLeds m') := by
  have hout : Agree ((m.setAl 0xed).outb 0x60) ((m'.setAl 0xed).outb 0x60) :=
    (h.setAl rfl).outb 0x60
  exact (hout.setAl (by rw [hout.kbd])).outb 0x60

/-- A lamp is switched. -/
theorem lamp_agree (h : Agree m m') (b : Byte) :
    Agree (m.setLeds (m.kbd.leds ^^^ b)) (m'.setLeds (m'.kbd.leds ^^^ b)) :=
  h.setLeds (by rw [h.kbd])

theorem caps_agree (h : Agree m m') : Agree (caps m) (caps m') := by
  rw [caps, caps]
  refine Agree.ite (by rw [h.kbd]) h ?_
  exact setLeds_agree (mode_agree (mode_agree (lamp_agree h 4) (· ^^^ 0x40)) (· ||| 0x80))

theorem cur_agree (h : Agree m m') : Agree (cur m) (cur m') := by
  have hal := h.setAl (b := curTable.getD m.eax.toNat 0) (congrArg (curTable.getD ·.toNat 0) h.eax)
  have hah := Agree.ite (c := (m.setAl (curTable.getD m.eax.toNat 0)).al > 0x39)
    (by rw [hal.al]) hal (hal.setAh (b := 0x7e) rfl)
  refine Agree.putQueue ⟨?_, hah.kbd, hah.put⟩ rfl
  dsimp only [Machine.setAx]
  rw [hah.eax]

theorem cur2_agree (h : Agree m m') : Agree (cur2 L m) (cur2 L m') := by
  rw [cur2, cur2]
  refine Agree.ite (by rw [h.kbd]) (cur_agree h) ?_
  have hebx : Agree { m with ebx := 0 } { m' with ebx := 0 } := ⟨h.eax, h.kbd, h.put⟩
  exact Agree.putQueue (hebx.setAl (by rw [hebx.eax])) rfl

/-- **`cursor`** resets both machines or neither. -/
theorem cursor_agree (h : Agree m m') : Option.Rel Agree (cursor L m) (cursor L m') := by
  have hal := h.setAl (b := m.al - 0x47) (congrArg (· - 0x47) h.al)
  have hbelow : m.al < 0x47 ∨ (m.setAl (m.al - 0x47)).al > 12 ↔
      m'.al < 0x47 ∨ (m'.setAl (m'.al - 0x47)).al > 12 := by rw [hal.al, h.al]
  rw [cursor, cursor]
  by_cases hout : m.al < 0x47 ∨ (m.setAl (m.al - 0x47)).al > 12
  · rw [if_pos hout, if_pos (hbelow.mp hout)]
    exact Option.Rel.some hal
  · rw [if_neg hout, if_neg fun hx => hout (hbelow.mpr hx), hal.al, hal.kbd]
    split
    · exact Option.Rel.none
    · exact Option.Rel.some (cur2_agree hal)

/-- Only `mode` says which map is loaded. -/
theorem chooseMap_agree (h : Agree m m') :
    Agree (chooseMap L m) (chooseMap L m') ∧ (chooseMap L m).ebx = (chooseMap L m').ebx := by
  have hload (b : BitVec 32) : Agree { m with ebx := b } { m' with ebx := b, kbd := m.kbd } :=
    ⟨h.eax, rfl, h.put⟩
  rw [chooseMap, chooseMap, ← h.kbd]
  split
  · exact ⟨hload _, rfl⟩
  · split
    · exact ⟨hload _, rfl⟩
    · exact ⟨hload _, rfl⟩

theorem applyCaps_agree (h : Agree m m') : Agree (applyCaps m) (applyCaps m') := by
  rw [applyCaps, applyCaps]
  exact Agree.ite (by rw [h.kbd, h.al]) (h.setAl (by rw [h.al])) h

theorem applyCtrl_agree (h : Agree m m') : Agree (applyCtrl m) (applyCtrl m') := by
  rw [applyCtrl, applyCtrl]
  exact Agree.ite (by rw [h.kbd, h.al]) (h.setAl (by rw [h.al])) h

theorem applyAlt_agree (h : Agree m m') : Agree (applyAlt m) (applyAlt m') := by
  rw [applyAlt, applyAlt]
  exact Agree.ite (by rw [h.kbd]) (h.setAl (by rw [h.al])) h

theorem putChar_agree (h : Agree m m') : Agree (putChar m) (putChar m') :=
  Agree.putQueue ⟨congrArg (· &&& 0xff) h.eax, h.kbd, h.put⟩ rfl

theorem fetch_agree (h : Agree m m') (hebx : m.ebx = m'.ebx) :
    Agree (fetch L m) (fetch L m') :=
  h.setAl (by rw [hebx, h.eax])

theorem doSelf_agree (h : Agree m m') : Agree (doSelf L m) (doSelf L m') := by
  obtain ⟨hmap, hebx⟩ := chooseMap_agree (L := L) h
  have hc := fetch_agree (L := L) hmap hebx
  rw [doSelf, doSelf]
  refine Agree.ite (by rw [hc.al]) hc ?_
  exact putChar_agree (applyAlt_agree (applyCtrl_agree (applyCaps_agree hc)))

theorem minus_agree (h : Agree m m') : Agree (minus L m) (minus L m') := by
  rw [minus, minus]
  exact Agree.ite (by rw [h.kbd]) (doSelf_agree h) (Agree.putQueue ⟨rfl, h.kbd, h.put⟩ rfl)

/-- **Every routine but `func`** does the same to the keyboard, whatever is in the registers it has
not loaded. -/
theorem call_agree (h : Agree m m') (t : Routine) (ht : t ≠ .func) :
    Option.Rel Agree (t.call L m) (t.call L m') := by
  cases t with
  | none => exact Option.Rel.some h
  | doSelf => exact Option.Rel.some (doSelf_agree h)
  | ctrl => exact Option.Rel.some (press_agree (h.setAl rfl))
  | alt => exact Option.Rel.some (press_agree (h.setAl rfl))
  | lshift => exact Option.Rel.some (mode_agree h (· ||| 0x01))
  | rshift => exact Option.Rel.some (mode_agree h (· ||| 0x02))
  | caps => exact Option.Rel.some (caps_agree h)
  | func => exact absurd rfl ht
  | num => exact Option.Rel.some (setLeds_agree (lamp_agree h 2))
  | scroll => exact Option.Rel.some (setLeds_agree (lamp_agree h 1))
  | cursor => exact cursor_agree h
  | minus => exact Option.Rel.some (minus_agree h)
  | unctrl => exact Option.Rel.some (release_agree (h.setAl rfl))
  | unalt => exact Option.Rel.some (release_agree (h.setAl rfl))
  | unlshift => exact Option.Rel.some (mode_agree h (· &&& 0xfe))
  | unrshift => exact Option.Rel.some (mode_agree h (· &&& 0xfd))
  | uncaps => exact Option.Rel.some (mode_agree h (· &&& 0x7f))

/-! ### An interrupt -/

/-- **There is room for the four bytes of a function key.** -/
def Kbd.Roomy (k : Kbd) : Prop := k.console.bytes.length + 4 < Tty.ttyBufSize

theorem al_setAl (m : Machine) (b : Byte) : (m.setAl b).al = b := by
  rw [Machine.al, Machine.setAl]
  exact BitVec.extractLsb'_append_eq_right

/-- **The acknowledgement** goes to the ports, and has nothing to do with what came before. -/
theorem ack_kbd (b : Byte) (m : Machine) : (ack b m).kbd = { m.kbd with ports :=
    m.kbd.ports ++ [(0x61, b ||| 0x80), (0x61, (b ||| 0x80) &&& 0x7f), (0x20, 0x20)] } := by
  have hout (m : Machine) (c : Byte) (port : ℕ) : ((m.setAl c).outb port).kbd =
      { m.kbd with ports := m.kbd.ports ++ [(port, c)] } := by
    rw [Machine.outb, al_setAl]
    rfl
  have hal (m : Machine) (port : ℕ) : (m.outb port).al = m.al := rfl
  rw [ack, hout, hout, hout, hal, al_setAl, al_setAl]
  dsimp only [Machine.setAl]
  rw [List.append_assoc, List.append_assoc]
  rfl

/-- What there is to be seen of an interrupt. -/
def Machine.seen (m : Machine) : List Byte × Kbd := (m.put, m.kbd)

theorem seen_ack (b : Byte) (h : m.seen = m'.seen) : (ack b m).seen = (ack b m').seen := by
  have hput (m : Machine) : (ack b m).put = m.put := rfl
  obtain ⟨hp, hk⟩ := Prod.mk.inj h
  rw [Machine.seen, Machine.seen, hput, hput, hp, ack_kbd, ack_kbd, hk]

theorem seen_setE0 (b : Byte) (h : m.seen = m'.seen) : (m.setE0 b).seen = (m'.setE0 b).seen := by
  obtain ⟨hp, hk⟩ := Prod.mk.inj h
  rw [Machine.seen, Machine.seen, Machine.setE0, Machine.setE0, hp, hk]

theorem Agree.seen (h : Agree m m') : m.seen = m'.seen := by
  rw [Machine.seen, Machine.seen, h.put, h.kbd]

theorem map_seen {o o' : Option Machine} (h : Option.Rel Agree o o') :
    o.map Machine.seen = o'.map Machine.seen := by
  cases h with
  | none => rfl
  | some h => exact congrArg some h.seen

/-- **Interrupts look the same** where the routine called looks the same. -/
theorem interrupt_eq_of_seen (port61 : Byte)
    (h : ((keyTable code).call L (enter r code k)).map Machine.seen =
      ((keyTable code).call L (enter r' code k)).map Machine.seen) :
    interrupt L r code port61 k = interrupt L r' code port61 k := by
  have hseen {m m' : Machine} (h : m.seen = m'.seen) :
      some ((ack port61 m).put, (ack port61 m).kbd) =
        some ((ack port61 m').put, (ack port61 m').kbd) := congrArg some (seen_ack port61 h)
  have henter : (enter r code k).seen = (enter r' code k).seen := rfl
  rw [interrupt, interrupt]
  split
  · exact hseen (seen_setE0 1 henter)
  · split
    · exact hseen (seen_setE0 2 henter)
    · rcases hm : (keyTable code).call L (enter r code k) with _ | m
      · rw [hm] at h
        rw [Option.map_eq_none_iff.mp h.symm]
      · rw [hm] at h
        obtain ⟨m', hm', hs⟩ := Option.map_eq_some_iff.mp h.symm
        rw [hm']
        exact hseen (seen_setE0 0 hs.symm)

/-! ### Function keys -/

/-- There is nothing in `%eax` but `%al`. -/
def Machine.Clear (m : Machine) : Prop := m.eax.extractLsb' 8 24 = 0

theorem clear_enter (r : Regs) (code : Byte) (k : Kbd) : (enter r code k).Clear := by
  change ((BitVec.extractLsb' 8 24 ((BitVec.extractLsb' 8 24 0x10#32 ++ 0#8) : BitVec (24 + 8)) ++
    code : BitVec (24 + 8))).extractLsb' 8 24 = 0
  revert code
  decide +kernel

theorem setAl_eq (h : m.Clear) (b : Byte) : m.setAl b = { m with eax := b.setWidth 32 } := by
  have hw : ((0#24 ++ b : BitVec (24 + 8))) = b.setWidth 32 := by
    revert b
    decide +kernel
  rw [Machine.setAl, h]
  exact congrArg (fun e => ({ m with eax := e } : Machine)) hw

/-- A byte after another one. -/
theorem setAl_setAl_eq (h : m.Clear) (b c : Byte) :
    (m.setAl b).setAl c = { m with eax := c.setWidth 32 } := by
  have hclear : (m.setAl b).Clear := by
    have hw : ((0#24 ++ b : BitVec (24 + 8))).extractLsb' 8 24 = 0 := by
      revert b
      decide +kernel
    rw [Machine.Clear, Machine.setAl, h]
    exact hw
  rw [setAl_eq hclear, setAl_eq h]

/-- **Where the subtractions of `func` lead**: to an index of `func_table`. -/
theorem func_index (h : keyTable code = .func) : ¬code < 0x3b ∧
    ((code - 0x3b ≤ 9 ∧ (code - 0x3b).toNat < 12) ∨
      ¬code - 0x3b ≤ 9 ∧ ¬(code - 0x3b - 18 < 10 ∨ code - 0x3b - 18 > 11) ∧
        (code - 0x3b - 18).toNat < 12) := by
  revert code
  decide +kernel

/-- **`func` comes to `ok_func`** with such an index in `%eax`. -/
theorem func_enter (h : keyTable code = .func) : ∃ i : BitVec 32, i.toNat < 12 ∧
    ∀ r k, func (enter r code k) = okFunc { enter r code k with eax := i } := by
  have hindex (b : Byte) : (b.setWidth 32).toNat = b.toNat := by
    rw [BitVec.toNat_setWidth]
    omega
  have hal (r : Regs) (k : Kbd) : (enter r code k).al = code := al_setAl _ _
  obtain ⟨hlow, ⟨hle, hi⟩ | ⟨hgt, hin, hi⟩⟩ := func_index h
  · refine ⟨(code - 0x3b).setWidth 32, by rwa [hindex], fun r k => ?_⟩
    rw [func, hal, if_neg hlow, al_setAl, if_pos hle, setAl_eq (clear_enter r code k)]
  · refine ⟨(code - 0x3b - 18).setWidth 32, by rwa [hindex], fun r k => ?_⟩
    rw [func, hal, if_neg hlow, al_setAl, if_neg hgt]
    dsimp only
    rw [al_setAl, if_neg hin, setAl_setAl_eq (clear_enter r code k)]

/-- **A function key sends four bytes.** -/
theorem length_bytesOf_func {i : ℕ} (h : i < 12) :
    (bytesOf 8 0 (funcTable.getD i 0)).length = 4 := by
  revert i
  decide

/-- The bytes it sends. -/
def sent (m : Machine) : List Byte := bytesOf 8 0 (funcTable.getD m.eax.toNat 0)

/-- It has sent them. -/
theorem okFunc_put (hi : m.eax.toNat < 12) (hecx : ¬m.ecx.slt 4) (hroom : m.kbd.Roomy) :
    (okFunc m).put.length = m.put.length + 4 := by
  have hlen : (sent m).length = 4 := length_bytesOf_func hi
  have hput : (okFunc m).put = m.put ++ m.kbd.console.accepted (sent m) := by
    rw [okFunc, if_neg hecx]
    rfl
  have hacc : m.kbd.console.accepted (sent m) = sent m := by
    rw [Console.accepted, hlen]
    exact if_pos hroom
  rw [hput, hacc, List.length_append, hlen]

/-- Where there is no room, `%ecx` does not matter. -/
theorem okFunc_full (hi : m.eax.toNat < 12) (hroom : ¬m.kbd.Roomy) : (okFunc m).seen = m.seen := by
  have hlen : (sent m).length = 4 := length_bytesOf_func hi
  have hacc : m.kbd.console.accepted (sent m) = [] := by
    rw [Console.accepted, hlen]
    exact if_neg hroom
  have hstore : m.kbd.console.store (sent m) = m.kbd.console := by
    rw [Console.store, hlen]
    exact if_neg hroom
  rw [okFunc]
  split
  · rfl
  · change (m.put ++ m.kbd.console.accepted (sent m),
      { m.kbd with console := m.kbd.console.store (sent m) }) = (m.put, m.kbd)
    rw [hacc, hstore, List.append_nil]

/-! ### An interrupt does not look at the program -/

/-- **The key is a function key, and there is room for what it sends.** -/
def Peeks (code : Byte) (k : Kbd) : Prop := keyTable code = .func ∧ k.Roomy

/-- **An interrupt** does the same whatever it interrupts, but for those keys. -/
theorem interrupt_blind (h : ¬Peeks code k) (r r' : Regs) (port61 : Byte) :
    interrupt L r code port61 k = interrupt L r' code port61 k := by
  refine interrupt_eq_of_seen port61 ?_
  by_cases hfunc : keyTable code = .func
  · obtain ⟨i, hi, hcall⟩ := func_enter hfunc
    have hfull : ¬k.Roomy := fun hroom => h ⟨hfunc, hroom⟩
    have hseen (r : Regs) : (func (enter r code k)).seen = ([], k) := by
      rw [hcall, okFunc_full hi hfull]
      rfl
    rw [hfunc]
    exact congrArg some ((hseen r).trans (hseen r').symm)
  · have hagree : Agree (enter r code k) (enter r' code k) := ⟨rfl, rfl, rfl⟩
    have hrel := call_agree (L := L) hagree _ hfunc
    exact map_seen hrel

/-- Registers that tell `func` that there is no room. -/
def closed : Regs := ⟨0, 0, 0, 0⟩

/-- Registers that tell it that there is room. -/
def roomy : Regs := ⟨0, 0, 4, 0⟩

/-- **Those keys** send nothing or four bytes. -/
theorem interrupt_peeks (h : Peeks code k) (port61 : Byte) :
    (∃ k', interrupt L closed code port61 k = some ([], k')) ∧
      ∃ cs k', interrupt L roomy code port61 k = some (cs, k') ∧ cs.length = 4 := by
  obtain ⟨hfunc, hroom⟩ := h
  obtain ⟨i, hi, hcall⟩ := func_enter hfunc
  have hprefix : code ≠ 0xe0 ∧ code ≠ 0xe1 := by
    constructor
    · rintro rfl
      exact absurd hfunc (by decide)
    · rintro rfl
      exact absurd hfunc (by decide)
  have hrun (r : Regs) : interrupt L r code port61 k =
      some ((okFunc { enter r code k with eax := i }).put,
        (ack port61 ((okFunc { enter r code k with eax := i }).setE0 0)).kbd) := by
    rw [interrupt, if_neg hprefix.1, if_neg hprefix.2, hfunc]
    have hfunc' : Routine.call L (enter r code k) .func =
        some (okFunc { enter r code k with eax := i }) := congrArg some (hcall r k)
    rw [hfunc']
    rfl
  have hecx : ¬(4#32).slt 4 := by decide
  exact ⟨⟨_, hrun closed⟩, _, _, hrun roomy, okFunc_put hi hecx hroom⟩

/-! ### Runs -/

/-- **No function key comes while there is room for what it sends.** -/
def Quiet (L : Layout) : List Event → Kbd → Prop
  | [], _ => True
  | e :: es, k => ¬Peeks e.code k ∧ ∀ cs k', step L closed e k = some (cs, k') → Quiet L es k'

theorem step_blind {e : Event} (h : ¬Peeks e.code k) (r r' : Regs) :
    step L r e k = step L r' e k := by
  rw [step, step, interrupt_blind h r r']

/-- One step of the run and the rest of it. -/
theorem run_cons (rs : ℕ → Regs) {e : Event} {es : List Event} {cs : List Byte}
    (h : step L (rs 0) e k = some (cs, k')) : run L rs (e :: es) k =
      (cs :: (run L (fun n => rs (n + 1)) es k').1, (run L (fun n => rs (n + 1)) es k').2) := by
  rw [run, h]

/-- **A quiet run** does not depend on what it interrupts. -/
theorem run_eq_of_quiet {es : List Event} (h : Quiet L es k) (rs rs' : ℕ → Regs) :
    run L rs es k = run L rs' es k := by
  induction es generalizing k rs rs' with
  | nil => rfl
  | cons e es ih =>
    obtain ⟨hpeek, hrest⟩ := h
    have hstep := step_blind (L := L) hpeek closed
    rcases hs : step L closed e k with _ | ⟨cs, k'⟩
    · rw [run, run, ← hstep (rs 0), ← hstep (rs' 0), hs]
    · rw [run_cons rs ((hstep (rs 0)).symm.trans hs), run_cons rs' ((hstep (rs' 0)).symm.trans hs),
        ih (hrest cs k' hs) _ fun n => rs' (n + 1)]

/-- **What those keys send** is seen in the run. -/
theorem run_ne {e : Event} (es : List Event) (h : Peeks e.code k) :
    run L (fun _ => closed) (e :: es) k ≠ run L (fun _ => roomy) (e :: es) k := by
  obtain ⟨⟨k₁, h₁⟩, cs, k₂, h₂, hlen⟩ := interrupt_peeks (L := L) h e.port61
  have hclosed : step L closed e k = some ([], { k₁ with console := e.rest k₁.console }) := by
    rw [step, h₁, Option.map_some]
  have hroomy : step L roomy e k = some (cs, { k₂ with console := e.rest k₂.console }) := by
    rw [step, h₂, Option.map_some]
  intro heq
  rw [run_cons (fun _ => closed) hclosed, run_cons (fun _ => roomy) hroomy] at heq
  obtain ⟨hput, -⟩ := Prod.mk.inj heq
  obtain ⟨hnil, -⟩ := List.cons.inj hput
  rw [← hnil] at hlen
  exact absurd hlen (Nat.succ_ne_zero 3).symm

/-- Registers at one interrupt, and at those after it. -/
def consRegs (r : Regs) (rs : ℕ → Regs) : ℕ → Regs
  | 0 => r
  | n + 1 => rs n

/-- **What is typed depends on the interrupted program** exactly if the run is not quiet. -/
theorem run_blind_iff (L : Layout) (k : Kbd) (es : List Event) :
    (∀ rs rs' : ℕ → Regs, run L rs es k = run L rs' es k) ↔ Quiet L es k := by
  refine ⟨fun h => ?_, run_eq_of_quiet⟩
  induction es generalizing k with
  | nil => trivial
  | cons e es ih =>
    constructor
    · intro hpeek
      exact run_ne es hpeek (h _ _)
    · -- what comes after the first interrupt is such a run as well
      intro cs k' hs
      refine ih k' fun rs rs' => ?_
      have hrun (rs : ℕ → Regs) : run L (consRegs closed rs) (e :: es) k =
          (cs :: (run L rs es k').1, (run L rs es k').2) := run_cons (consRegs closed rs) hs
      have heq := h (consRegs closed rs) (consRegs closed rs')
      rw [hrun, hrun] at heq
      obtain ⟨hput, hkbd⟩ := Prod.mk.inj heq
      exact Prod.ext (List.cons.inj hput).2 hkbd

/-- Nothing has been typed, and num-lock is on. -/
def fresh : Kbd := ⟨0, 2, 0, ⟨[], none, fun _ => 0⟩, []⟩

/-- **The key F1** puts nothing into an empty queue, or an escape sequence. -/
theorem not_run_blind : ¬∀ (L : Layout) (k : Kbd) (es : List Event) (rs rs' : ℕ → Regs),
    run L rs es k = run L rs' es k := by
  intro h
  have hroom : fresh.Roomy := show 0 + 4 < 1024 by decide
  exact run_ne (L := ⟨0, 0, 0, 0, fun _ => 0⟩) (e := ⟨0x3b, 0, fun c => c⟩) [] ⟨rfl, hroom⟩
    (h _ _ _ _ _)

/-! ### The queue of the terminal -/

/-- **What is in the ring** after `put_queue`, is what the console has then. -/
theorem contents_putQueue {q : Tty.Queue} (h : q.Ok) (c : Console) (hc : c.bytes = q.contents)
    (cs : List Byte) : (c.store cs).bytes = (q.putQueue cs).contents := by
  have hwake (c : Console) : c.wake.bytes = c.bytes := by
    rw [Console.wake]
    split <;> rfl
  have hacc : q.accepted cs = c.accepted cs := by
    have hlen : c.bytes.length = q.chars := by rw [hc, Tty.Queue.length_contents]
    rw [Tty.Queue.accepted, Console.accepted, hlen, ← Tty.Queue.place_chars h]
    by_cases hroom : q.chars + cs.length < Tty.ttyBufSize
    · rw [if_pos hroom, if_pos (Tty.Queue.store_isSome h cs q.chars q.buf hroom)]
    · rw [if_neg hroom, if_neg]
      intro hsome
      obtain ⟨i, hi⟩ := Option.isSome_iff_exists.mp hsome
      have hchars : q.chars < Tty.ttyBufSize := by
        have := Tty.Queue.left_eq h
        rw [Tty.ttyBufSize]
        omega
      exact hroom ((Tty.Queue.store_spec h cs q.chars q.buf hchars).2 i hi).1
  rw [(Tty.Queue.putQueue_spec h cs).2, hacc, Console.store, Console.accepted, ← hc]
  split
  · exact hwake _
  · exact (List.append_nil _).symm

end Linux011.Keyboard

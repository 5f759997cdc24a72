import Linux011.Tty.Queue

/-!
# The keyboard interrupt

`kernel/chr_drv/keyboard.S`, instruction by instruction as far as it computes: the registers `eax`,
`ebx`, `ecx` and `edx`, the bytes `mode`, `leds` and `e0`, the read queue of the console with the
task that waits for it, and what is written to the ports.

The read queue is what it holds, the oldest byte first; that `put_queue` does with the ring what is
said here is `Linux011.Keyboard.contents_putQueue`. The keyboard that `include/linux/config.h`
chooses, with the places of its maps, is a parameter. `kb_wait` does nothing here but come to an
end, and `show_stat` prints, and leaves the registers as they are.
-/

namespace Linux011.Keyboard

/-- A byte. -/
abbrev Byte := BitVec 8

/-! ### Registers and memory -/

/-- The registers that the handler saves. -/
structure Regs where
  eax : BitVec 32
  ebx : BitVec 32
  ecx : BitVec 32
  edx : BitVec 32

/-- **The console**, as far as the keyboard has to do with it. -/
structure Console where
  /-- What is in `read_q`, the oldest first. -/
  bytes : List Byte
  /-- `proc_list` -/
  procList : Option ℕ
  /-- The state of each task. -/
  state : ℕ → ℤ

/-- **The keyboard.** -/
structure Kbd where
  /-- caps, alt, ctrl and shift mode -/
  mode : Byte
  /-- num-lock, caps, scroll-lock mode -/
  leds : Byte
  e0 : Byte
  console : Console
  /-- What has been written to the ports, the last one last. -/
  ports : List (ℕ × Byte)

/-- **The machine in the handler**, with what this interrupt has put into the queue. -/
structure Machine extends Regs where
  kbd : Kbd
  put : List Byte

/-- What `include/linux/config.h` chooses: where the maps are, and what is there. -/
structure Layout where
  keyMap : BitVec 32
  shiftMap : BitVec 32
  altMap : BitVec 32
  numTable : BitVec 32
  load : BitVec 32 → Byte

namespace Machine

variable (m : Machine)

/-- `%al` -/
def al : Byte := m.eax.extractLsb' 0 8

/-- `movb b,%al` -/
def setAl (b : Byte) : Machine :=
  { m with eax := (m.eax.extractLsb' 8 24 ++ b : BitVec (24 + 8)) }

/-- `movb b,%ah` -/
def setAh (b : Byte) : Machine :=
  { m with eax := (m.eax.extractLsb' 16 16 ++ b ++ m.eax.extractLsb' 0 8 : BitVec (16 + 8 + 8)) }

/-- `movw w,%ax` -/
def setAx (w : BitVec 16) : Machine :=
  { m with eax := (m.eax.extractLsb' 16 16 ++ w : BitVec (16 + 16)) }

/-- A store into `mode`. -/
def setMode (b : Byte) : Machine := { m with kbd := { m.kbd with mode := b } }

/-- A store into `leds`. -/
def setLeds (b : Byte) : Machine := { m with kbd := { m.kbd with leds := b } }

/-- A store into `e0`. -/
def setE0 (b : Byte) : Machine := { m with kbd := { m.kbd with e0 := b } }

/-- `outb %al,port` -/
def outb (port : ℕ) : Machine :=
  { m with kbd := { m.kbd with ports := m.kbd.ports ++ [(port, m.al)] } }

end Machine

/-! ### `put_queue` -/

/-- The bytes of `%ebx:%eax` up to the last one that is not 0, and at least one: what `shrdl` leaves
of `%eax` is looked at after each. -/
def bytesOf : ℕ → BitVec 32 → BitVec 32 → List Byte
  | 0, _, _ => []
  | n + 1, ebx, eax =>
    -- `shrdl $8,%ebx,%eax`
    let eax' : BitVec 32 := (ebx.extractLsb' 0 8 ++ eax.extractLsb' 8 24 : BitVec (8 + 24))
    eax.extractLsb' 0 8 :: if eax' = 0 then [] else bytesOf n (ebx >>> 8) eax'

/-- `movl $0,(%ecx)` for the task that waits, if there is one. -/
def Console.wake (c : Console) : Console :=
  match c.procList with
  | none => c
  | some p => { c with state := Function.update c.state p 0 }

/-- Bytes come behind the others if there is room for all of them, and wake who waits. -/
def Console.store (c : Console) (cs : List Byte) : Console :=
  if c.bytes.length + cs.length < Tty.ttyBufSize then { c with bytes := c.bytes ++ cs }.wake else c

/-- What is stored. -/
def Console.accepted (c : Console) (cs : List Byte) : List Byte :=
  if c.bytes.length + cs.length < Tty.ttyBufSize then cs else []

/-- `put_queue`. Its pops restore `%ecx` and `%edx`; the others are not used any more. -/
def putQueue (m : Machine) : Machine :=
  let cs := bytesOf 8 m.ebx m.eax
  { m with
    kbd := { m.kbd with console := m.kbd.console.store cs }
    put := m.put ++ m.kbd.console.accepted cs }

/-! ### Keys that change the mode -/

/-- The end of `ctrl` and `alt`. -/
def press (m : Machine) : Machine :=
  let m := if m.kbd.e0 = 0 then m else m.setAl (m.al + m.al)
  m.setMode (m.kbd.mode ||| m.al)

/-- `ctrl` -/
def ctrl (m : Machine) : Machine := press (m.setAl 0x04)

/-- `alt` -/
def alt (m : Machine) : Machine := press (m.setAl 0x10)

/-- The end of `unctrl` and `unalt`. -/
def release (m : Machine) : Machine :=
  let m := if m.kbd.e0 = 0 then m else m.setAl (m.al + m.al)
  let m := m.setAl (~~~m.al)
  m.setMode (m.kbd.mode &&& m.al)

/-- `unctrl` -/
def unctrl (m : Machine) : Machine := release (m.setAl 0x04)

/-- `unalt` -/
def unalt (m : Machine) : Machine := release (m.setAl 0x10)

/-- `lshift` -/
def lshift (m : Machine) : Machine := m.setMode (m.kbd.mode ||| 0x01)

/-- `unlshift` -/
def unlshift (m : Machine) : Machine := m.setMode (m.kbd.mode &&& 0xfe)

/-- `rshift` -/
def rshift (m : Machine) : Machine := m.setMode (m.kbd.mode ||| 0x02)

/-- `unrshift` -/
def unrshift (m : Machine) : Machine := m.setMode (m.kbd.mode &&& 0xfd)

/-- `set_leds` -/
def setLeds (m : Machine) : Machine :=
  let m := (m.setAl 0xed).outb 0x60
  (m.setAl m.kbd.leds).outb 0x60

/-- `caps` -/
def caps (m : Machine) : Machine :=
  if m.kbd.mode &&& 0x80 ≠ 0 then m
  else
    let m := m.setLeds (m.kbd.leds ^^^ 4)
    let m := m.setMode (m.kbd.mode ^^^ 0x40)
    setLeds (m.setMode (m.kbd.mode ||| 0x80))

/-- `uncaps` -/
def uncaps (m : Machine) : Machine := m.setMode (m.kbd.mode &&& 0x7f)

/-- `scroll` -/
def scroll (m : Machine) : Machine := setLeds (m.setLeds (m.kbd.leds ^^^ 1))

/-- `num` -/
def num (m : Machine) : Machine := setLeds (m.setLeds (m.kbd.leds ^^^ 2))

/-! ### Cursor keys and function keys -/

/-- A string of the assembler. -/
def ascii (s : String) : List Byte := s.toList.map fun c => BitVec.ofNat 8 c.toNat

/-- `cur_table` -/
def curTable : List Byte := ascii "HA5 DGC YB623"

/-- `cur` -/
def cur (m : Machine) : Machine :=
  let m := m.setAl (curTable.getD m.eax.toNat 0)
  -- a letter is the end of the sequence, after a digit comes '~'
  let m := if m.al > 0x39 then m else m.setAh 0x7e
  let m := { m with eax := m.eax <<< 16 }
  putQueue { m.setAx 0x5b1b with ebx := 0 }

/-- `cursor` from `cur2` on. -/
def cur2 (L : Layout) (m : Machine) : Machine :=
  if m.kbd.e0 = 0x01 ∨ m.kbd.leds &&& 0x02 = 0 ∨ m.kbd.mode &&& 0x03 ≠ 0 then cur m
  else
    let m := { m with ebx := 0 }
    putQueue (m.setAl (L.load (L.numTable + m.eax)))

/-- `cursor`. With ctrl-alt-del the machine is reset. -/
def cursor (L : Layout) (m : Machine) : Option Machine :=
  let below := m.al < 0x47
  let m := m.setAl (m.al - 0x47)
  if below ∨ m.al > 12 then some m
  else if m.al = 12 ∧ m.kbd.mode &&& 0x0c ≠ 0 ∧ m.kbd.mode &&& 0x30 ≠ 0 then none
  else some (cur2 L m)

/-- `func_table` -/
def funcTable : List (BitVec 32) :=
  [0x415b5b1b, 0x425b5b1b, 0x435b5b1b, 0x445b5b1b,
   0x455b5b1b, 0x465b5b1b, 0x475b5b1b, 0x485b5b1b,
   0x495b5b1b, 0x4a5b5b1b, 0x4b5b5b1b, 0x4c5b5b1b]

/-- `func` from `ok_func` on. It asks `%ecx` whether there is room, which nothing has loaded. -/
def okFunc (m : Machine) : Machine :=
  if m.ecx.slt 4 then m
  else putQueue { m with eax := funcTable.getD m.eax.toNat 0, ebx := 0 }

/-- `func` -/
def func (m : Machine) : Machine :=
  let below := m.al < 0x3b
  let m := m.setAl (m.al - 0x3b)
  if below then m
  else if m.al ≤ 9 then okFunc m
  else
    let m := m.setAl (m.al - 18)
    if m.al < 10 ∨ m.al > 11 then m else okFunc m

/-! ### Other keys -/

/-- Which map `do_self` uses. -/
def chooseMap (L : Layout) (m : Machine) : Machine :=
  if m.kbd.mode &&& 0x20 ≠ 0 then { m with ebx := L.altMap }
  else if m.kbd.mode &&& 0x03 ≠ 0 then { m with ebx := L.shiftMap }
  else { m with ebx := L.keyMap }

/-- The character of the map. -/
def fetch (L : Layout) (m : Machine) : Machine := m.setAl (L.load (m.ebx + m.eax))

/-- Ctrl or caps make a capital letter of a small one. -/
def applyCaps (m : Machine) : Machine :=
  if m.kbd.mode &&& 0x4c ≠ 0 ∧ 0x61 ≤ m.al ∧ m.al ≤ 0x7d then m.setAl (m.al - 32) else m

/-- Ctrl makes a control character of it. -/
def applyCtrl (m : Machine) : Machine :=
  if m.kbd.mode &&& 0x0c ≠ 0 ∧ 64 ≤ m.al ∧ m.al < 64 + 32 then m.setAl (m.al - 64) else m

/-- Left alt sets the highest bit. -/
def applyAlt (m : Machine) : Machine :=
  if m.kbd.mode &&& 0x10 ≠ 0 then m.setAl (m.al ||| 0x80) else m

/-- `do_self` from label 4 on. -/
def putChar (m : Machine) : Machine := putQueue { m with eax := m.eax &&& 0xff, ebx := 0 }

/-- `do_self` -/
def doSelf (L : Layout) (m : Machine) : Machine :=
  let m := fetch L (chooseMap L m)
  if m.al = 0 then m else putChar (applyAlt (applyCtrl (applyCaps m)))

/-- `minus`: after 'E0h' it is the slash of the numeric keypad. -/
def minus (L : Layout) (m : Machine) : Machine :=
  if m.kbd.e0 ≠ 1 then doSelf L m else putQueue { m with eax := 0x2f, ebx := 0 }

/-! ### `key_table` -/

/-- The routines. -/
inductive Routine
  | none | doSelf | ctrl | alt | lshift | rshift | caps | func | num | scroll | cursor | minus
  | unctrl | unalt | unlshift | unrshift | uncaps
  deriving DecidableEq

/-- A call of a routine; it does not return where the machine is reset. -/
def Routine.call (L : Layout) (m : Machine) : Routine → Option Machine
  | .none => some m
  | .doSelf => some (Keyboard.doSelf L m)
  | .ctrl => some (Keyboard.ctrl m)
  | .alt => some (Keyboard.alt m)
  | .lshift => some (Keyboard.lshift m)
  | .rshift => some (Keyboard.rshift m)
  | .caps => some (Keyboard.caps m)
  | .func => some (Keyboard.func m)
  | .num => some (Keyboard.num m)
  | .scroll => some (Keyboard.scroll m)
  | .cursor => Keyboard.cursor L m
  | .minus => some (Keyboard.minus L m)
  | .unctrl => some (Keyboard.unctrl m)
  | .unalt => some (Keyboard.unalt m)
  | .unlshift => some (Keyboard.unlshift m)
  | .unrshift => some (Keyboard.unrshift m)
  | .uncaps => some (Keyboard.uncaps m)

/-- The rows of `key_table` for keys that are pressed, up to `0x5B`. -/
def makeTable : List Routine :=
  [.none, .doSelf, .doSelf, .doSelf,        -- s0 esc 1 2
   .doSelf, .doSelf, .doSelf, .doSelf,      -- 3 4 5 6
   .doSelf, .doSelf, .doSelf, .doSelf,      -- 7 8 9 0
   .doSelf, .doSelf, .doSelf, .doSelf,      -- + ' bs tab
   .doSelf, .doSelf, .doSelf, .doSelf,      -- q w e r
   .doSelf, .doSelf, .doSelf, .doSelf,      -- t y u i
   .doSelf, .doSelf, .doSelf, .doSelf,      -- o p } ^
   .doSelf, .ctrl, .doSelf, .doSelf,        -- enter ctrl a s
   .doSelf, .doSelf, .doSelf, .doSelf,      -- d f g h
   .doSelf, .doSelf, .doSelf, .doSelf,      -- j k l |
   .doSelf, .doSelf, .lshift, .doSelf,      -- { para lshift ,
   .doSelf, .doSelf, .doSelf, .doSelf,      -- z x c v
   .doSelf, .doSelf, .doSelf, .doSelf,      -- b n m ,
   .doSelf, .minus, .rshift, .doSelf,       -- . - rshift *
   .alt, .doSelf, .caps, .func,             -- alt sp caps f1
   .func, .func, .func, .func,              -- f2 f3 f4 f5
   .func, .func, .func, .func,              -- f6 f7 f8 f9
   .func, .num, .scroll, .cursor,           -- f10 num scr home
   .cursor, .cursor, .doSelf, .cursor,      -- up pgup - left
   .cursor, .cursor, .doSelf, .cursor,      -- n5 right + end
   .cursor, .cursor, .cursor, .cursor,      -- dn pgdn ins del
   .none, .none, .doSelf, .func,            -- sysreq ? < f11
   .func, .none, .none, .none]              -- f12 ? ? ?

/-- `key_table`: of the keys that are released, those that change the mode do something. -/
def keyTable (code : Byte) : Routine :=
  if code = 0x9d then .unctrl
  else if code = 0xaa then .unlshift
  else if code = 0xb6 then .unrshift
  else if code = 0xb8 then .unalt
  else if code = 0xba then .uncaps
  else makeTable.getD code.toNat .none

/-! ### The interrupt -/

/-- The acknowledgement at `e0_e1`: a bit of port `0x61` is set and cleared. -/
def ack (port61 : Byte) (m : Machine) : Machine :=
  let m := m.setAl port61
  let m := (m.setAl (m.al ||| 0x80)).outb 0x61
  let m := (m.setAl (m.al &&& 0x7f)).outb 0x61
  (m.setAl 0x20).outb 0x20

/-- What the handler starts with: the scan code is all of `%eax`. -/
def enter (r : Regs) (code : Byte) (k : Kbd) : Machine :=
  let m : Machine := { r with eax := 0x10, kbd := k, put := [] }
  (m.setAl 0).setAl code

/-- **`_keyboard_interrupt`**, up to `_do_tty_interrupt`: what it has put into the queue, and the
keyboard after it. -/
def interrupt (L : Layout) (r : Regs) (code port61 : Byte) (k : Kbd) : Option (List Byte × Kbd) :=
  let m := enter r code k
  let called : Option Machine :=
    if code = 0xe0 then some (m.setE0 1)
    else if code = 0xe1 then some (m.setE0 2)
    else ((keyTable code).call L m).map fun m => m.setE0 0
  called.map fun m => ((ack port61 m).put, (ack port61 m).kbd)

/-- **An interrupt**: the scan code, what port `0x61` reads, and what the kernel does with the
console from there to the next one, `_do_tty_interrupt` first. -/
structure Event where
  code : Byte
  port61 : Byte
  rest : Console → Console

/-- One interrupt with what follows it. -/
def step (L : Layout) (r : Regs) (e : Event) (k : Kbd) : Option (List Byte × Kbd) :=
  (interrupt L r e.code e.port61 k).map fun x =>
    (x.1, { x.2 with console := e.rest x.2.console })

/-- **A run**: what each interrupt has put into the queue, and the keyboard in the end, unless the
machine was reset. -/
def run (L : Layout) (rs : ℕ → Regs) : List Event → Kbd → List (List Byte) × Option Kbd
  | [], k => ([], some k)
  | e :: es, k =>
    match step L (rs 0) e k with
    | none => ([], none)
    | some (cs, k') =>
      let rest := run L (fun n => rs (n + 1)) es k'
      (cs :: rest.1, rest.2)

end Linux011.Keyboard

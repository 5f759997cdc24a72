import Linux011.Console.Screen
import Linux011.Lib.Run
import Linux011.Tty.Queue

/-!
# A terminal

`copy_to_cooked`, `tty_read` and `tty_write` of `kernel/chr_drv/tty_io.c`, on the console with
`con_write` and the replies of `kernel/chr_drv/console.c`, on a serial line with the interrupts of
`kernel/chr_drv/rs_io.s`.

What is under way is a stack. At its bottom is what a process does; interrupts come on top of it,
between any two operations on a queue, and are over before it goes on. A process that takes a page
fault in `get_fs_byte` or `put_fs_byte` sleeps where it is; one that sleeps for a queue has nothing
under way, and comes back as a new call with what is left to do.

`tty_write` looks whether there is room in the write queue before it puts a character, and
`copy_to_cooked` looks at the secondary queue. Nobody looks when a character is echoed, and nobody
when the console replies. `con_write` takes as many characters as there were when it began: if
meanwhile an echo is written, they are gone when it goes on. So an echo on a full queue empties it
(`Linux011.Tty.not_no_overrun`), and as long as nobody takes what another one counts on, no queue
overruns and no character is lost (`Linux011.Tty.no_overrun`).

For the record, all that is put into the read and the write queue is kept, all that is taken out,
and whether a character was ever put into a full queue.
-/

namespace Linux011.Tty

/-! ### The terminal -/

/-- `struct termios`, as far as it is looked at. -/
structure Termios where
  icrnl : Bool
  inlcr : Bool
  igncr : Bool
  iuclc : Bool
  opost : Bool
  onlcr : Bool
  ocrnl : Bool
  onlret : Bool
  olcuc : Bool
  isig : Bool
  icanon : Bool
  echo : Bool
  echoctl : Bool
  intr : Byte
  quit : Byte
  erase : Byte
  kill : Byte
  eof : Byte
  start : Byte
  stop : Byte

/-- `struct tty_struct`. -/
structure Line where
  termios : Termios
  stopped : Bool
  readQ : Queue
  writeQ : Queue
  secondary : Queue

/-- Which terminal it is, and `tolower` and `toupper` of `ctype.h`. -/
structure Device where
  console : Bool
  toLower : Byte → Byte
  toUpper : Byte → Byte

/-- A character is compared with one of `c_cc`: the type `char` is signed, that of `c_cc` is not. -/
def Byte.is (c cc : Byte) : Prop := c.toInt = cc.toNat

instance (c cc : Byte) : Decidable (Byte.is c cc) := inferInstanceAs (Decidable (_ = _))

/-- **What is under way**, and has come to one of these places. -/
inductive Frame
  /-- The head of the loop of `copy_to_cooked`. -/
  | cooked
  /-- `GETCH(tty->read_q,c)`. -/
  | getRead
  /-- The rest of a round, up to the first operation on a queue. -/
  | handle (c : Byte)
  /-- `PUTCH(c,tty->write_q)`, for an echo. -/
  | putWrite (c : Byte)
  /-- `tty->write(tty)`. -/
  | write
  /-- `PUTCH(c,tty->secondary)`. -/
  | putSecondary (c : Byte)
  /-- The head of the loop that kills a line. -/
  | kill
  /-- `DEC(tty->secondary.head)`. -/
  | dec
  /-- The loop of `con_write`, with `nr` characters to go. -/
  | conWrite (nr : ℕ)
  | respond
  /-- The head of the inner loop of `tty_write`, with what is to be written. -/
  | ttyWrite (buf : List Byte)
  /-- `get_fs_byte(b)` and the `PUTCH` of the round. -/
  | fetch (b : Byte) (rest : List Byte)
  /-- `put_fs_byte` and the end of the inner loop of `tty_read`, with how many are to be read. -/
  | ttyRead (nr : ℕ)
  /-- `GETCH(tty->secondary,c)`, with how many are to be read after it. -/
  | getSecondary (nr : ℕ)
  deriving DecidableEq

/-- **The terminal**, what is under way, and the record. -/
structure Sys where
  line : Line
  con : Console.Con
  crFlag : Bool
  stack : List Frame
  /-- What processes have under way that take a page fault. -/
  sleeping : List Frame
  overrun : Bool
  readIn : List Byte
  readOut : List Byte
  writeIn : List Byte
  writeOut : List Byte

/-! ### The operations on the queues -/

namespace Sys

variable (s : Sys)

/-- `PUTCH(c,tty->write_q)`. -/
def putWrite (c : Byte) : Sys :=
  { s with
    line := { s.line with writeQ := s.line.writeQ.putch c }
    overrun := s.overrun || decide s.line.writeQ.Full
    writeIn := s.writeIn ++ [c] }

/-- `PUTCH(c,tty->read_q)`. -/
def putRead (c : Byte) : Sys :=
  { s with
    line := { s.line with readQ := s.line.readQ.putch c }
    overrun := s.overrun || decide s.line.readQ.Full
    readIn := s.readIn ++ [c] }

/-- `PUTCH(c,tty->secondary)`. -/
def putSecondary (c : Byte) : Sys :=
  { s with
    line := { s.line with secondary := s.line.secondary.putch c }
    overrun := s.overrun || decide s.line.secondary.Full }

/-- `GETCH(tty->read_q,c)`. -/
def getRead : Sys :=
  { s with
    line := { s.line with readQ := s.line.readQ.getch }
    readOut := s.readOut ++ [s.line.readQ.front] }

/-- `GETCH(tty->write_q,c)`, and a character is transmitted in the same way. -/
def getWrite : Sys :=
  { s with
    line := { s.line with writeQ := s.line.writeQ.getch }
    writeOut := s.writeOut ++ [s.line.writeQ.front] }

/-- The queue that is read from is flushed. -/
def flushRead : Sys :=
  { s with
    line := { s.line with readQ := s.line.readQ.flush }
    readOut := s.readOut ++ s.line.readQ.contents }

/-- The queue that is written to is flushed. -/
def flushWrite : Sys :=
  { s with
    line := { s.line with writeQ := s.line.writeQ.flush }
    writeOut := s.writeOut ++ s.line.writeQ.contents }

/-- What comes in by an interrupt. -/
def putQueue (cs : List Byte) : Sys :=
  { s with
    line := { s.line with readQ := s.line.readQ.putQueue cs }
    readIn := s.readIn ++ s.line.readQ.accepted cs }

end Sys

/-! ### `copy_to_cooked` -/

/-- What becomes of a character that is read; `none` when it is ignored. -/
def Device.translate (d : Device) (t : Termios) (c : Byte) : Option Byte :=
  let c? := if c = 13#8 then if t.icrnl then some 10#8 else if t.igncr then none else some c
    else if c = 10#8 ∧ t.inlcr then some 13#8 else some c
  c?.map fun c => if t.iuclc then d.toLower c else c

/-- The line ends here: what the erase and the kill character look at. -/
def Line.atEnd (t : Line) : Prop :=
  t.secondary.Empty ∨ t.secondary.last = 10#8 ∨ Byte.is t.secondary.last t.termios.eof

instance (t : Line) : Decidable t.atEnd := inferInstanceAs (Decidable (_ ∨ _))

/-- The last character is taken off the line. -/
def Line.rubOut (t : Line) : List Frame :=
  (if t.termios.echo then
    (if t.secondary.last.toInt < 32 then [.putWrite 127#8] else []) ++ [.putWrite 127#8, .write]
  else []) ++ [.dec]

/-- The echo of a character. -/
def Line.echo (t : Line) (c : Byte) : List Frame :=
  if t.termios.echo then
    (if c = 10#8 then [.putWrite 10#8, .putWrite 13#8]
    else if c.toInt < 32 then
      if t.termios.echoctl then [.putWrite 94#8, .putWrite (c + 64#8)] else []
    else [.putWrite c]) ++ [.write]
  else []

/-- **What `copy_to_cooked` does with a character**: to the terminal at once, and what is to be
done next. -/
def Line.cook (t : Line) (c : Byte) : Line × List Frame :=
  if t.termios.icanon ∧ Byte.is c t.termios.kill then (t, [.kill])
  else if t.termios.icanon ∧ Byte.is c t.termios.erase then
    if t.atEnd then (t, []) else (t, t.rubOut)
  else if t.termios.icanon ∧ Byte.is c t.termios.stop then ({ t with stopped := true }, [])
  else if t.termios.icanon ∧ Byte.is c t.termios.start then ({ t with stopped := false }, [])
  else if t.termios.isig ∧ (Byte.is c t.termios.intr ∨ Byte.is c t.termios.quit) then (t, [])
  else
    (if c = 10#8 ∨ Byte.is c t.termios.eof then
      { t with secondary := { t.secondary with data := t.secondary.data + 1#32 } }
    else t, t.echo c ++ [.putSecondary c])

/-- **A round of the loop**, when a character has been taken. -/
def Device.handle (d : Device) (t : Line) (c : Byte) : Line × List Frame :=
  match d.translate t.termios c with
  | none => (t, [])
  | some c => t.cook c

/-! ### What is under way goes on -/

/-- `RESPONSE`. -/
def response : List Byte := [27#8, 91#8, 63#8, 49#8, 59#8, 50#8, 99#8]

/-- The loop of `copy_to_cooked` is over. -/
def Line.cookedUp (t : Line) : Prop := t.readQ.Empty ∨ t.secondary.Full

instance (t : Line) : Decidable t.cookedUp := inferInstanceAs (Decidable (_ ∨ _))

/-- A character that `con_write` takes is one to reply to. -/
def Sys.asks (s : Sys) : Prop := s.con.ctl.state = 1 ∧ s.line.writeQ.front = 90#8

instance (s : Sys) : Decidable s.asks := inferInstanceAs (Decidable (_ ∧ _))

/-- **`con_write`**, with `nr + 1` characters to go. -/
def conWrite (nr : ℕ) (st : List Frame) (s : Sys) : Sys :=
  { s.getWrite with
    con := s.con.conChar s.line.termios.erase s.line.writeQ.front
    stack := (if s.asks then [.respond] else []) ++ .conWrite nr :: st }

/-- What becomes of a character that is written, before the new line is looked at. -/
def Termios.output (t : Termios) (c : Byte) : Byte :=
  if t.opost then
    if c = 13#8 ∧ t.ocrnl then 10#8 else if c = 10#8 ∧ t.onlret then 13#8 else c
  else c

/-- **A round of `tty_write`.** -/
def Device.fetch (d : Device) (b : Byte) (rest : List Byte) (s : Sys) : Sys :=
  let t := s.line.termios
  let c := t.output b
  if t.opost ∧ c = 10#8 ∧ s.crFlag = false ∧ t.onlcr then
    { s.putWrite 13#8 with crFlag := true, stack := [.ttyWrite (b :: rest)] }
  else
    { s.putWrite (if t.opost ∧ t.olcuc then d.toUpper c else c) with
      crFlag := false
      stack := [.ttyWrite rest] }

/-- **A round of `tty_read`**, up to where the character is given to the process. -/
def getSecondary (nr : ℕ) (s : Sys) : Sys :=
  let c := s.line.secondary.front
  let q := s.line.secondary.getch
  let q := if Byte.is c s.line.termios.eof ∨ c = 10#8 then { q with data := q.data - 1#32 } else q
  { s with
    line := { s.line with secondary := q }
    stack := if Byte.is c s.line.termios.eof ∧ s.line.termios.icanon then [] else [.ttyRead nr] }

/-- **The top of the stack goes on**; `st` is what is below it. What `tty_write` has left when there
is no more room comes back as another call. -/
def Device.exec (d : Device) (st : List Frame) (s : Sys) : Frame → Sys
  | .cooked => { s with stack := (if s.line.cookedUp then [] else [.getRead, .cooked]) ++ st }
  | .getRead => { s.getRead with stack := .handle s.line.readQ.front :: st }
  | .handle c =>
    { s with line := (d.handle s.line c).1, stack := (d.handle s.line c).2 ++ st }
  | .putWrite c => { s.putWrite c with stack := st }
  | .write =>
    { s with stack := (if d.console then [.conWrite s.line.writeQ.chars] else []) ++ st }
  | .putSecondary c => { s.putSecondary c with stack := st }
  | .kill => { s with stack := (if s.line.atEnd then [] else s.line.rubOut ++ [.kill]) ++ st }
  | .dec =>
    { s with line := { s.line with secondary := s.line.secondary.decHead }, stack := st }
  | .conWrite 0 => { s with stack := st }
  | .conWrite (nr + 1) => conWrite nr st s
  | .respond => { response.foldl Sys.putRead s with stack := .cooked :: st }
  | .ttyWrite [] => { s with stack := [.write] }
  | .ttyWrite (b :: rest) =>
    { s with stack := if s.line.writeQ.Full then [.write] else [.fetch b rest] }
  | .fetch b rest => d.fetch b rest s
  | .ttyRead 0 => { s with stack := [] }
  | .ttyRead (nr + 1) =>
    { s with stack := if s.line.secondary.Empty then [] else [.getSecondary nr] }
  | .getSecondary nr => getSecondary nr s

/-! ### Runs -/

/-- Places in the write queue that a `tty_write` counts on. -/
def Frame.owes : Frame → ℕ
  | .fetch _ _ => 1
  | _ => 0

/-- Places in the secondary queue that a `copy_to_cooked` counts on. -/
def Frame.stores : Frame → ℕ
  | .getRead | .handle _ | .putSecondary _ => 1
  | _ => 0

/-- Characters of the read queue that a `copy_to_cooked` counts on. -/
def Frame.takes : Frame → ℕ
  | .getRead => 1
  | _ => 0

/-- Characters of the write queue that a `con_write` counts on. -/
def Frame.claims : Frame → ℕ
  | .conWrite nr => nr
  | _ => 0

/-- All that is counted on. -/
def total (w : Frame → ℕ) (st : List Frame) : ℕ := (st.map w).sum

/-- **Nobody is disturbed**: what others count on, that have been interrupted or are asleep, is left
to them, and there is room for an echo and for a reply. -/
def Device.Quiet (d : Device) (st : List Frame) (s : Sys) : Frame → Prop
  | .cooked => ¬s.line.cookedUp →
    total Frame.takes st < s.line.readQ.chars ∧ total Frame.stores st < s.line.secondary.left
  | .putWrite _ => total Frame.owes st + total Frame.owes s.sleeping < s.line.writeQ.left
  | .write => d.console → total Frame.claims st = 0
  | .dec => s.line.secondary.Empty → total Frame.stores st = 0
  | .respond => response.length ≤ s.line.readQ.left
  | .ttyWrite (_ :: _) => ¬s.line.writeQ.Full → total Frame.owes s.sleeping < s.line.writeQ.left
  | _ => True

/-- The queues are empty and nothing is under way. -/
structure Start (s : Sys) : Prop where
  read : s.line.readQ.head = 0 ∧ s.line.readQ.tail = 0
  write : s.line.writeQ.head = 0 ∧ s.line.writeQ.tail = 0
  secondary : s.line.secondary.head = 0 ∧ s.line.secondary.tail = 0
  stack : s.stack = []
  sleeping : s.sleeping = []
  overrun : s.overrun = false
  logs : s.readIn = [] ∧ s.readOut = [] ∧ s.writeIn = [] ∧ s.writeOut = []

/-- A process may take a page fault here. -/
def Frame.Faults : Frame → Prop
  | .fetch _ _ | .ttyRead _ => True
  | _ => False

/-- **A step**; if `K` holds, one by which nobody is disturbed. -/
inductive Step (d : Device) (K : Prop) (s : Sys) : Sys → Prop
  | exec {f : Frame} {st : List Frame} (hs : s.stack = f :: st) (hK : K → d.Quiet st s f) :
    Step d K s (d.exec st s f)
  | input (cs : List Byte) : Step d K s { s.putQueue cs with stack := .cooked :: s.stack }
  | transmit (hd : d.console = false) (hne : s.line.writeQ.chars ≠ 0) : Step d K s s.getWrite
  | write (buf : List Byte) (hs : s.stack = []) : Step d K s { s with stack := [.ttyWrite buf] }
  | read (nr : ℕ) (hs : s.stack = [])
    (hne : ¬(s.line.secondary.Empty ∨ s.line.termios.icanon ∧ s.line.secondary.data = 0#32 ∧
      20 < s.line.secondary.left)) : Step d K s { s with stack := [.getSecondary nr] }
  | sleep {f : Frame} (hs : s.stack = [f]) (hf : f.Faults) :
    Step d K s { s with stack := [], sleeping := f :: s.sleeping }
  | wake {f : Frame} {l l' : List Frame} (hs : s.stack = []) (hf : s.sleeping = l ++ f :: l') :
    Step d K s { s with stack := [f], sleeping := l ++ l' }
  | flushRead (hs : s.stack = []) : Step d K s s.flushRead
  | flushWrite (hs : s.stack = []) : Step d K s s.flushWrite
  | termios (hs : s.stack = []) (t : Termios) :
    Step d K s { s with line := { s.line with termios := t } }
  /-- `cr_flag` is one for all terminals. -/
  | crFlag (b : Bool) : Step d K s { s with crFlag := b }

/-! ### What is counted on -/

variable {d : Device} {s s' : Sys} {f g : Frame} {st st' : List Frame} {t : Line} {c : Byte}
  {K : Prop} {w : Frame → ℕ}

theorem total_cons : total w (f :: st) = w f + total w st := List.sum_cons

theorem total_append : total w (st ++ st') = total w st + total w st' := by
  rw [total, List.map_append, List.sum_append]
  rfl

theorem total_eq_zero (h : ∀ f ∈ st, w f = 0) : total w st = 0 := by
  induction st with
  | nil => rfl
  | cons f st ih =>
    rw [total_cons, h f List.mem_cons_self, ih fun g hg => h g (List.mem_cons_of_mem _ hg)]

/-- A frame of a process. -/
def Frame.Process : Frame → Prop
  | .ttyWrite _ | .fetch _ _ | .ttyRead _ | .getSecondary _ => True
  | _ => False

/-- **A process is at the bottom.** -/
def Shape : List Frame → Prop
  | [] => True
  | f :: st => (f.Process → st = []) ∧ Shape st

/-- What a round of `copy_to_cooked` has to do. -/
def Frame.Round : Frame → Prop
  | .putWrite _ | .write | .putSecondary _ | .kill | .dec => True
  | _ => False

/-- **The frames of a round** count on nothing but a place in the secondary queue, for one
character. -/
structure Rounds (l : List Frame) (n : ℕ) : Prop where
  round : ∀ f ∈ l, f.Round
  stores : total Frame.stores l ≤ n

theorem Rounds.shape {l : List Frame} {n : ℕ} (hl : Rounds l n) (h : Shape st) :
    Shape (l ++ st) := by
  obtain ⟨hround, -⟩ := hl
  induction l with
  | nil => exact h
  | cons f l ih =>
    refine ⟨fun hproc => ?_, ih fun g hg => hround g (List.mem_cons_of_mem _ hg)⟩
    have hf := hround f List.mem_cons_self
    cases f with
    | ttyWrite _ => exact hf.elim
    | fetch _ _ => exact hf.elim
    | ttyRead _ => exact hf.elim
    | getSecondary _ => exact hf.elim
    | _ => exact hproc.elim

/-- A round counts on no place in the write queue, and on no character. -/
theorem Rounds.total_eq_zero {l : List Frame} {n : ℕ} (hl : Rounds l n)
    (hw : ∀ f : Frame, f.Round → w f = 0) : total w l = 0 :=
  Tty.total_eq_zero fun f hf => hw f (hl.round f hf)

theorem Frame.Round.owes (h : f.Round) : f.owes = 0 := by
  cases f with
  | fetch _ _ => exact h.elim
  | _ => rfl

theorem Frame.Round.takes (h : f.Round) : f.takes = 0 := by
  cases f with
  | getRead => exact h.elim
  | _ => rfl

theorem Frame.Round.claims (h : f.Round) : f.claims = 0 := by
  cases f with
  | conWrite _ => exact h.elim
  | _ => rfl

theorem Rounds.nil (n : ℕ) : Rounds [] n :=
  ⟨fun _ hf => absurd hf List.not_mem_nil, Nat.zero_le n⟩

theorem Rounds.cons {l : List Frame} {n : ℕ} (hf : f.Round) (hl : Rounds l n) :
    Rounds (f :: l) (f.stores + n) := by
  constructor
  · exact List.forall_mem_cons.mpr ⟨hf, hl.round⟩
  · rw [total_cons]
    exact Nat.add_le_add_left hl.stores _

theorem Rounds.append {l l' : List Frame} {n n' : ℕ} (hl : Rounds l n) (hl' : Rounds l' n') :
    Rounds (l ++ l') (n + n') := by
  constructor
  · exact List.forall_mem_append.mpr ⟨hl.round, hl'.round⟩
  · rw [total_append]
    exact Nat.add_le_add hl.stores hl'.stores

/-- An echo stores nothing. -/
theorem rounds_echo (t : Line) (c : Byte) : Rounds (t.echo c) 0 := by
  constructor
  · rw [Line.echo]
    split_ifs <;> simp [Frame.Round]
  · rw [Line.echo]
    split_ifs <;> simp [total, Frame.stores]

/-- The echo of a character that is rubbed out stores nothing. -/
theorem rounds_rubOut (t : Line) : Rounds t.rubOut 0 := by
  constructor
  · rw [Line.rubOut]
    split_ifs <;> simp [Frame.Round]
  · rw [Line.rubOut]
    split_ifs <;> simp [total, Frame.stores]

/-- **A round of `copy_to_cooked`** stores one character at most, and changes no queue but for the
lines that are counted. -/
theorem handle_spec (d : Device) (t : Line) (c : Byte) : Rounds (d.handle t c).2 1 ∧
    ∃ b n, (d.handle t c).1 =
      { t with stopped := b, secondary := { t.secondary with data := n } } := by
  rw [Device.handle]
  cases d.translate t.termios c with
  | none => exact ⟨Rounds.nil 1, t.stopped, t.secondary.data, rfl⟩
  | some c =>
    dsimp only
    have hstore : Rounds (t.echo c ++ [.putSecondary c]) 1 :=
      (rounds_echo t c).append ((Rounds.nil 0).cons (f := .putSecondary c) trivial)
    rw [Line.cook]
    split_ifs
    · exact ⟨(Rounds.nil 1).cons (f := .kill) trivial, t.stopped, t.secondary.data, rfl⟩
    · exact ⟨Rounds.nil 1, t.stopped, t.secondary.data, rfl⟩
    · exact ⟨⟨(rounds_rubOut t).round, (rounds_rubOut t).stores.trans (Nat.zero_le 1)⟩, t.stopped,
        t.secondary.data, rfl⟩
    · exact ⟨Rounds.nil 1, true, t.secondary.data, rfl⟩
    · exact ⟨Rounds.nil 1, false, t.secondary.data, rfl⟩
    · exact ⟨Rounds.nil 1, t.stopped, t.secondary.data, rfl⟩
    · exact ⟨hstore, t.stopped, t.secondary.data + 1#32, rfl⟩
    · exact ⟨hstore, t.stopped, t.secondary.data, rfl⟩

/-! ### The queues are sound -/

/-- **What is under way finds what it counts on.** -/
structure Served (s : Sys) : Prop where
  shape : Shape s.stack
  owes : total Frame.owes s.stack + total Frame.owes s.sleeping ≤ s.line.writeQ.left
  stores : total Frame.stores s.stack ≤ s.line.secondary.left
  takes : total Frame.takes s.stack ≤ s.line.readQ.chars
  claims : total Frame.claims s.stack ≤ s.line.writeQ.chars
  asleep : ∀ f ∈ s.sleeping, f.Faults

/-- **The queues are as they should be**, and the record is true of them. -/
structure Sound (s : Sys) : Prop where
  readQ : s.line.readQ.Ok
  writeQ : s.line.writeQ.Ok
  secondary : s.line.secondary.Ok
  overrun : s.overrun = false
  read : s.readIn = s.readOut ++ s.line.readQ.contents
  write : s.writeIn = s.writeOut ++ s.line.writeQ.contents

theorem Sound.putWrite (h : Sound s) (hleft : s.line.writeQ.left ≠ 0) : Sound (s.putWrite c) := by
  refine { h with writeQ := h.writeQ.putch, overrun := ?_, write := ?_ }
  · rw [Sys.putWrite]
    dsimp only
    rw [h.overrun, decide_eq_false (show ¬s.line.writeQ.Full from hleft)]
    rfl
  · rw [Sys.putWrite]
    dsimp only
    rw [Queue.contents_putch h.writeQ hleft, h.write, List.append_assoc]

theorem Sound.putSecondary (h : Sound s) (hleft : s.line.secondary.left ≠ 0) :
    Sound (s.putSecondary c) := by
  refine { h with secondary := h.secondary.putch, overrun := ?_ }
  rw [Sys.putSecondary]
  dsimp only
  rw [h.overrun, decide_eq_false (show ¬s.line.secondary.Full from hleft)]
  rfl

theorem Sound.putRead (h : Sound s) (hleft : s.line.readQ.left ≠ 0) : Sound (s.putRead c) := by
  refine { h with readQ := h.readQ.putch, overrun := ?_, read := ?_ }
  · rw [Sys.putRead]
    dsimp only
    rw [h.overrun, decide_eq_false (show ¬s.line.readQ.Full from hleft)]
    rfl
  · rw [Sys.putRead]
    dsimp only
    rw [Queue.contents_putch h.readQ hleft, h.read, List.append_assoc]

theorem Sound.getRead (h : Sound s) (hne : s.line.readQ.chars ≠ 0) : Sound s.getRead := by
  refine { h with readQ := h.readQ.getch, read := ?_ }
  rw [Sys.getRead]
  dsimp only
  rw [h.read, Queue.contents_getch h.readQ hne, List.append_assoc]
  rfl

theorem Sound.getWrite (h : Sound s) (hne : s.line.writeQ.chars ≠ 0) : Sound s.getWrite := by
  refine { h with writeQ := h.writeQ.getch, write := ?_ }
  rw [Sys.getWrite]
  dsimp only
  rw [h.write, Queue.contents_getch h.writeQ hne, List.append_assoc]
  rfl

theorem Sound.flushRead (h : Sound s) : Sound s.flushRead := by
  refine { h with readQ := h.readQ.flush, read := ?_ }
  rw [Sys.flushRead]
  dsimp only
  rw [Queue.contents_flush h.readQ, h.read, List.append_nil]

theorem Sound.flushWrite (h : Sound s) : Sound s.flushWrite := by
  refine { h with writeQ := h.writeQ.flush, write := ?_ }
  rw [Sys.flushWrite]
  dsimp only
  rw [Queue.contents_flush h.writeQ, h.write, List.append_nil]

theorem Sound.putQueue (h : Sound s) (cs : List Byte) : Sound (s.putQueue cs) := by
  obtain ⟨hok, hcont⟩ := Queue.putQueue_spec h.readQ cs
  refine { h with readQ := hok, read := ?_ }
  rw [Sys.putQueue]
  dsimp only
  rw [hcont, h.read, List.append_assoc]

/-- Nothing of what else a step changes concerns the queues. -/
theorem Sound.set (h : Sound s) (con : Console.Con) (b : Bool) (st l : List Frame) :
    Sound { s with con := con, crFlag := b, stack := st, sleeping := l } :=
  ⟨h.readQ, h.writeQ, h.secondary, h.overrun, h.read, h.write⟩

/-! ### Every step -/

/-- **What holds in every state.** -/
structure Inv (d : Device) (s : Sys) : Prop where
  sound : Sound s
  served : Served s
  console : ∀ nr, .conWrite nr ∈ s.stack → d.console = true

/-- **Another top of the stack**, that counts on what is there. -/
theorem Inv.pop (h : Inv d s) (hs : s.stack = f :: st) {l : List Frame}
    (hshape : Shape st → Shape (l ++ st)) (howes : total Frame.owes l ≤ f.owes)
    (hstores : total Frame.stores l ≤ f.stores) (htakes : total Frame.takes l ≤ f.takes)
    (hclaims : total Frame.claims l ≤ f.claims) (hcon : ∀ nr, .conWrite nr ∉ l) :
    Inv d { s with stack := l ++ st } := by
  obtain ⟨hsh, how, hst, hta, hcl, hasleep⟩ := h.served
  rw [hs, total_cons] at how hst hta hcl
  rw [hs] at hsh
  refine ⟨h.sound.set _ _ _ _, ⟨hshape hsh.2, ?_, ?_, ?_, ?_, hasleep⟩, fun nr hnr => ?_⟩
  · change total Frame.owes (l ++ st) + _ ≤ _
    rw [total_append]
    exact (Nat.add_le_add_right (Nat.add_le_add_right howes _) _).trans how
  · change total Frame.stores (l ++ st) ≤ _
    rw [total_append]
    exact (Nat.add_le_add_right hstores _).trans hst
  · change total Frame.takes (l ++ st) ≤ _
    rw [total_append]
    exact (Nat.add_le_add_right htakes _).trans hta
  · change total Frame.claims (l ++ st) ≤ _
    rw [total_append]
    exact (Nat.add_le_add_right hclaims _).trans hcl
  · rcases List.mem_append.mp hnr with hnr | hnr
    · exact absurd hnr (hcon nr)
    · refine h.console nr ?_
      rw [hs]
      exact List.mem_cons_of_mem _ hnr

/-- The top of the stack is over. -/
theorem Inv.tail (h : Inv d s) (hs : s.stack = f :: st) : Inv d { s with stack := st } :=
  h.pop hs (l := []) id (Nat.zero_le _) (Nat.zero_le _) (Nat.zero_le _) (Nat.zero_le _)
    fun _ => List.not_mem_nil

/-- The lines are counted, and the output is stopped. -/
theorem Inv.relabel (h : Inv d s) (b : Bool) (n : BitVec 32) : Inv d { s with
    line := { s.line with
      stopped := b, secondary := { s.line.secondary with data := n } } } := by
  obtain ⟨⟨hread, hwrite, hsec, hover, hr, hw⟩, hserved, hcon⟩ := h
  obtain ⟨hsh, how, hst, hta, hcl, hasleep⟩ := hserved
  exact ⟨⟨hread, hwrite, ⟨hsec.head, hsec.tail⟩, hover, hr, hw⟩,
    ⟨hsh, how, hst, hta, hcl, hasleep⟩, hcon⟩

/-- **The head of the loop of `copy_to_cooked`**: if it goes on, what it has found is there. -/
theorem Inv.cooked (h : Inv d s) (hs : s.stack = .cooked :: st)
    (hq : ¬s.line.cookedUp →
      total Frame.takes st < s.line.readQ.chars ∧ total Frame.stores st < s.line.secondary.left) :
    Inv d { s with stack := (if s.line.cookedUp then [] else [.getRead, .cooked]) ++ st } := by
  by_cases hup : s.line.cookedUp
  · rw [if_pos hup]
    exact h.tail hs
  · rw [if_neg hup]
    obtain ⟨htakes, hstores⟩ := hq hup
    obtain ⟨hsound, ⟨hsh, how, hst, hta, hcl, hasleep⟩, hcon⟩ := h.tail hs
    refine ⟨h.sound.set _ _ _ _, ⟨⟨False.elim, False.elim, hsh⟩, ?_, ?_, ?_, ?_, hasleep⟩, ?_⟩
    · change total Frame.owes ([Frame.getRead, .cooked] ++ st) + _ ≤ _
      rw [total_append, show total Frame.owes [.getRead, .cooked] = 0 from rfl, Nat.zero_add]
      exact how
    · change total Frame.stores ([Frame.getRead, .cooked] ++ st) ≤ _
      rw [total_append, show total Frame.stores [.getRead, .cooked] = 1 from rfl, Nat.add_comm]
      exact hstores
    · change total Frame.takes ([Frame.getRead, .cooked] ++ st) ≤ _
      rw [total_append, show total Frame.takes [.getRead, .cooked] = 1 from rfl, Nat.add_comm]
      exact htakes
    · change total Frame.claims ([Frame.getRead, .cooked] ++ st) ≤ _
      rw [total_append, show total Frame.claims [.getRead, .cooked] = 0 from rfl, Nat.zero_add]
      exact hcl
    · intro nr hnr
      refine hcon nr ?_
      simpa using hnr

/-- **A character is taken** from the read queue, that was there when it was looked at. -/
theorem Inv.getRead (h : Inv d s) (hs : s.stack = .getRead :: st) :
    Inv d { s.getRead with stack := .handle c :: st } := by
  have htop := h.pop hs (l := [.handle c]) (fun hsh => ⟨False.elim, hsh⟩) (Nat.zero_le _)
    (Nat.le_refl 1) (Nat.zero_le _) (Nat.zero_le _) (by simp)
  obtain ⟨-, ⟨hsh, how, hst, -, hcl, hasleep⟩, hcon⟩ := htop
  have htakes := hs ▸ h.served.takes
  rw [total_cons, show Frame.takes .getRead = 1 from rfl] at htakes
  have hne : s.line.readQ.chars ≠ 0 := by omega
  have hc := Queue.chars_getch h.sound.readQ hne
  refine ⟨(h.sound.getRead hne).set _ _ _ _, ⟨hsh, how, hst, ?_, hcl, hasleep⟩, hcon⟩
  change total Frame.takes (.handle c :: st) ≤ s.line.readQ.getch.chars
  rw [total_cons, show Frame.takes (.handle c) = 0 from rfl]
  omega

/-- **A character is handled.** -/
theorem Inv.handle (h : Inv d s) (hs : s.stack = .handle c :: st) :
    Inv d { s with line := (d.handle s.line c).1, stack := (d.handle s.line c).2 ++ st } := by
  obtain ⟨hl, b, n, hline⟩ := handle_spec d s.line c
  rw [hline]
  have htop := h.pop hs hl.shape (hl.total_eq_zero fun _ => Frame.Round.owes).le hl.stores
    (hl.total_eq_zero fun _ => Frame.Round.takes).le
    (hl.total_eq_zero fun _ => Frame.Round.claims).le (fun nr hnr => (hl.round _ hnr).elim)
  exact htop.relabel b n

/-- **The loop that kills a line.** -/
theorem Inv.kill (h : Inv d s) (hs : s.stack = .kill :: st) :
    Inv d { s with
      stack := (if s.line.atEnd then [] else s.line.rubOut ++ [.kill]) ++ st } := by
  have hl : Rounds (if s.line.atEnd then [] else s.line.rubOut ++ [.kill]) 0 := by
    split_ifs
    · exact Rounds.nil 0
    · exact (rounds_rubOut s.line).append ((Rounds.nil 0).cons (f := .kill) trivial)
  exact h.pop hs hl.shape (hl.total_eq_zero fun _ => Frame.Round.owes).le hl.stores
    (hl.total_eq_zero fun _ => Frame.Round.takes).le
    (hl.total_eq_zero fun _ => Frame.Round.claims).le (fun nr hnr => (hl.round _ hnr).elim)

/-- **The last character is taken off**, if it is still there, or if no one counts on a place. -/
theorem Inv.dec (h : Inv d s) (hs : s.stack = .dec :: st)
    (hq : s.line.secondary.Empty → total Frame.stores st = 0) :
    Inv d { s with
      line := { s.line with secondary := s.line.secondary.decHead }, stack := st } := by
  obtain ⟨⟨hread, hwrite, hsec, hover, hr, hw⟩, ⟨hsh, how, hst, hta, hcl, hasleep⟩, hcon⟩ :=
    h.tail hs
  refine ⟨⟨hread, hwrite, hsec.decHead, hover, hr, hw⟩, ⟨hsh, how, ?_, hta, hcl, hasleep⟩, hcon⟩
  change total Frame.stores st ≤ s.line.secondary.decHead.left
  by_cases hempty : s.line.secondary.Empty
  · rw [hq hempty]
    exact Nat.zero_le _
  · have hne := mt (Queue.empty_iff h.sound.secondary).mpr hempty
    have hc := Queue.chars_decHead h.sound.secondary hne
    have hl := Queue.left_eq h.sound.secondary
    have hl' := Queue.left_eq h.sound.secondary.decHead
    change total Frame.stores st ≤ s.line.secondary.left at hst
    omega

/-- **A character is put into the write queue**, where there is room besides what others count
on. -/
theorem Inv.putWrite (h : Inv d s)
    (hq : total Frame.owes s.stack + total Frame.owes s.sleeping < s.line.writeQ.left) :
    Inv d (s.putWrite c) := by
  obtain ⟨hsound, ⟨hsh, how, hst, hta, hcl, hasleep⟩, hcon⟩ := h
  have hleft : s.line.writeQ.left ≠ 0 := by omega
  have hl := Queue.left_eq hsound.writeQ
  have hl' := Queue.left_eq (hsound.writeQ.putch (c := c))
  have hc := Queue.chars_putch (c := c) hsound.writeQ hleft
  refine ⟨hsound.putWrite hleft, ⟨hsh, ?_, hst, hta, ?_, hasleep⟩, hcon⟩
  · change _ + _ ≤ (s.line.writeQ.putch c).left
    rw [Sys.putWrite]
    dsimp only
    omega
  · change _ ≤ (s.line.writeQ.putch c).chars
    rw [Sys.putWrite]
    dsimp only
    omega

/-- **A character is kept** where there is room for it. -/
theorem Inv.putSecondary (h : Inv d s) (hs : s.stack = .putSecondary c :: st) :
    Inv d { s.putSecondary c with stack := st } := by
  obtain ⟨-, ⟨hsh, how, -, hta, hcl, hasleep⟩, hcon⟩ := h.tail hs
  have hstores := hs ▸ h.served.stores
  rw [total_cons, show Frame.stores (.putSecondary c) = 1 from rfl] at hstores
  have hleft : s.line.secondary.left ≠ 0 := by omega
  have hl := Queue.left_eq h.sound.secondary
  have hl' := Queue.left_eq (h.sound.secondary.putch (c := c))
  have hc := Queue.chars_putch (c := c) h.sound.secondary hleft
  refine ⟨(h.sound.putSecondary hleft).set _ _ _ _, ⟨hsh, how, ?_, hta, hcl, hasleep⟩, hcon⟩
  change total Frame.stores st ≤ (s.line.secondary.putch c).left
  omega

/-- **`tty->write`** begins, on the console with as many characters as there are, when nobody
counts on any of them. -/
theorem Inv.write (h : Inv d s) (hs : s.stack = .write :: st)
    (hfree : d.console = true → total Frame.claims st = 0) :
    Inv d { s with
      stack := (if d.console then [.conWrite s.line.writeQ.chars] else []) ++ st } := by
  by_cases hcon : d.console = true
  · rw [if_pos hcon]
    obtain ⟨-, ⟨hsh, how, hst, hta, -, hasleep⟩, -⟩ := h.tail hs
    have hzero : ∀ w : Frame → ℕ, w (.conWrite s.line.writeQ.chars) = 0 →
        total w ([.conWrite s.line.writeQ.chars] ++ st) = total w st := by
      intro w hw
      rw [List.singleton_append, total_cons, hw, Nat.zero_add]
    refine ⟨h.sound.set _ _ _ _, ⟨⟨False.elim, hsh⟩, ?_, ?_, ?_, ?_, hasleep⟩, fun _ _ => hcon⟩
    · exact (Nat.add_le_add_right (hzero Frame.owes rfl).le _).trans how
    · exact (hzero Frame.stores rfl).trans_le hst
    · exact (hzero Frame.takes rfl).trans_le hta
    · change total Frame.claims (_ ++ st) ≤ _
      rw [List.singleton_append, total_cons, hfree hcon]
      exact Nat.le_refl _
  · rw [if_neg hcon]
    exact h.tail hs

/-- A character is taken from the write queue. -/
theorem Inv.getWrite (h : Inv d s) (hne : s.line.writeQ.chars ≠ 0)
    (hclaims : total Frame.claims s.stack < s.line.writeQ.chars) : Inv d s.getWrite := by
  obtain ⟨hsound, ⟨hsh, how, hst, hta, hcl, hasleep⟩, hcon⟩ := h
  have hl := Queue.left_eq hsound.writeQ
  have hl' := Queue.left_eq hsound.writeQ.getch
  have hc := Queue.chars_getch hsound.writeQ hne
  refine ⟨hsound.getWrite hne, ⟨hsh, ?_, hst, hta, ?_, hasleep⟩, hcon⟩
  · change _ + _ ≤ s.line.writeQ.getch.left
    rw [Sys.getWrite]
    dsimp only
    omega
  · change _ ≤ s.line.writeQ.getch.chars
    rw [Sys.getWrite]
    dsimp only
    omega

/-- The screen and `cr_flag` are no concern of the queues. -/
theorem Inv.set (h : Inv d s) (con : Console.Con) (b : Bool) :
    Inv d { s with con := con, crFlag := b } :=
  ⟨h.sound.set _ _ _ _, ⟨h.served.shape, h.served.owes, h.served.stores, h.served.takes,
    h.served.claims, h.served.asleep⟩, h.console⟩

/-- **`con_write` takes a character** that it has counted. -/
theorem Inv.conWrite {nr : ℕ} (h : Inv d s) (hs : s.stack = .conWrite (nr + 1) :: st) :
    Inv d (conWrite nr st s) := by
  have hclaims := hs ▸ h.served.claims
  rw [total_cons, show Frame.claims (.conWrite (nr + 1)) = nr + 1 from rfl] at hclaims
  -- the reply is above the loop, and counts on nothing
  have hreply : ∀ w : Frame → ℕ, w .respond = 0 →
      total w ((if s.asks then [.respond] else []) ++ .conWrite nr :: st) =
        w (.conWrite nr) + total w st := by
    intro w hw
    rw [total_append, total_cons]
    split_ifs
    · rw [total_cons, hw, Nat.zero_add]
      exact Nat.zero_add _
    · exact Nat.zero_add _
  have htop : Inv d { s with
      stack := (if s.asks then [.respond] else []) ++ .conWrite nr :: st } := by
    obtain ⟨-, ⟨hsh, how, hst, hta, -, hasleep⟩, -⟩ := h.tail hs
    refine ⟨h.sound.set _ _ _ _, ⟨?_, ?_, ?_, ?_, ?_, hasleep⟩, fun _ _ => ?_⟩
    · change Shape (_ ++ _)
      split_ifs
      · exact ⟨False.elim, False.elim, hsh⟩
      · exact ⟨False.elim, hsh⟩
    · refine (Nat.add_le_add_right ((hreply Frame.owes rfl).trans (Nat.zero_add _)).le _).trans how
    · exact ((hreply Frame.stores rfl).trans (Nat.zero_add _)).trans_le hst
    · exact ((hreply Frame.takes rfl).trans (Nat.zero_add _)).trans_le hta
    · refine (hreply Frame.claims rfl).trans_le ?_
      change nr + total Frame.claims st ≤ s.line.writeQ.chars
      omega
    · exact h.console (nr + 1) (hs ▸ List.mem_cons_self)
  refine (htop.getWrite ?_ ?_).set _ _
  · change s.line.writeQ.chars ≠ 0
    omega
  · refine (hreply Frame.claims rfl).trans_lt ?_
    change nr + total Frame.claims st < s.line.writeQ.chars
    omega

/-- **`copy_to_cooked` begins.** -/
theorem Inv.begin (h : Inv d s) : Inv d { s with stack := .cooked :: s.stack } := by
  obtain ⟨hsound, ⟨hsh, how, hst, hta, hcl, hasleep⟩, hcon⟩ := h
  have hzero : ∀ w : Frame → ℕ, w .cooked = 0 → total w (.cooked :: s.stack) = total w s.stack := by
    intro w hw
    rw [total_cons, hw, Nat.zero_add]
  refine ⟨hsound.set _ _ _ _, ⟨⟨False.elim, hsh⟩, ?_, ?_, ?_, ?_, hasleep⟩, fun nr hnr => ?_⟩
  · exact (Nat.add_le_add_right (hzero Frame.owes rfl).le _).trans how
  · exact (hzero Frame.stores rfl).trans_le hst
  · exact (hzero Frame.takes rfl).trans_le hta
  · exact (hzero Frame.claims rfl).trans_le hcl
  · rcases List.mem_cons.mp hnr with hnr | hnr
    · cases hnr
    · exact hcon nr hnr

theorem Inv.putRead (h : Inv d s) (hleft : s.line.readQ.left ≠ 0) : Inv d (s.putRead c) := by
  obtain ⟨hsound, ⟨hsh, how, hst, hta, hcl, hasleep⟩, hcon⟩ := h
  have hc := Queue.chars_putch (c := c) hsound.readQ hleft
  refine ⟨hsound.putRead hleft, ⟨hsh, how, hst, ?_, hcl, hasleep⟩, hcon⟩
  change _ ≤ (s.line.readQ.putch c).chars
  rw [Sys.putRead]
  dsimp only
  omega

/-- **A reply** for which there is room. -/
theorem Inv.foldl_putRead (cs : List Byte) (h : Inv d s) (hleft : cs.length ≤ s.line.readQ.left) :
    Inv d (cs.foldl Sys.putRead s) := by
  induction cs generalizing s with
  | nil => exact h
  | cons c cs ih =>
    rw [List.length_cons] at hleft
    have hne : s.line.readQ.left ≠ 0 := by omega
    have hl := Queue.left_eq h.sound.readQ
    have hl' := Queue.left_eq (h.sound.readQ.putch (c := c))
    have hc := Queue.chars_putch (c := c) h.sound.readQ hne
    refine ih (h.putRead hne) ?_
    change cs.length ≤ (s.line.readQ.putch c).left
    omega

/-- A reply changes nothing but the read queue. -/
theorem stack_foldl_putRead (cs : List Byte) (s : Sys) :
    (cs.foldl Sys.putRead s).stack = s.stack := by
  induction cs generalizing s with
  | nil => rfl
  | cons c cs ih => exact ih (s.putRead c)

/-- **The console replies.** -/
theorem Inv.respond (h : Inv d s) (hs : s.stack = .respond :: st)
    (hroom : response.length ≤ s.line.readQ.left) :
    Inv d { response.foldl Sys.putRead s with stack := .cooked :: st } := by
  have hput := h.foldl_putRead response hroom
  have hstack := (stack_foldl_putRead response s).trans hs
  exact hput.pop hstack (l := [.cooked]) (fun hsh => ⟨False.elim, hsh⟩) (Nat.zero_le _)
    (Nat.zero_le _) (Nat.zero_le _) (Nat.zero_le _) (by simp)

/-- **Characters come in.** -/
theorem Inv.input (h : Inv d s) (cs : List Byte) :
    Inv d { s.putQueue cs with stack := .cooked :: s.stack } := by
  obtain ⟨hsound, ⟨hsh, how, hst, hta, hcl, hasleep⟩, hcon⟩ := h
  have hcont := (Queue.putQueue_spec hsound.readQ cs).2
  have hchars : s.line.readQ.chars ≤ (s.line.readQ.putQueue cs).chars := by
    rw [← Queue.length_contents, ← Queue.length_contents, hcont, List.length_append]
    exact Nat.le_add_right _ _
  have hbase : Inv d (s.putQueue cs) :=
    ⟨hsound.putQueue cs, ⟨hsh, how, hst, hta.trans hchars, hcl, hasleep⟩, hcon⟩
  exact hbase.begin

/-! ### What a process does -/

/-- A process does the next thing. -/
theorem Inv.next (h : Inv d s) (hs : s.stack = [f]) (hg : ∀ nr, .conWrite nr ≠ g)
    (howes : g.owes ≤ f.owes) (hstores : g.stores = 0) (htakes : g.takes = 0)
    (hclaims : g.claims = 0) : Inv d { s with stack := [g] } := by
  have htotal : ∀ w : Frame → ℕ, total w [g] = w g := fun w => List.sum_singleton
  refine h.pop hs (l := [g]) (fun _ => ⟨fun _ => rfl, trivial⟩) ?_ ?_ ?_ ?_ ?_
  · rw [htotal]
    exact howes
  · rw [htotal, hstores]
    exact Nat.zero_le _
  · rw [htotal, htakes]
    exact Nat.zero_le _
  · rw [htotal, hclaims]
    exact Nat.zero_le _
  · intro nr hnr
    exact hg nr (List.mem_singleton.mp hnr)

/-- **A round of `tty_write`** has the place that it has looked for. -/
theorem Inv.fetch {b : Byte} {rest : List Byte} (h : Inv d s) (hs : s.stack = [.fetch b rest]) :
    Inv d (d.fetch b rest s) := by
  have howes := hs ▸ h.served.owes
  rw [total_cons, show Frame.owes (.fetch b rest) = 1 from rfl,
    show total Frame.owes [] = 0 from rfl] at howes
  have hput : ∀ c buf b, Inv d { s.putWrite c with crFlag := b, stack := [.ttyWrite buf] } := by
    intro c buf b
    have htop : Inv d { s with stack := [.ttyWrite buf] } :=
      h.next hs (by rintro _ ⟨⟩) (Nat.zero_le _) rfl rfl rfl
    refine (htop.putWrite (c := c) ?_).set _ b
    change 0 + total Frame.owes s.sleeping < s.line.writeQ.left
    omega
  rw [Device.fetch]
  by_cases hnl : s.line.termios.opost ∧ s.line.termios.output b = 10#8 ∧ s.crFlag = false ∧
      s.line.termios.onlcr
  · exact (if_pos hnl).symm ▸ hput _ _ _
  · exact (if_neg hnl).symm ▸ hput _ _ _

/-- **The head of the loop of `tty_write`** looks before it goes on. -/
theorem Inv.ttyWrite {b : Byte} {rest : List Byte} (h : Inv d s)
    (hs : s.stack = [.ttyWrite (b :: rest)])
    (hq : ¬s.line.writeQ.Full → total Frame.owes s.sleeping < s.line.writeQ.left) :
    Inv d { s with stack := if s.line.writeQ.Full then [.write] else [.fetch b rest] } := by
  by_cases hfull : s.line.writeQ.Full
  · rw [if_pos hfull]
    exact h.next hs (by rintro _ ⟨⟩) (Nat.zero_le _) rfl rfl rfl
  · rw [if_neg hfull]
    obtain ⟨-, ⟨hsh, -, -, -, -, hasleep⟩, -⟩ := h.tail hs
    refine ⟨h.sound.set _ _ _ _, ⟨⟨fun _ => rfl, hsh⟩, ?_, Nat.zero_le _, Nat.zero_le _,
      Nat.zero_le _, hasleep⟩, by simp⟩
    change 1 + total Frame.owes s.sleeping ≤ s.line.writeQ.left
    have := hq hfull
    omega

/-- **A round of `tty_read`.** -/
theorem Inv.getSecondary {nr : ℕ} (h : Inv d s) (hs : s.stack = [.getSecondary nr]) :
    Inv d (getSecondary nr s) := by
  obtain ⟨⟨hread, hwrite, hsec, hover, hr, hw⟩, ⟨hsh, how, -, hta, hcl, hasleep⟩, hcon⟩ := h.tail hs
  -- nobody counts on a place in the queue while a process runs
  have hget : ∀ n, Inv d { s with
      line := { s.line with secondary := { s.line.secondary.getch with data := n } }
      stack := [] } := fun n =>
    ⟨⟨hread, hwrite, ⟨hsec.getch.head, hsec.getch.tail⟩, hover, hr, hw⟩,
      ⟨hsh, how, Nat.zero_le _, hta, hcl, hasleep⟩, hcon⟩
  have hnext : ∀ n, Inv d { s with
      line := { s.line with secondary := { s.line.secondary.getch with data := n } }
      stack := [.ttyRead nr] } := fun n =>
    ⟨⟨hread, hwrite, ⟨hsec.getch.head, hsec.getch.tail⟩, hover, hr, hw⟩,
      ⟨⟨fun _ => rfl, trivial⟩, how, Nat.zero_le _, Nat.zero_le _, Nat.zero_le _, hasleep⟩, by simp⟩
  rw [Tty.getSecondary]
  dsimp only
  split_ifs
  · exact hget _
  · exact hnext _
  · exact hget _
  · exact hnext _

/-- **The top of the stack goes on**, and nobody is disturbed. -/
theorem Inv.exec (h : Inv d s) (hs : s.stack = f :: st) (hq : d.Quiet st s f) :
    Inv d (d.exec st s f) := by
  have hshape := (hs ▸ h.served.shape : Shape (f :: st)).1
  cases f with
  | cooked => exact h.cooked hs hq
  | getRead => exact h.getRead hs
  | handle c => exact h.handle hs
  | putWrite c => exact (h.tail hs).putWrite (c := c) hq
  | write => exact h.write hs hq
  | putSecondary c => exact h.putSecondary hs
  | kill => exact h.kill hs
  | dec => exact h.dec hs hq
  | conWrite nr =>
    cases nr with
    | zero => exact h.tail hs
    | succ nr => exact h.conWrite hs
  | respond => exact h.respond hs hq
  | ttyWrite buf =>
    obtain rfl := hshape trivial
    cases buf with
    | nil => exact h.next hs (by rintro _ ⟨⟩) (Nat.zero_le _) rfl rfl rfl
    | cons b rest => exact h.ttyWrite hs hq
  | fetch b rest =>
    obtain rfl := hshape trivial
    exact h.fetch hs
  | ttyRead nr =>
    obtain rfl := hshape trivial
    cases nr with
    | zero => exact h.tail hs
    | succ nr =>
      rw [Device.exec]
      split_ifs
      · exact h.tail hs
      · exact h.next hs (by rintro _ ⟨⟩) (Nat.zero_le _) rfl rfl rfl
  | getSecondary nr =>
    obtain rfl := hshape trivial
    exact h.getSecondary hs

/-- **A character is transmitted**, on a line that has no `con_write`. -/
theorem Inv.transmit (h : Inv d s) (hd : d.console = false) (hne : s.line.writeQ.chars ≠ 0) :
    Inv d s.getWrite := by
  have hclaims : total Frame.claims s.stack = 0 := by
    refine total_eq_zero fun f hf => ?_
    cases f with
    | conWrite nr =>
      have := h.console nr hf
      rw [hd] at this
      cases this
    | _ => rfl
  refine h.getWrite hne ?_
  rw [hclaims]
  exact Nat.pos_of_ne_zero hne

/-- A process begins. -/
theorem Inv.start (h : Inv d s) (hs : s.stack = [])
    (hf : f.owes = 0 ∧ f.stores = 0 ∧ f.takes = 0 ∧ f.claims = 0) (hcon : ∀ nr, .conWrite nr ≠ f) :
    Inv d { s with stack := [f] } := by
  obtain ⟨hsound, ⟨-, how, -, -, -, hasleep⟩, -⟩ := h
  obtain ⟨ho, hst, hta, hcl⟩ := hf
  rw [hs] at how
  have htotal : ∀ w : Frame → ℕ, w f = 0 → total w [f] = 0 := fun w hw =>
    List.sum_singleton.trans hw
  refine ⟨hsound.set _ _ _ _, ⟨⟨fun _ => rfl, trivial⟩, ?_, (htotal Frame.stores hst).trans_le
    (Nat.zero_le _), (htotal Frame.takes hta).trans_le (Nat.zero_le _),
    (htotal Frame.claims hcl).trans_le (Nat.zero_le _), hasleep⟩, fun nr hnr => ?_⟩
  · exact (Nat.add_le_add_right (htotal Frame.owes ho).le _).trans how
  · exact absurd (List.mem_singleton.mp hnr) (hcon nr)

/-- **A process falls asleep**, and counts on what it counted on. -/
theorem Inv.sleep (h : Inv d s) (hs : s.stack = [f]) (hf : f.Faults) :
    Inv d { s with stack := [], sleeping := f :: s.sleeping } := by
  obtain ⟨hsound, ⟨-, how, -, -, -, hasleep⟩, -⟩ := h
  refine ⟨hsound.set _ _ _ _, ⟨trivial, ?_, Nat.zero_le _, Nat.zero_le _, Nat.zero_le _,
    List.forall_mem_cons.mpr ⟨hf, hasleep⟩⟩, by simp⟩
  change total Frame.owes [] + total Frame.owes (f :: s.sleeping) ≤ s.line.writeQ.left
  rw [hs, total_cons] at how
  rw [total_cons]
  omega

/-- **A process goes on** where it took the page fault. -/
theorem Inv.wake {l l' : List Frame} (h : Inv d s) (hs : s.stack = [])
    (hf : s.sleeping = l ++ f :: l') : Inv d { s with stack := [f], sleeping := l ++ l' } := by
  obtain ⟨hsound, ⟨-, how, -, -, -, hasleep⟩, -⟩ := h
  rw [hf] at how hasleep
  have hfault : f.Faults := hasleep f (List.mem_append_right _ List.mem_cons_self)
  have hnone : f.stores = 0 ∧ f.takes = 0 ∧ f.claims = 0 ∧ ∀ nr, .conWrite nr ≠ f := by
    cases f with
    | fetch _ _ => exact ⟨rfl, rfl, rfl, (by rintro _ ⟨⟩)⟩
    | ttyRead _ => exact ⟨rfl, rfl, rfl, (by rintro _ ⟨⟩)⟩
    | _ => exact hfault.elim
  obtain ⟨hst, hta, hcl, hcon⟩ := hnone
  have htotal : ∀ w : Frame → ℕ, w f = 0 → total w [f] = 0 := fun w hw =>
    List.sum_singleton.trans hw
  refine ⟨hsound.set _ _ _ _, ⟨⟨fun _ => rfl, trivial⟩, ?_, (htotal Frame.stores hst).trans_le
    (Nat.zero_le _), (htotal Frame.takes hta).trans_le (Nat.zero_le _),
    (htotal Frame.claims hcl).trans_le (Nat.zero_le _), fun g hg => hasleep g ?_⟩, fun nr hnr => ?_⟩
  · change total Frame.owes [f] + total Frame.owes (l ++ l') ≤ s.line.writeQ.left
    rw [hs, total_append, total_cons] at how
    rw [total_cons, total_append]
    change 0 + _ ≤ _ at how
    change _ + 0 + _ ≤ _
    omega
  · rcases List.mem_append.mp hg with hg | hg
    · exact List.mem_append_left _ hg
    · exact List.mem_append_right _ (List.mem_cons_of_mem _ hg)
  · exact absurd (List.mem_singleton.mp hnr) (hcon nr)

/-- A queue that is read from is flushed while nothing is under way. -/
theorem Inv.flushRead (h : Inv d s) (hs : s.stack = []) : Inv d s.flushRead := by
  obtain ⟨hsound, ⟨hsh, how, hst, -, hcl, hasleep⟩, hcon⟩ := h
  refine ⟨hsound.flushRead, ⟨hsh, how, hst, ?_, hcl, hasleep⟩, hcon⟩
  change total Frame.takes s.stack ≤ _
  rw [hs]
  exact Nat.zero_le _

/-- A queue that is written to is flushed while nothing is under way. -/
theorem Inv.flushWrite (h : Inv d s) (hs : s.stack = []) : Inv d s.flushWrite := by
  obtain ⟨hsound, ⟨hsh, how, hst, hta, -, hasleep⟩, hcon⟩ := h
  have hl := Queue.left_eq hsound.writeQ
  have hl' := Queue.left_eq hsound.writeQ.flush
  have hc := Queue.chars_flush hsound.writeQ
  refine ⟨hsound.flushWrite, ⟨hsh, ?_, hst, hta, ?_, hasleep⟩, hcon⟩
  · change _ + _ ≤ s.line.writeQ.flush.left
    rw [Sys.flushWrite]
    dsimp only
    omega
  · change total Frame.claims s.stack ≤ _
    rw [hs]
    exact Nat.zero_le _

/-- **A step** by which nobody is disturbed. -/
theorem Inv.step (h : Inv d s) (hstep : Step d True s s') : Inv d s' := by
  cases hstep with
  | exec hs hK => exact h.exec hs (hK trivial)
  | input cs => exact h.input cs
  | transmit hd hne => exact h.transmit hd hne
  | write buf hs => exact h.start hs ⟨rfl, rfl, rfl, rfl⟩ (by rintro _ ⟨⟩)
  | read nr hs hne => exact h.start hs ⟨rfl, rfl, rfl, rfl⟩ (by rintro _ ⟨⟩)
  | sleep hs hf => exact h.sleep hs hf
  | wake hs hf => exact h.wake hs hf
  | flushRead hs => exact h.flushRead hs
  | flushWrite hs => exact h.flushWrite hs
  | termios hs t =>
    obtain ⟨⟨hread, hwrite, hsec, hover, hr, hw⟩, ⟨hsh, how, hst, hta, hcl, hasleep⟩, hcon⟩ := h
    exact ⟨⟨hread, hwrite, hsec, hover, hr, hw⟩, ⟨hsh, how, hst, hta, hcl, hasleep⟩, hcon⟩
  | crFlag b => exact h.set s.con b

/-- A queue with both indices at the beginning. -/
theorem ok_of_start {q : Queue} (h : q.head = 0 ∧ q.tail = 0) : q.Ok ∧ q.contents = [] := by
  have hok : q.Ok := by
    constructor
    · rw [h.1]
      decide
    · rw [h.2]
      decide
  refine ⟨hok, ?_⟩
  rw [← List.length_eq_zero_iff, Queue.length_contents]
  exact (Queue.empty_iff hok).mp (h.1.trans h.2.symm)

theorem Start.inv (h : Start s) : Inv d s := by
  obtain ⟨hread, hwrite, hsec, hstack, hsleep, hover, hri, hro, hwi, hwo⟩ := h
  have hsound : Sound s := by
    refine ⟨(ok_of_start hread).1, (ok_of_start hwrite).1, (ok_of_start hsec).1, hover, ?_, ?_⟩
    · rw [hri, hro, (ok_of_start hread).2]
      rfl
    · rw [hwi, hwo, (ok_of_start hwrite).2]
      rfl
  have htotal : ∀ w n, total w s.stack ≤ n := fun w n => by
    rw [hstack]
    exact Nat.zero_le n
  refine ⟨hsound, ⟨?_, ?_, htotal _ _, htotal _ _, htotal _ _, fun f hf => ?_⟩, fun nr hnr => ?_⟩
  · rw [hstack]
    trivial
  · rw [hsleep]
    exact htotal _ _
  · rw [hsleep] at hf
    exact absurd hf List.not_mem_nil
  · rw [hstack] at hnr
    exact absurd hnr List.not_mem_nil

/-- An empty queue. -/
def emptyQueue : Queue := ⟨0#32, 0, 0, fun _ => 0#8⟩

/-- A terminal with echo, whose output is left as it is. -/
def echoing : Termios where
  icrnl := false
  inlcr := false
  igncr := false
  iuclc := false
  opost := false
  onlcr := false
  ocrnl := false
  onlret := false
  olcuc := false
  isig := false
  icanon := false
  echo := true
  echoctl := false
  intr := 3#8
  quit := 28#8
  erase := 127#8
  kill := 21#8
  eof := 4#8
  start := 17#8
  stop := 19#8

/-- A console with nothing on it. -/
def blank : Console.Con where
  video := ⟨.mda, 80, 160, 25, 0xb0000, 0xb2000, 0x720#16⟩
  ctl := ⟨0, 0, 0, 25, 0, 0, fun _ => 0, false, 7#8, 0, 0⟩
  origin := 0xb0000
  scrEnd := 0xb0fa0
  pos := 0xb0000
  mem := fun _ => 0x720#16
  stores := []

/-- The terminal at the start. -/
def idle : Sys where
  line := ⟨echoing, false, emptyQueue, emptyQueue, emptyQueue⟩
  con := blank
  crFlag := false
  stack := []
  sleeping := []
  overrun := false
  readIn := []
  readOut := []
  writeIn := []
  writeOut := []

/-- `RS_TTY`. -/
def serial : Device := ⟨false, id, id⟩

/-- **A process fills the write queue.** -/
theorem fill (n : ℕ) (c : Byte) (hr : Reachable Start (Step d False) s)
    (hs : s.stack = [.ttyWrite (List.replicate n c)]) (hpost : s.line.termios.opost = false)
    (hok : s.line.writeQ.Ok) (hn : n ≤ s.line.writeQ.left) :
    ∃ s', Reachable Start (Step d False) s' ∧ s'.stack = [.ttyWrite []] ∧
      s'.line.writeQ.left + n = s.line.writeQ.left ∧
      s'.line = { s.line with writeQ := s'.line.writeQ } := by
  induction n generalizing s with
  | zero => exact ⟨s, hr, hs, rfl, rfl⟩
  | succ n ih =>
    have hleft : s.line.writeQ.left ≠ 0 := by omega
    have hl := Queue.left_eq hok
    have hl' := Queue.left_eq (hok.putch (c := c))
    have hc := Queue.chars_putch (c := c) hok hleft
    -- there is room, and one character is put, as it is
    have hr1 := hr.next (Step.exec hs False.elim)
    have hlook : d.exec [] s (.ttyWrite (List.replicate (n + 1) c)) =
        { s with stack := [.fetch c (List.replicate n c)] } := by
      rw [List.replicate_succ, Device.exec, if_neg (show ¬s.line.writeQ.Full from hleft)]
    rw [hlook] at hr1
    have hr2 := hr1.next (Step.exec rfl False.elim)
    have hput : d.exec [] { s with stack := [.fetch c (List.replicate n c)] }
        (.fetch c (List.replicate n c)) =
        { s.putWrite c with crFlag := false, stack := [.ttyWrite (List.replicate n c)] } := by
      rw [Device.exec, Device.fetch]
      simp [hpost, Termios.output, Sys.putWrite]
    rw [hput] at hr2
    obtain ⟨s', hreach, hstack, hleft', hline⟩ := ih hr2 rfl hpost hok.putch (by
      change n ≤ (s.line.writeQ.putch c).left
      omega)
    refine ⟨s', hreach, hstack, ?_, hline⟩
    change s'.line.writeQ.left + n = (s.line.writeQ.putch c).left at hleft'
    omega

end Linux011.Tty

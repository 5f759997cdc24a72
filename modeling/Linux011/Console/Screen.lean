import Mathlib.Data.BitVec
import Mathlib.Data.Int.Notation
import Mathlib.Tactic.Common
import Mathlib.Tactic.Ring

/-!
# The console

`kernel/chr_drv/console.c`: `con_write` takes bytes and keeps the cursor, the scrolling region and
the state of the escape sequences; what it shows it stores into video memory. On an EGA or VGA
display a screen is scrolled by moving `origin`, and copied back to the start of video memory
when it has come to the end of it; on the other types it is copied a line up.

The variables are 32-bit words, and their arithmetic is done in the integers and cut to a word
(`Linux011.Console.u32`). Video memory is a word for each address; all addresses that are used
are as even as `origin` is. For the record, `stores` are the addresses of all stores so far.
What goes to the ports of the controller, the bell and the replies are left out.
-/

namespace Linux011.Console

/-- An unsigned word of 32 bits. -/
def u32 (n : ℤ) : ℕ := (n % 0x100000000).toNat

/-- `NPAR`. -/
def nPar : ℕ := 16

/-- The display types. -/
inductive VideoType
  | mda
  | cga
  | egam
  | egac
  deriving DecidableEq

/-- **What `con_init` finds out** about the display. -/
structure Video where
  type : VideoType
  numColumns : ℕ
  sizeRow : ℕ
  numLines : ℕ
  memStart : ℕ
  memEnd : ℕ
  eraseChar : BitVec 16

/-- **The control state**: the cursor, the scrolling region, and how far an escape sequence has
come. -/
structure Ctl where
  x : ℕ
  y : ℕ
  top : ℕ
  bottom : ℕ
  state : ℕ
  npar : ℕ
  par : ℕ → ℕ
  ques : Bool
  attr : BitVec 8
  savedX : ℕ
  savedY : ℕ

/-- **The console**, with its video memory. -/
structure Con where
  video : Video
  ctl : Ctl
  origin : ℕ
  scrEnd : ℕ
  pos : ℕ
  mem : ℕ → BitVec 16
  stores : List ℕ

/-- Whether the display can be scrolled by moving its origin. -/
def VideoType.ega (t : VideoType) : Bool := t = .egac || t = .egam

namespace Con

/-! ### The string instructions -/

/-- A word is stored. -/
def poke (a : ℕ) (w : BitVec 16) (s : Con) : Con :=
  { s with mem := Function.update s.mem a w, stores := a :: s.stores }

/-- `rep stosw`; the direction is 1 after `cld` and -1 after `std`. -/
def stosw (dir : ℤ) (w : BitVec 16) : ℕ → ℕ → Con → Con
  | 0, _, s => s
  | cx + 1, di, s => stosw dir w cx (u32 (di + 2 * dir)) (s.poke di w)

/-- `rep movsl`. -/
def movsl (dir : ℤ) : ℕ → ℕ → ℕ → Con → Con
  | 0, _, _, s => s
  | cx + 1, di, si, s =>
    movsl dir cx (u32 (di + 4 * dir)) (u32 (si + 4 * dir))
      ((s.poke di (s.mem si)).poke (u32 (di + 2)) (s.mem (u32 (si + 2))))

/-! ### The cursor and the lines -/

/-- `gotoxy`, which thinks that `x == video_num_columns` is ok. -/
def gotoxy (newX newY : ℕ) (s : Con) : Con :=
  if s.video.numColumns < newX ∨ s.video.numLines ≤ newY then s
  else { s with
    ctl := { s.ctl with x := newX, y := newY }
    pos := u32 (s.origin + newY * s.video.sizeRow + 2 * newX) }

/-- The longs that are copied to scroll the region by a line. -/
def regionLongs (s : Con) : ℕ :=
  u32 (((s.ctl.bottom : ℤ) - s.ctl.top - 1) * s.video.numColumns) / 2

/-- `scrup`, by copying; `movsl` leaves `edi` behind what it has copied. -/
def copyUp (s : Con) : Con :=
  let di := u32 (s.origin + s.video.sizeRow * s.ctl.top)
  let si := u32 (s.origin + s.video.sizeRow * (s.ctl.top + 1))
  (s.movsl 1 s.regionLongs di si).stosw 1 s.video.eraseChar s.video.numColumns
    (u32 (di + 4 * s.regionLongs))

/-- The origin, and what goes with it, moves on by a line. -/
def nextLine (s : Con) : Con :=
  { s with
    origin := u32 (s.origin + s.video.sizeRow)
    pos := u32 (s.pos + s.video.sizeRow)
    scrEnd := u32 (s.scrEnd + s.video.sizeRow) }

/-- The longs of all lines but one. -/
def screenLongs (s : Con) : ℕ :=
  u32 (((s.video.numLines : ℤ) - 1) * s.video.numColumns) / 2

/-- All lines but the last are copied back to the start of video memory, and the last is
cleared. -/
def copyLines (s : Con) : Con :=
  (s.movsl 1 s.screenLongs s.video.memStart s.origin).stosw 1 s.video.eraseChar
    s.video.numColumns (u32 (s.video.memStart + 4 * s.screenLongs))

/-- The origin is back at the start of video memory. -/
def resetOrigin (s : Con) : Con :=
  { s with
    scrEnd := u32 (s.scrEnd - (s.origin - s.video.memStart))
    pos := u32 (s.pos - (s.origin - s.video.memStart))
    origin := s.video.memStart }

/-- The last line is cleared. -/
def clearLast (s : Con) : Con :=
  s.stosw 1 s.video.eraseChar s.video.numColumns (u32 (s.scrEnd - s.video.sizeRow))

/-- `scrup`, of a whole screen on a display that can move its origin. -/
def moveOrigin (s : Con) : Con :=
  if s.nextLine.video.memEnd < s.nextLine.scrEnd then s.nextLine.copyLines.resetOrigin
  else s.nextLine.clearLast

/-- `scrup`. -/
def scrup (s : Con) : Con :=
  if s.video.type.ega then
    if s.ctl.top = 0 ∧ s.ctl.bottom = s.video.numLines then s.moveOrigin else s.copyUp
  else s.copyUp

/-- `scrdown`, which does the same on all displays. -/
def scrdown (s : Con) : Con :=
  let di := u32 (s.origin + s.video.sizeRow * s.ctl.bottom - 4)
  let si := u32 (s.origin + s.video.sizeRow * (s.ctl.bottom - 1) - 4)
  (s.movsl (-1) s.regionLongs di si).stosw (-1) s.video.eraseChar s.video.numColumns
    (u32 (di - 4 * s.regionLongs + 2))

/-- `lf`. -/
def lf (s : Con) : Con :=
  if u32 (s.ctl.y + 1) < s.ctl.bottom then
    { s with ctl := { s.ctl with y := u32 (s.ctl.y + 1) }, pos := u32 (s.pos + s.video.sizeRow) }
  else s.scrup

/-- `ri`. -/
def ri (s : Con) : Con :=
  if s.ctl.top < s.ctl.y then
    { s with ctl := { s.ctl with y := u32 (s.ctl.y - 1) }, pos := u32 (s.pos - s.video.sizeRow) }
  else s.scrdown

/-- `cr`. -/
def cr (s : Con) : Con :=
  { s with ctl := { s.ctl with x := 0 }, pos := u32 (s.pos - 2 * s.ctl.x) }

/-- The cursor goes one to the left. -/
def back (s : Con) : Con :=
  { s with ctl := { s.ctl with x := u32 (s.ctl.x - 1) }, pos := u32 (s.pos - 2) }

/-- `del`. -/
def del (s : Con) : Con :=
  if s.ctl.x ≠ 0 then s.back.poke s.back.pos s.video.eraseChar else s

/-! ### Erasing, inserting and deleting -/

/-- `csi_J`. -/
def csiJ (par : ℕ) (s : Con) : Con :=
  if par = 0 then s.stosw 1 s.video.eraseChar (u32 ((s.scrEnd : ℤ) - s.pos) / 2) s.pos
  else if par = 1 then s.stosw 1 s.video.eraseChar (u32 ((s.pos : ℤ) - s.origin) / 2) s.origin
  else if par = 2 then
    s.stosw 1 s.video.eraseChar (u32 (s.video.numColumns * s.video.numLines)) s.origin
  else s

/-- `csi_K`. -/
def csiK (par : ℕ) (s : Con) : Con :=
  if par = 0 then
    if s.video.numColumns ≤ s.ctl.x then s
    else s.stosw 1 s.video.eraseChar (s.video.numColumns - s.ctl.x) s.pos
  else if par = 1 then
    s.stosw 1 s.video.eraseChar
      (if s.ctl.x < s.video.numColumns then s.ctl.x else s.video.numColumns)
      (u32 (s.pos - 2 * s.ctl.x))
  else if par = 2 then
    s.stosw 1 s.video.eraseChar s.video.numColumns (u32 (s.pos - 2 * s.ctl.x))
  else s

/-- What a parameter of `csi_m` makes of the attribute. -/
def attrOf (par : ℕ) (attr : BitVec 8) : BitVec 8 :=
  if par = 0 then 0x07#8
  else if par = 1 then 0x0f#8
  else if par = 4 then 0x0f#8
  else if par = 7 then 0x70#8
  else if par = 27 then 0x07#8
  else attr

/-- `csi_m`. -/
def csim (s : Con) : Con :=
  { s with ctl := { s.ctl with
    attr := (List.range (s.ctl.npar + 1)).foldl (fun attr i => attrOf (s.ctl.par i) attr)
      s.ctl.attr } }

/-- The loop of `insert_char`. -/
def insertFrom : ℕ → ℕ → BitVec 16 → Con → Con
  | 0, _, _, s => s
  | n + 1, p, old, s => insertFrom n (u32 (p + 2)) (s.mem p) (s.poke p old)

/-- `insert_char`: `i` runs from `x` up to the number of columns. -/
def insertChar (s : Con) : Con :=
  s.insertFrom (s.video.numColumns - s.ctl.x) s.pos s.video.eraseChar

/-- The lines from the cursor down are the scrolling region for the time of a scroll. -/
def fromCursor (scroll : Con → Con) (s : Con) : Con :=
  let oldtop := s.ctl.top
  let oldbottom := s.ctl.bottom
  let s := scroll { s with ctl := { s.ctl with top := s.ctl.y, bottom := s.video.numLines } }
  { s with ctl := { s.ctl with top := oldtop, bottom := oldbottom } }

/-- `insert_line`. -/
def insertLine (s : Con) : Con := s.fromCursor scrdown

/-- The loop of `delete_char`, and the store behind it. -/
def deleteFrom : ℕ → ℕ → Con → Con
  | 0, p, s => s.poke p s.video.eraseChar
  | n + 1, p, s => deleteFrom n (u32 (p + 2)) (s.poke p (s.mem (u32 (p + 2))))

/-- `delete_char`. -/
def deleteChar (s : Con) : Con :=
  if s.video.numColumns ≤ s.ctl.x then s
  else s.deleteFrom (s.video.numColumns - s.ctl.x - 1) s.pos

/-- `delete_line`. -/
def deleteLine (s : Con) : Con := s.fromCursor scrup

/-- How often the `csi_` functions below do what they do. -/
def clip (nr limit : ℕ) : ℕ := if limit < nr then limit else if nr = 0 then 1 else nr

/-- `csi_at`. -/
def csiAt (nr : ℕ) (s : Con) : Con := insertChar^[clip nr s.video.numColumns] s

/-- `csi_L`. -/
def csiL (nr : ℕ) (s : Con) : Con := insertLine^[clip nr s.video.numLines] s

/-- `csi_P`. -/
def csiP (nr : ℕ) (s : Con) : Con := deleteChar^[clip nr s.video.numColumns] s

/-- `csi_M`. -/
def csiM (nr : ℕ) (s : Con) : Con := deleteLine^[clip nr s.video.numLines] s

/-- `save_cur`. -/
def saveCur (s : Con) : Con :=
  { s with ctl := { s.ctl with savedX := s.ctl.x, savedY := s.ctl.y } }

/-- `restore_cur`. -/
def restoreCur (s : Con) : Con := s.gotoxy s.ctl.savedX s.ctl.savedY

/-! ### `con_write` -/

/-- `state=n`. -/
def setState (n : ℕ) (s : Con) : Con := { s with ctl := { s.ctl with state := n } }

/-- `par[i]=v`. -/
def setPar (i v : ℕ) (s : Con) : Con :=
  { s with ctl := { s.ctl with par := Function.update s.ctl.par i v } }

/-- `if (par[i]) par[i]--`. -/
def decPar (i : ℕ) (s : Con) : Con :=
  if s.ctl.par i ≠ 0 then s.setPar i (s.ctl.par i - 1) else s

/-- `if (!par[0]) par[0]++`. -/
def incPar (s : Con) : Con := if s.ctl.par 0 = 0 then s.setPar 0 1 else s

/-- The cursor is beyond the last column: on to the next line. -/
def wrapLine (s : Con) : Con :=
  lf { s with
    ctl := { s.ctl with x := u32 (s.ctl.x - s.video.numColumns) }
    pos := u32 (s.pos - s.video.sizeRow) }

/-- A character is shown. -/
def putChar (c : BitVec 8) (s : Con) : Con :=
  let s := if s.video.numColumns ≤ s.ctl.x then s.wrapLine else s
  let s := s.poke s.pos (s.ctl.attr ++ c)
  { s with ctl := { s.ctl with x := u32 (s.ctl.x + 1) }, pos := u32 (s.pos + 2) }

/-- A tab. -/
def tab (s : Con) : Con :=
  let c := 8 - s.ctl.x % 8
  let s := { s with
    ctl := { s.ctl with x := u32 (s.ctl.x + c) }
    pos := u32 (s.pos + 2 * c) }
  if s.video.numColumns < s.ctl.x then s.wrapLine else s

/-- A character, as the source compares it: the type `char` is signed. -/
def ch (c : Char) : ℤ := c.toNat

/-- `case 0`: no escape sequence. -/
def plain (erase c : BitVec 8) (s : Con) : Con :=
  if 31 < c.toInt ∧ c.toInt < 127 then s.putChar c
  else if c.toInt = 27 then s.setState 1
  else if c.toInt = 10 ∨ c.toInt = 11 ∨ c.toInt = 12 then s.lf
  else if c.toInt = 13 then s.cr
  else if c.toInt = erase.toNat then s.del
  else if c.toInt = 8 then if s.ctl.x ≠ 0 then s.back else s
  else if c.toInt = 9 then s.tab
  else s

/-- `case 1`: after an escape. The cursor is saved and restored where `x`, not the byte, is `'7'`
and `'8'`. -/
def escape (c : ℤ) (s : Con) : Con :=
  let s := s.setState 0
  if c = ch '[' then s.setState 2
  else if c = ch 'E' then s.gotoxy 0 (u32 (s.ctl.y + 1))
  else if c = ch 'M' then s.ri
  else if c = ch 'D' then s.lf
  else if c = ch 'Z' then s
  else if s.ctl.x = 55 then s.saveCur
  else if s.ctl.x = 56 then s.restoreCur
  else s

/-- The command `r`: the scrolling region. -/
def setRegion (s : Con) : Con :=
  let s := s.decPar 0
  let s := if s.ctl.par 1 = 0 then s.setPar 1 s.video.numLines else s
  if s.ctl.par 0 < s.ctl.par 1 ∧ s.ctl.par 1 ≤ s.video.numLines then
    { s with ctl := { s.ctl with top := s.ctl.par 0, bottom := s.ctl.par 1 } }
  else s

/-- The commands that move the cursor: `gotoxy` of what becomes of the parameters. -/
def move (f : Ctl → ℤ × ℤ) (s : Con) : Con := s.gotoxy (u32 (f s.ctl).1) (u32 (f s.ctl).2)

/-- `case 4`: the command at the end of a sequence. -/
def command (c : ℤ) (s : Con) : Con :=
  let s := s.setState 0
  if c = ch 'G' ∨ c = 96 then (s.decPar 0).move fun t => (t.par 0, t.y)
  else if c = ch 'A' then s.incPar.move fun t => (t.x, t.y - t.par 0)
  else if c = ch 'B' ∨ c = ch 'e' then s.incPar.move fun t => (t.x, t.y + t.par 0)
  else if c = ch 'C' ∨ c = ch 'a' then s.incPar.move fun t => (t.x + t.par 0, t.y)
  else if c = ch 'D' then s.incPar.move fun t => (t.x - t.par 0, t.y)
  else if c = ch 'E' then s.incPar.move fun t => (0, t.y + t.par 0)
  else if c = ch 'F' then s.incPar.move fun t => (0, t.y - t.par 0)
  else if c = ch 'd' then (s.decPar 0).move fun t => (t.x, t.par 0)
  else if c = ch 'H' ∨ c = ch 'f' then ((s.decPar 0).decPar 1).move fun t => (t.par 1, t.par 0)
  else if c = ch 'J' then s.csiJ (s.ctl.par 0)
  else if c = ch 'K' then s.csiK (s.ctl.par 0)
  else if c = ch 'L' then s.csiL (s.ctl.par 0)
  else if c = ch 'M' then s.csiM (s.ctl.par 0)
  else if c = ch 'P' then s.csiP (s.ctl.par 0)
  else if c = ch '@' then s.csiAt (s.ctl.par 0)
  else if c = ch 'm' then s.csim
  else if c = ch 'r' then s.setRegion
  else if c = ch 's' then s.saveCur
  else if c = ch 'u' then s.restoreCur
  else s

/-- `case 3`, which falls through to `case 4`: the parameters. -/
def params (c : ℤ) (s : Con) : Con :=
  if c = ch ';' ∧ s.ctl.npar < nPar - 1 then
    { s with ctl := { s.ctl with npar := s.ctl.npar + 1 } }
  else if ch '0' ≤ c ∧ c ≤ ch '9' then
    s.setPar s.ctl.npar (u32 (10 * s.ctl.par s.ctl.npar + c - ch '0'))
  else (s.setState 4).command c

/-- `case 2`, which falls through to `case 3`: the parameters are cleared. -/
def clearParams (c : ℤ) (s : Con) : Con :=
  let s := { s with ctl := { s.ctl with
    par := fun i => if i < nPar then 0 else s.ctl.par i
    npar := 0
    state := 3
    ques := decide (c = ch '?') } }
  if s.ctl.ques then s else s.params c

/-- A byte is written; `erase` is `ERASE_CHAR(tty)`. -/
def conChar (erase c : BitVec 8) (s : Con) : Con :=
  if s.ctl.state = 0 then s.plain erase c
  else if s.ctl.state = 1 then s.escape c.toInt
  else if s.ctl.state = 2 then s.clearParams c.toInt
  else if s.ctl.state = 3 then s.params c.toInt
  else if s.ctl.state = 4 then s.command c.toInt
  else s

/-- **`con_write`**: the bytes of the queue, each with what `ERASE_CHAR(tty)` is by then. -/
def conWrite (bytes : List (BitVec 8 × BitVec 8)) (s : Con) : Con :=
  bytes.foldl (fun s b => s.conChar b.1 b.2) s

end Con

/-! ### `con_init` -/

/-- What the setup routine has left behind. -/
structure Setup where
  /-- `ORIG_VIDEO_MODE == 7`. -/
  mono : Bool
  /-- `(ORIG_VIDEO_EGA_BX & 0xff) != 0x10`. -/
  ega : Bool
  cols : BitVec 8
  x : BitVec 8
  y : BitVec 8

/-- What `con_init` makes of it. -/
def Setup.video (b : Setup) : Video where
  type := if b.mono then if b.ega then .egam else .mda else if b.ega then .egac else .cga
  numColumns := b.cols.toNat
  sizeRow := b.cols.toNat * 2
  numLines := 25
  memStart := if b.mono then 0xb0000 else 0xb8000
  memEnd := if b.mono then if b.ega then 0xb8000 else 0xb2000
    else if b.ega then 0xbc000 else 0xba000
  eraseChar := 0x0720#16

/-- `display_desc`. -/
def Setup.displayDesc (b : Setup) : List (BitVec 8) :=
  if b.mono then if b.ega then [69, 71, 65, 109] else [42, 77, 68, 65]
  else if b.ega then [69, 71, 65, 99] else [42, 67, 71, 65]

/-- The loop that shows `display_desc`: a byte, and the attribute behind it stays. -/
def Con.describe : List (BitVec 8) → ℕ → Con → Con
  | [], _, s => s
  | c :: cs, p, s => describe cs (p + 2) (s.poke p (s.mem p &&& 0xff00#16 ||| c.setWidth 16))

/-- The static variables, before `con_init`. -/
def Setup.fresh (b : Setup) (mem : ℕ → BitVec 16) : Con where
  video := b.video
  ctl := ⟨0, 0, 0, 25, 0, 0, fun _ => 0, false, 0x07#8, 0, 0⟩
  origin := b.video.memStart
  scrEnd := b.video.memStart + b.video.numLines * b.video.sizeRow
  pos := 0
  mem := mem
  stores := []

/-- `con_init`. -/
def conInit (b : Setup) (mem : ℕ → BitVec 16) : Con :=
  ((b.fresh mem).describe b.displayDesc (b.video.memStart + b.video.sizeRow - 8)).gotoxy
    b.x.toNat b.y.toNat

end Linux011.Console

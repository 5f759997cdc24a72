import Linux011.Lib.StringOps
import Mathlib

/-!
# `include/string.h`

`strcpy`, `strncpy`, `strcat`, `strncat`, `strcmp`, `strncmp`, `strchr` and `strstr`, instruction by
instruction: a loop of the source is a recursion with a number of rounds, which ends with `none` if
there are too few. The other registers hold anything when a routine begins.
-/

namespace Linux011.Strings

open X86

/-- The registers that the assembler is given; the rest is as it was, and nothing has been stored
yet. -/
def inputs (c : Cpu) (eax ecx : BitVec 32) (esi edi : Addr) : Cpu :=
  { c with
    eax := eax
    ecx := ecx
    esi := esi
    edi := edi
    stores := [] }

/-! ### Copies -/

/-- `1: lodsb; stosb; testb %al,%al; jne 1b` -/
def copyLoop : ℕ → Cpu → Option Cpu
  | 0, _ => none
  | n + 1, c =>
    let c := c.lodsb.stosb.testAl
    if c.zf = false then copyLoop n c else some c

/-- **`strcpy`** -/
def strcpy (n : ℕ) (dest src : Addr) (c : Cpu) : Option (BitVec 32 × Cpu) := do
  let c ← copyLoop n (inputs c c.eax c.ecx src dest).cld
  some (dest, c)

/-- The loop of `strncpy`, and its `rep stosb`. -/
def strncpyLoop : ℕ → Cpu → Option Cpu
  | 0, _ => none
  | n + 1, c =>
    -- 1: decl %2; js 2f
    let c := c.declEcx
    if c.sf = true then some c
    else
      -- lodsb; stosb; testb %al,%al; jne 1b
      let c := c.lodsb.stosb.testAl
      if c.zf = false then strncpyLoop n c
      else
        -- rep; stosb
        some (c.rep Cpu.stosb)

/-- **`strncpy`** -/
def strncpy (n : ℕ) (dest src : Addr) (count : BitVec 32) (c : Cpu) : Option (BitVec 32 × Cpu) := do
  let c ← strncpyLoop n (inputs c c.eax count src dest).cld
  some (dest, c)

/-- `cld; repne; scasb; decl %edi`, with 0 in `%eax` and `0xffffffff` in `%ecx`. -/
def toEnd (dest src : Addr) (c : Cpu) : Cpu :=
  ((inputs c 0 0xffffffff src dest).cld.repne Cpu.scasb).declEdi

/-- **`strcat`** -/
def strcat (n : ℕ) (dest src : Addr) (c : Cpu) : Option (BitVec 32 × Cpu) := do
  let c ← copyLoop n (toEnd dest src c)
  some (dest, c)

/-- The loop of `strncat`. -/
def strncatLoop : ℕ → Cpu → Option Cpu
  | 0, _ => none
  | n + 1, c =>
    -- 1: decl %3; js 2f
    let c := c.declEcx
    if c.sf = true then some c
    else
      -- lodsb; stosb; testb %al,%al; jne 1b
      let c := c.lodsb.stosb.testAl
      if c.zf = false then strncatLoop n c else some c

/-- **`strncat`** -/
def strncat (n : ℕ) (dest src : Addr) (count : BitVec 32) (c : Cpu) : Option (BitVec 32 × Cpu) := do
  -- movl %4,%3
  let c ← strncatLoop n { toEnd dest src c with ecx := count }
  -- 2: xorl %2,%2; stosb
  some (dest, c.xorlEax.stosb)

/-! ### Comparisons -/

/-- `2: movl $1,%eax; jl 3f; negl %eax; 3:` -/
def order (c : Cpu) : Cpu :=
  let c := { c with eax := 1 }
  if c.less = true then c else c.neglEax

/-- The loop of `strcmp`, and what comes after it. -/
def strcmpLoop : ℕ → Cpu → Option Cpu
  | 0, _ => none
  | n + 1, c =>
    -- 1: lodsb; scasb; jne 2f
    let c := c.lodsb.scasb
    if c.zf = false then some (order c)
    else
      -- testb %al,%al; jne 1b
      let c := c.testAl
      if c.zf = false then strcmpLoop n c
      else
        -- xorl %eax,%eax; jmp 3f
        some c.xorlEax

/-- **`strcmp`** -/
def strcmp (n : ℕ) (cs ct : Addr) (c : Cpu) : Option (BitVec 32 × Cpu) := do
  let c ← strcmpLoop n (inputs c c.eax c.ecx ct cs).cld
  some (c.eax, c)

/-- The loop of `strncmp`, and what comes after it. -/
def strncmpLoop : ℕ → Cpu → Option Cpu
  | 0, _ => none
  | n + 1, c =>
    -- 1: decl %3; js 2f
    let c := c.declEcx
    if c.sf = true then some c.xorlEax
    else
      -- lodsb; scasb; jne 3f
      let c := c.lodsb.scasb
      if c.zf = false then some (order c)
      else
        -- testb %al,%al; jne 1b
        let c := c.testAl
        if c.zf = false then strncmpLoop n c
        else
          -- 2: xorl %eax,%eax; jmp 4f
          some c.xorlEax

/-- **`strncmp`** -/
def strncmp (n : ℕ) (cs ct : Addr) (count : BitVec 32) (c : Cpu) : Option (BitVec 32 × Cpu) := do
  let c ← strncmpLoop n (inputs c c.eax count ct cs).cld
  some (c.eax, c)

/-! ### Searches -/

/-- The loop of `strchr`, and what comes after it. -/
def strchrLoop : ℕ → Cpu → Option Cpu
  | 0, _ => none
  | n + 1, c =>
    -- 1: lodsb; cmpb %ah,%al; je 2f
    let c := c.lodsb
    let c := c.compare c.al c.ah
    if c.zf = true then
      -- 2: movl %1,%0; decl %0
      some { c with eax := c.esi }.declEax
    else
      -- testb %al,%al; jne 1b
      let c := c.testAl
      if c.zf = false then strchrLoop n c
      else
        -- movl $1,%1; 2: movl %1,%0; decl %0
        let c := { c with esi := 1 }
        some { c with eax := c.esi }.declEax

/-- **`strchr`**; the character is in `%al`, and anything above it. -/
def strchr (n : ℕ) (s : Addr) (char : BitVec 32) (c : Cpu) : Option (BitVec 32 × Cpu) := do
  let c := (inputs c char c.ecx s c.edi).cld
  -- movb %al,%ah
  let c ← strchrLoop n (c.setAh c.al)
  some (c.eax, c)

/-- The loop of `strstr`. -/
def strstrLoop (ct : Addr) : ℕ → Cpu → Option Cpu
  | 0, _ => none
  | n + 1, c =>
    -- 1: movl %4,%edi; movl %esi,%eax; movl %edx,%ecx
    let c := { c with
      edi := ct
      eax := c.esi
      ecx := c.edx }
    -- repe; cmpsb; je 2f
    let c := c.repe Cpu.cmpsb
    if c.zf = true then some c
    else
      -- xchgl %eax,%esi; incl %esi
      let c := { c with
        eax := c.esi
        esi := c.eax }.inclEsi
      -- cmpb $0,-1(%eax); jne 1b
      let c := c.compare (c.mem (c.eax - 1)) 0
      if c.zf = false then strstrLoop ct n c
      else
        -- xorl %eax,%eax
        some c.xorlEax

/-- **`strstr`** -/
def strstr (n : ℕ) (cs ct : Addr) (c : Cpu) : Option (BitVec 32 × Cpu) := do
  -- cld; movl %4,%edi; repne; scasb
  let c := { (inputs c 0 0xffffffff cs c.edi).cld with edi := ct }.repne Cpu.scasb
  -- notl %ecx; decl %ecx, which also sets Z if the searchstring is ''
  let c := { c with ecx := ~~~c.ecx }.declEcx
  -- movl %ecx,%edx
  let c ← strstrLoop ct n { c with edx := c.ecx }
  some (c.eax, c)

end Linux011.Strings

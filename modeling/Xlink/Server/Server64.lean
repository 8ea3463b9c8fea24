import Xlink.Server.Requests

/-!
# `server64.asm` and `kernal64.asm`

The handlers of the two C64 servers. The RAM server's are in `Server64`; the KERNAL's differ in how
they read memory in which the KERNAL is not visible and in how they poke (`Kernal64`).
-/

namespace Xlink.Server

open Word Mos6502 Port

variable {rom : Addr → Byte} {chips : List Access → Addr → Byte}

/-- `sysirq`, the vector the RAM server's `uninstall` stores. -/
def sysirq64 : Addr := 0xea31#16

/-- `repl`: where code that has been jumped to can return to. -/
def repl64 : Addr := 0xa480#16

namespace Server64

/-- `SYS1000` comes back to `install`. -/
def install (irq install : Addr) : Code (c64 rom chips) Unit := installAt 0x03e8#16 irq install

/-- A round of a load with I/O disabled. -/
def loadSlow : Code (c64 rom chips) (Byte × Bool) := do
  wait
  lda (.abs 0xdd01#16)
  ldxImm 0x33#8
  stx (.zp 0x01#8)
  sta (.indY (c64 rom chips).start)
  let v ← observe (·.a)
  ldaImm 0x37#8
  sta (.zp 0x01#8)
  ack
  let again ← next
  pure (v, again)

def load : Code (c64 rom chips) Outcome := do
  jsr readHeader
  let h ← observe (·.bus.header)
  screenOff
  checkBasic
  ldyImm 0x00#8
  lda (.zp (c64 rom chips).mem)
  andImm 0x7f#8
  cmpImm 0x37#8
  let payload ← ifNe (loop loadSlow rounds) (loop loadNear rounds)
  relinkBasic
  screenOn
  pure (.returned (some (.load h.memory h.bank h.start h.stop payload)))

/-- A round of a save with the requested configuration. -/
def saveSlow : Code (c64 rom chips) (Byte × Bool) := do
  lda (.zp (c64 rom chips).mem)
  sta (.zp 0x01#8)
  lda (.indY (c64 rom chips).start)
  ldxImm 0x37#8
  stx (.zp 0x01#8)
  let v ← observe (·.a)
  write
  let again ← next
  pure (v, again)

def save : Code (c64 rom chips) Outcome := do
  jsr readHeader
  let h ← observe (·.bus.header)
  screenOff
  output
  ldyImm 0x00#8
  lda (.zp (c64 rom chips).mem)
  cmpImm 0x37#8
  let reply ← ifNe (loop saveSlow rounds) (loop saveNear rounds)
  ldaImm 0x00#8
  sta (.abs 0xdd03#16)
  screenOn
  pure (.returned (some (.save h.memory h.bank h.start h.stop reply)))

def poke : Code (c64 rom chips) Outcome := do
  readAddress
  ldyImm 0x00#8
  wait
  lda (.abs 0xdd01#16)
  tax
  ack
  txa
  ldx (.zp (c64 rom chips).mem)
  stx (.zp 0x01#8)
  sta (.indY (c64 rom chips).start)
  let r ← observe fun s => Request.poke s.bus.header.memory s.bus.header.bank s.bus.header.start s.a
  ldaImm 0x37#8
  sta (.zp 0x01#8)
  pure (.returned (some r))

def peek : Code (c64 rom chips) Outcome := do
  readAddress
  output
  ldyImm 0x00#8
  ldx (.zp (c64 rom chips).mem)
  stx (.zp 0x01#8)
  lda (.indY (c64 rom chips).start)
  ldxImm 0x37#8
  stx (.zp 0x01#8)
  let r ← observe fun s => Request.peek s.bus.header.memory s.bus.header.bank s.bus.header.start s.a
  jsr write
  input
  pure (.returned (some r))

def jump : Code (c64 rom chips) Outcome := do
  jsr read
  stx (.zp (c64 rom chips).mem)
  jsr read
  stx (.zp (c64 rom chips).bank)
  ldxImm 0xff#8
  txs
  ldaImm (hi repl64)
  pha
  ldaImm (lo repl64 - 1#8)
  pha
  jsr read
  txa
  pha
  jsr read
  txa
  pha
  lda (.zp (c64 rom chips).mem)
  sta (.zp 0x01#8)
  let memory ← observe (·.a)
  ldaImm 0x00#8
  tax
  tay
  pha
  let bank ← observe (·.bus.zp (c64 rom chips).bank)
  let address ← rti
  pure (.left (.jump memory bank address))

/-- Note that the high byte goes where the low byte of the vector is. -/
def uninstall : Code (c64 rom chips) Unit := do
  ldaImm (hi sysirq64)
  ldxImm (lo sysirq64)
  sta (.abs 0x0314#16)
  stx (.abs 0x0315#16)

/-- `basic` is what the routines `insnewl` and `restxtpt` of the BASIC ROM do. -/
def run (basic : Code (c64 rom chips) Unit) : Code (c64 rom chips) Outcome := do
  jsr uninstall
  ldxImm 0xff#8
  txs
  ldaImm 0x01#8
  sta (.zp 0xcc#8)
  basic
  ldaImm 0x00#8
  sta (.zp 0x9d#8)
  pure (.left .run)

/-- `back` is the address of the label `return`. -/
def handlers (table : Table) (back : Addr) (basic : Code (c64 rom chips) Unit) :
    Handlers (c64 rom chips) where
  load := load
  save := save
  peek := peek
  poke := poke
  jump := jump
  run := run basic
  inject := inject back
  identify := identify table

end Server64

namespace Kernal64

/-- The code of `ram.read` as `ram.install` copies it: `lda mem`, `sta $01`, `lda (start),y`,
`ldx #$37`, `stx $01`, `rts`. -/
def codestart : List Byte :=
  [0xa5#8, 0xfe#8, 0x85#8, 0x01#8, 0xb1#8, 0xc1#8, 0xa2#8, 0x37#8, 0x86#8, 0x01#8, 0x60#8]

namespace Ram

def install : Code (c64 rom chips) Unit := copyDown codestart 0x0100#16

def read : Code (c64 rom chips) Unit := do
  lda (.zp (c64 rom chips).mem)
  sta (.zp 0x01#8)
  lda (.indY (c64 rom chips).start)
  ldxImm 0x37#8
  stx (.zp 0x01#8)

end Ram

/-- The same code as the RAM server's. -/
def load : Code (c64 rom chips) Outcome := Server64.load

/-- A round of a save that changes memory while the KERNAL is still there. -/
def saveFast : Code (c64 rom chips) (Byte × Bool) := do
  ldx (.zp (c64 rom chips).mem)
  stx (.zp 0x01#8)
  lda (.indY (c64 rom chips).start)
  ldxImm 0x37#8
  stx (.zp 0x01#8)
  let v ← observe (·.a)
  write
  let again ← next
  pure (v, again)

/-- A round of a save that reads from RAM since the KERNAL will be gone. -/
def saveSlow : Code (c64 rom chips) (Byte × Bool) := do
  jsr Ram.read
  let v ← observe (·.a)
  write
  let again ← next
  pure (v, again)

def save : Code (c64 rom chips) Outcome := do
  jsr readHeader
  let h ← observe (·.bus.header)
  screenOff
  wait
  ldaImm 0xff#8
  sta (.abs 0xdd03#16)
  ldyImm 0x00#8
  lda (.zp (c64 rom chips).mem)
  andImm 0x02#8
  cmpImm 0x02#8
  let reply ← ifNe
    (do
      jsr Ram.install
      loop saveSlow rounds)
    (do
      lda (.zp (c64 rom chips).mem)
      cmpImm 0x37#8
      ifNe (loop saveFast rounds) (loop saveNear rounds))
  ldaImm 0x00#8
  sta (.abs 0xdd03#16)
  screenOn
  pure (.returned (some (.save h.memory h.bank h.start h.stop reply)))

def poke : Code (c64 rom chips) Outcome := do
  readAddress
  ldyImm 0x00#8
  lda (.zp (c64 rom chips).mem)
  cmpImm 0x37#8
  let v ← ifNe
    (do
      jsr read
      txa
      ldxImm 0x33#8
      stx (.zp 0x01#8)
      sta (.indY (c64 rom chips).start)
      let v ← observe (·.a)
      ldaImm 0x37#8
      sta (.zp 0x01#8)
      pure v)
    (do
      jsr read
      txa
      sta (.indY (c64 rom chips).start)
      observe (·.a))
  let h ← observe (·.bus.header)
  pure (.returned (some (.poke h.memory h.bank h.start v)))

def peek : Code (c64 rom chips) Outcome := do
  readAddress
  wait
  ldaImm 0xff#8
  sta (.abs 0xdd03#16)
  jsr Ram.install
  ldyImm 0x00#8
  jsr Ram.read
  let r ← observe fun s => Request.peek s.bus.header.memory s.bus.header.bank s.bus.header.start s.a
  jsr write
  ldaImm 0x00#8
  sta (.abs 0xdd03#16)
  pure (.returned (some r))

/-- The KERNAL stays visible to the code jumped to. -/
def jump : Code (c64 rom chips) Outcome := do
  jsr Server.read
  stx (.zp (c64 rom chips).mem)
  jsr Server.read
  stx (.zp (c64 rom chips).bank)
  ldxImm 0xff#8
  txs
  ldaImm (hi repl64)
  pha
  ldaImm (lo repl64 - 1#8)
  pha
  jsr Server.read
  txa
  pha
  jsr Server.read
  txa
  pha
  lda (.zp (c64 rom chips).mem)
  let memory ← observe (·.a)
  oraImm 0x02#8
  sta (.zp 0x01#8)
  ldaImm 0x00#8
  tax
  tay
  pha
  let bank ← observe (·.bus.zp (c64 rom chips).bank)
  let address ← rti
  pure (.left (.jump memory bank address))

/-- `basic` is what the routines `insnewl` and `restxtpt` of the BASIC ROM do. -/
def run (basic : Code (c64 rom chips) Unit) : Code (c64 rom chips) Outcome := do
  ldxImm 0xff#8
  txs
  ldaImm 0x01#8
  sta (.zp 0xcc#8)
  basic
  ldaImm 0x00#8
  sta (.zp 0x9d#8)
  pure (.left .run)

def handlers (table : Table) (back : Addr) (basic : Code (c64 rom chips) Unit) :
    Handlers (c64 rom chips) where
  load := load
  save := save
  peek := peek
  poke := poke
  jump := jump
  run := run basic
  inject := inject back
  identify := identify table

end Kernal64

end Xlink.Server

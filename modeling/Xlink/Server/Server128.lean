import Xlink.Server.Requests

/-!
# `server128.asm` and `kernal128.asm`

The handlers of the two C128 servers. They are the same but for `run`: the RAM server uninstalls
itself first. A transfer from or to memory that is not visible in the server's own configuration
(`far`) is done by code copied to the common area, over the KERNAL's `FETCH` and `STASH`, which
`reinst` puts back. What is copied there is a parameter, nothing depends on it.

The three KERNAL routines are not part of these sources. They are parameters as well, with what they
are documented to do as fields of the structure that brings them (`CommonArea`): `FETCH` reads and
`STASH` writes (pointer)+Y under the configuration in X, `reinst` copies the KERNAL's code. What
they leave in A, X and the flags is open where no documentation says it. Nothing is said about
`jmpfar`, which a jump ends in.
-/

namespace Xlink.Server

open Word Mos6502 Port

variable {rom : Byte → Addr → Byte} {chips : List Access → Addr → Byte}

/-- `mmu`, the register that selects the configuration. -/
def mmu : Addr := 0xff00#16

/-- The table of configurations in the KERNAL. -/
def bank2mmu : Addr := 0xf7f0#16

def common : Addr := 0x02a2#16
def fetchptr : Addr := 0x02aa#16
def stashptr : Addr := 0x02b9#16
def saved : Byte := 0xff#8

/-- `sysirq`, the vector the RAM server's `uninstall` stores. -/
def sysirq128 : Addr := 0xfa65#16

/-- `repl`: where code that has been jumped to can return to. -/
def repl128 : Addr := 0x4dc6#16

/-- Code that is copied to the common area. None of it is longer than the KERNAL's own code there,
which ends at `$02fb`. -/
structure CommonCode where
  bytes : List Byte
  length_le : bytes.length ≤ 0x5a

/-- `FETCH`: A becomes the byte at (pointer)+Y under the configuration in X, where the pointer is in
the cells whose number has been stored at `fetchptr`. -/
def Fetches (fetch : Code (c128 rom chips) Unit) : Prop :=
  ∀ s : Cpu (Machine (c128 rom chips)), ∃ x z n,
    let pointer := s.bus.word (Machine.read s.bus fetchptr).1
    let r := Machine.read ({ s.bus with config := s.x } : Machine (c128 rom chips))
      (pointer + s.y.setWidth 16)
    fetch s = some ((), ⟨r.1, x, s.y, z, n, s.stack, { r.2 with config := s.bus.config }⟩)

/-- `STASH`: A is stored at (pointer)+Y under the configuration in X. -/
def Stashes (stash : Code (c128 rom chips) Unit) : Prop :=
  ∀ (s : Cpu (Machine (c128 rom chips))) (M : Machine (c128 rom chips)),
    let pointer := s.bus.word (Machine.read s.bus stashptr).1
    Machine.write ({ s.bus with config := s.x } : Machine (c128 rom chips))
      (pointer + s.y.setWidth 16) s.a = some M → ∃ a x z n,
        stash s = some ((), ⟨a, x, s.y, z, n, s.stack, { M with config := s.bus.config }⟩)

/-- `reinst` leaves the machine as a copy of the KERNAL's code to the common area does. -/
def Reinstalls (kernal : CommonCode) (reinst : Code (c128 rom chips) Unit) : Prop :=
  ∀ s t : Cpu (Machine (c128 rom chips)), copyDown kernal.bytes common s = some ((), t) →
    ∃ a x y z n, reinst s = some ((), ⟨a, x, y, z, n, t.stack, t.bus⟩)

/-- The code for the common area, the server's four loops and the KERNAL's own, and the KERNAL
routines that have to do with it. -/
structure CommonArea (rom : Byte → Addr → Byte) (chips : List Access → Addr → Byte) where
  slowReceive : CommonCode
  fastReceive : CommonCode
  slowSend : CommonCode
  fastSend : CommonCode
  kernal : CommonCode
  reinst : Code (c128 rom chips) Unit
  fetch : Code (c128 rom chips) Unit
  stash : Code (c128 rom chips) Unit
  reinstalls : Reinstalls kernal reinst
  fetches : Fetches fetch
  stashes : Stashes stash

namespace Server128

/-- `SYS6400` comes back to `install`. -/
def install (irq install : Addr) : Code (c128 rom chips) Unit := installAt 0x1900#16 irq install

/-- Whether the transfer is `near`; `mem` becomes the bank's configuration if the memory config is
the one that is set. -/
def checkBank : Code (c128 rom chips) Bool := do
  lda (.zp (c128 rom chips).mem)
  cmp (.abs mmu)
  ifNe (pure false) do
    ldx (.zp (c128 rom chips).bank)
    lda (.absX bank2mmu)
    sta (.zp (c128 rom chips).mem)
    cmp (.abs mmu)
    ifNe (pure false) (pure true)

/-- Whether I/O stays visible, so that the fast loop will do. -/
def checkIo : Code (c128 rom chips) Bool := do
  lda (.zp (c128 rom chips).mem)
  andImm 0x01#8
  cmpImm 0x00#8
  ifNe (pure false) (pure true)

/-- Copy code to the common area, run it, and let the KERNAL put its own code back. -/
def jsrcommon {α : Type} (area : CommonArea rom chips) (code : CommonCode)
    (body : Code (c128 rom chips) α) : Code (c128 rom chips) α := do
  copyDown code.bytes common
  let result ← jsr body
  jsr area.reinst
  pure result

/-! ## Far code -/

/-- A round of `slow_receivefar`. -/
def receiveSlow : Code (c128 rom chips) (Byte × Bool) := do
  wait
  lda (.abs 0xdd01#16)
  ldx (.zp (c128 rom chips).mem)
  stx (.abs mmu)
  sta (.indY (c128 rom chips).start)
  let v ← observe (·.a)
  ldx (.zp saved)
  stx (.abs mmu)
  ack
  let again ← next
  pure (v, again)

def slow_receivefar : Code (c128 rom chips) (List Byte) := do
  lda (.abs mmu)
  sta (.zp saved)
  ldyImm 0x00#8
  loop receiveSlow rounds

def fast_receivefar : Code (c128 rom chips) (List Byte) := do
  lda (.abs mmu)
  sta (.zp saved)
  lda (.zp (c128 rom chips).mem)
  sta (.abs mmu)
  ldyImm 0x00#8
  let payload ← loop loadNear rounds
  lda (.zp saved)
  sta (.abs mmu)
  pure payload

/-- A round of `slow_sendfar`. -/
def sendSlow : Code (c128 rom chips) (Byte × Bool) := do
  ldx (.zp (c128 rom chips).mem)
  stx (.abs mmu)
  lda (.indY (c128 rom chips).start)
  ldx (.zp saved)
  stx (.abs mmu)
  let v ← observe (·.a)
  write
  let again ← next
  pure (v, again)

def slow_sendfar : Code (c128 rom chips) (List Byte) := do
  lda (.abs mmu)
  sta (.zp saved)
  ldyImm 0x00#8
  loop sendSlow rounds

def fast_sendfar : Code (c128 rom chips) (List Byte) := do
  lda (.abs mmu)
  sta (.zp saved)
  lda (.zp (c128 rom chips).mem)
  sta (.abs mmu)
  ldyImm 0x00#8
  let reply ← loop saveNear rounds
  lda (.zp saved)
  sta (.abs mmu)
  pure reply

/-! ## Handlers -/

def load (area : CommonArea rom chips) : Code (c128 rom chips) Outcome := do
  jsr readHeader
  let h ← observe (·.bus.header)
  screenOff
  checkBasic
  let near ← checkBank
  let payload ←
    if near then do
      ldyImm 0x00#8
      loop loadNear rounds
    else do
      let fast ← checkIo
      if fast then jsrcommon area area.fastReceive fast_receivefar
      else jsrcommon area area.slowReceive slow_receivefar
  screenOn
  relinkBasic
  pure (.returned (some (.load h.memory h.bank h.start h.stop payload)))

def save (area : CommonArea rom chips) : Code (c128 rom chips) Outcome := do
  jsr readHeader
  let h ← observe (·.bus.header)
  screenOff
  output
  let near ← checkBank
  let reply ←
    if near then do
      ldyImm 0x00#8
      loop saveNear rounds
    else do
      let fast ← checkIo
      if fast then jsrcommon area area.fastSend fast_sendfar
      else jsrcommon area area.slowSend slow_sendfar
  input
  screenOn
  pure (.returned (some (.save h.memory h.bank h.start h.stop reply)))

def poke (area : CommonArea rom chips) : Code (c128 rom chips) Outcome := do
  readAddress
  let h ← observe (·.bus.header)
  wait
  lda (.abs 0xdd01#16)
  pha
  ack
  let near ← checkBank
  let v ←
    if near then do
      ldyImm 0x00#8
      pla
      sta (.indY (c128 rom chips).start)
      observe (·.a)
    else do
      ldyImm 0x00#8
      ldaImm (c128 rom chips).start
      sta (.abs stashptr)
      ldx (.zp (c128 rom chips).mem)
      pla
      let v ← observe (·.a)
      jsr area.stash
      pure v
  pure (.returned (some (.poke h.memory h.bank h.start v)))

/-- Note that Y is not cleared on the way to `FETCH`. -/
def peek (area : CommonArea rom chips) : Code (c128 rom chips) Outcome := do
  readAddress
  let h ← observe (·.bus.header)
  output
  let near ← checkBank
  let v ←
    if near then do
      ldyImm 0x00#8
      lda (.indY (c128 rom chips).start)
      let v ← observe (·.a)
      write
      pure v
    else do
      ldaImm (c128 rom chips).start
      sta (.abs fetchptr)
      ldx (.zp (c128 rom chips).mem)
      jsr area.fetch
      let v ← observe (·.a)
      write
      pure v
  input
  pure (.returned (some (.peek h.memory h.bank h.start v)))

/-- `jmpfar` of the KERNAL goes to the address in `$03` and `$04` with the bank in `$02`. -/
def jump : Code (c128 rom chips) Outcome := do
  jsr read
  stx (.zp (c128 rom chips).mem)
  jsr read
  stx (.zp (c128 rom chips).bank)
  ldxImm 0xff#8
  txs
  ldaImm (hi repl128)
  pha
  ldaImm (lo repl128 - 1#8)
  pha
  lda (.zp (c128 rom chips).bank)
  sta (.zp 0x02#8)
  jsr read
  stx (.zp 0x03#8)
  jsr read
  stx (.zp 0x04#8)
  ldaImm 0x00#8
  sta (.zp 0x05#8)
  sta (.zp 0x06#8)
  sta (.zp 0x07#8)
  sta (.zp 0x08#8)
  let r ← observe fun s => Request.jump (s.bus.zp (c128 rom chips).mem) (s.bus.zp 0x02#8)
    (word (s.bus.zp 0x03#8) (s.bus.zp 0x04#8))
  pure (.left r)

def uninstall : Code (c128 rom chips) Unit := do
  ldaImm (lo sysirq128)
  ldxImm (hi sysirq128)
  sta (.abs 0x0314#16)
  stx (.abs 0x0315#16)

def run : Code (c128 rom chips) Outcome := do
  jsr uninstall
  ldaImm 0x01#8
  sta (.abs 0x0a27#16)
  pure (.left .run)

/-- `back` is the address of the label `return`. -/
def handlers (table : Table) (back : Addr) (area : CommonArea rom chips) :
    Handlers (c128 rom chips) where
  load := load area
  save := save area
  peek := peek area
  poke := poke area
  jump := jump
  run := run
  inject := inject back
  identify := identify table

end Server128

namespace Kernal128

def run : Code (c128 rom chips) Outcome := do
  ldaImm 0x01#8
  sta (.abs 0x0a27#16)
  pure (.left .run)

/-- The handlers of `server128.asm`, which this listing has copies of, with its own `run`. -/
def handlers (table : Table) (back : Addr) (area : CommonArea rom chips) :
    Handlers (c128 rom chips) :=
  { Server128.handlers table back area with run := run }

end Kernal128

end Xlink.Server

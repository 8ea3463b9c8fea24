import Xlink.Server.Macros

/-!
# What the four servers have in common

The dispatch of a command, the header of a transfer, the identification and the injection are the
same code in all four listings. Each server brings its own handlers for the rest.

A handler's result is for the statements about it: the request it has acted on, read off the work
cells and the registers it has used, and the bytes it has sent.
-/

namespace Xlink.Server

open Word Mos6502 Port

variable {T : Target}

/-! ## Requests and outcomes -/

/-- A request as a handler has acted on it. -/
inductive Request where
  | load (memory bank : Byte) (start stop : Addr) (payload : List Byte)
  | save (memory bank : Byte) (start stop : Addr) (reply : List Byte)
  | poke (memory bank : Byte) (address : Addr) (value : Byte)
  | peek (memory bank : Byte) (address : Addr) (reply : Byte)
  | jump (memory bank : Byte) (address : Addr)
  | run
  | inject (address : Addr)
  | identify (reply : List Byte)
  /-- any other byte, which is acknowledged only -/
  | other (command : Byte)
  deriving DecidableEq, Repr

/-- How an interrupt ends. -/
inductive Outcome where
  /-- `irq.done`: the system's own interrupt handler goes on -/
  | returned (request : Option Request)
  /-- the machine is given to other code -/
  | left (request : Request)
  deriving DecidableEq, Repr

/-- The bytes a request is answered with. -/
def Request.reply : Request → List Byte
  | .save _ _ _ _ reply => reply
  | .peek _ _ _ reply => [reply]
  | .identify reply => reply
  | _ => []

/-! ## The dispatch -/

/-- A server's handlers. -/
structure Handlers (T : Target) where
  load : Code T Outcome
  save : Code T Outcome
  peek : Code T Outcome
  poke : Code T Outcome
  jump : Code T Outcome
  run : Code T Outcome
  inject : Code T Outcome
  identify : Code T Outcome

/-- `irq`: check for strobe from PC, read command, dispatch command. -/
def irq (h : Handlers T) : Code T Outcome := do
  lda (.abs 0xdd0d#16)
  andImm 0x10#8
  ifNe
    (do
      ldy (.abs 0xdd01#16)
      ack
      cpyImm Command.load
      ifNe
        (do
          cpyImm Command.save
          ifNe
            (do
              cpyImm Command.peek
              ifNe
                (do
                  cpyImm Command.poke
                  ifNe
                    (do
                      cpyImm Command.jump
                      ifNe
                        (do
                          cpyImm Command.run
                          ifNe
                            (do
                              cpyImm Command.inject
                              ifNe
                                (do
                                  cpyImm Command.identify
                                  ifNe
                                    (do
                                      let command ← observe (·.y)
                                      pure (.returned (some (.other command))))
                                    h.identify)
                                h.inject)
                            h.run)
                        h.jump)
                    h.poke)
                h.peek)
            h.save)
        h.load)
    (pure (.returned none))

/-- `install`: port B is input, PA2 is output, the interrupt vector is the server's and a `jmp` to
`install` is at `entry`. Between `sei` and `cli`, where the vector is stored, no interrupt comes. -/
def installAt (entry irq install : Addr) : Code T Unit := do
  ldaImm 0x00#8
  sta (.abs 0xdd03#16)
  lda (.abs 0xdd02#16)
  oraImm 0x04#8
  sta (.abs 0xdd02#16)
  lda (.abs 0xdd0d#16)
  ldaImm (lo irq)
  ldxImm (hi irq)
  sta (.abs 0x0314#16)
  stx (.abs 0x0315#16)
  ldaImm 0x4c#8
  sta (.abs entry)
  ldaImm (lo install)
  sta (.abs (entry + 1#16))
  ldaImm (hi install)
  sta (.abs (entry + 2#16))

/-! ## Headers -/

def readHeader : Code T Unit := do
  jsr read
  stx (.zp T.mem)
  jsr read
  stx (.zp T.bank)
  jsr read
  stx (.zp T.start)
  jsr read
  stx (.zp (T.start + 1#8))
  jsr read
  stx (.zp T.stop)
  jsr read
  stx (.zp (T.stop + 1#8))

/-- The beginning of a peek or a poke: memory, bank and address. -/
def readAddress : Code T Unit := do
  jsr read
  stx (.zp T.mem)
  jsr read
  stx (.zp T.bank)
  jsr read
  stx (.zp T.start)
  jsr read
  stx (.zp (T.start + 1#8))

/-- The work cells, as a handler finds them. -/
structure Header where
  memory : Byte
  bank : Byte
  start : Addr
  stop : Addr
  deriving DecidableEq, Repr

def Machine.header (M : Machine T) : Header where
  memory := M.zp T.mem
  bank := M.zp T.bank
  start := M.word T.start
  stop := M.word T.stop

/-! ## Injections and identifications -/

/-- `rts` goes to the code to inject, whose own `rts` would find the return address pushed first. -/
def inject (back : Addr) : Code T Outcome := do
  ldaImm (hi back)
  pha
  ldaImm (lo back)
  pha
  jsr read
  txa
  pha
  jsr read
  txa
  pha
  let address ← rts
  pure (.left (.inject address))

/-- The table `Server` in the server's text, in the order it is sent. -/
structure Table where
  size : Byte
  id : List Byte
  version : Byte
  machine : Byte
  type : Byte
  start : Addr
  stop : Addr
  /-- the size is that of the name, which has five letters -/
  size_eq : size = 0x05#8
  id_length : id.length = 5
  deriving DecidableEq, Repr

/-- The tables of the listings: they are all called `XLINK` and of version `$10`. -/
def xlinkTable (machine type : Byte) (start stop : Addr) : Table where
  size := 0x05#8
  id := [0x58#8, 0x4c#8, 0x49#8, 0x4e#8, 0x4b#8]
  version := 0x10#8
  machine := machine
  type := type
  start := start
  stop := stop
  size_eq := rfl
  id_length := rfl

def Table.bytes (table : Table) : List Byte :=
  table.size :: table.id ++ [table.version, table.machine, table.type,
    lo table.start, hi table.start, lo table.stop, hi table.stop]

/-- `lda Server.…`, `jsr write` for each byte of the table. -/
def writeTable : List Byte → Code T Unit
  | [] => pure ()
  | v :: vs => do
    ldaImm v
    jsr write
    writeTable vs

def identify (table : Table) : Code T Outcome := do
  output
  writeTable table.bytes
  lda (.abs T.memtop)
  let low ← observe (·.a)
  jsr write
  lda (.abs (T.memtop + 1#16))
  let high ← observe (·.a)
  jsr write
  input
  pure (.returned (some (.identify (table.bytes ++ [low, high]))))

/-! ## Transfers with the normal configuration -/

/-- A round of a load: write with the configuration as it is. -/
def loadNear : Code T (Byte × Bool) := do
  wait
  lda (.abs 0xdd01#16)
  sta (.indY T.start)
  let v ← observe (·.a)
  ack
  let again ← next
  pure (v, again)

/-- A round of a save: read with the configuration as it is. -/
def saveNear : Code T (Byte × Bool) := do
  lda (.indY T.start)
  let v ← observe (·.a)
  write
  let again ← next
  pure (v, again)

/-- The number of rounds after which a transfer loop has met its end address, whatever it is. -/
def rounds : Nat := 0x10000

end Xlink.Server

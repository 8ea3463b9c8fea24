import Xlink.Lib.Avr
import Xlink.Lib.Transition
import Xlink.Serial.Servant

/-!
# The two firmwares, pin by pin

`src/driver/servant64/xlink.c` and `src/driver/at90usb162/xlink.c` answer the same commands. They
are wired to the user port in different ways, so that each assigns other registers to drive the
data lines, to strobe and to reset: `Firmware` is what a firmware assigns, function by function,
and its commands are the same code over it. What the Commodore sees of a command is its falling
edges, on FLAG together with what the firmware drives onto the data lines, and on RES.

The bytes of a send come as one list, and the counts of an answer and the packets of an endpoint
are left to the models of the two links.
-/

namespace Xlink.Board

open Avr
open Word (Byte)
open Serial (Uint)

/-- The lines of the user port that are connected. -/
inductive Line where
  | data (i : Fin 8)
  | flag
  | pa2
  | res
  deriving DecidableEq, Repr

/-- What drives each data line; `none` where it is released. -/
abbrev Lines := Fin 8 → Option Bool

/-- What is seen of a command, on the lines and by the host. -/
inductive Event where
  /-- FLAG falls, and these are the data lines -/
  | strobe (lines : Lines)
  /-- RES falls -/
  | reset
  | acked (changed : Bool)
  | read (b : Byte)
  | timedOut

/-! ## Commands -/

/-- One round of a wait: the levels from outside, and the seconds since the timer was reset. -/
structure Look (ω : Type*) where
  outside : ω
  elapsed : BitVec 16

/-- A command, with what is outside whenever it looks. `bytes` is what the host sends with it. -/
inductive Command (ω : Type*) where
  | reset
  | strobe
  | acked (outside : ω)
  | input
  | output
  | read (outside : ω)
  | write (b : Byte)
  | send (size timeout : Uint) (bytes : List Byte) (polls : Nat → List (Look ω))
  | receive (size timeout : Uint) (polls : Nat → List (Look ω)) (outside : Nat → ω)

def Look.map {ω ω' : Type*} (f : ω → ω') (l : Look ω) : Look ω' := ⟨f l.outside, l.elapsed⟩

/-- The command of one who sees less of what is outside. -/
def Command.map {ω ω' : Type*} (f : ω → ω') : Command ω → Command ω'
  | reset => reset
  | strobe => strobe
  | acked o => acked (f o)
  | input => input
  | output => output
  | read o => read (f o)
  | write b => write b
  | send size timeout bytes polls => send size timeout bytes fun i => (polls i).map (Look.map f)
  | receive size timeout polls outside =>
    receive size timeout (fun i => (polls i).map (Look.map f)) fun i => f (outside i)

/-! ## Firmware -/

/-- The level from outside at every pin. -/
abbrev Outside := Letter → Byte

/-- What a firmware assigns and reads. -/
structure Firmware where
  pin : Line → Pin
  tristateReset : List Assign
  assertReset : List Assign
  setupStrobe : List Assign
  setupAck : List Assign
  input : List Assign
  output : List Assign
  strobe : List Assign
  write : Byte → List Assign
  /-- `PINx & PIN_ACK` -/
  readAck : (Letter → Byte) → Byte
  read : (Letter → Byte) → Byte
  /-- what `Acked` answers when the level has changed, and when it has not -/
  acked : Byte
  unacked : Byte
  /-- `acked` of the firmware's driver, of that answer -/
  heard : Byte → Bool

/-- The registers, and the level of PA2 that is remembered. -/
structure State where
  regs : Registers
  last : Byte

namespace Firmware

variable (f : Firmware)

/-- What the Commodore sees of one assignment. -/
def look (s t : Registers) : List Event :=
  (if (s.bits (f.pin .flag)).falls (t.bits (f.pin .flag)) then
    [.strobe fun i => (t.bits (f.pin (.data i))).level]
  else []) ++
  if (s.bits (f.pin .res)).falls (t.bits (f.pin .res)) then [.reset] else []

/-- Run some of the firmware's assignments. -/
def does (s : State) (as : List Assign) : State × List Event :=
  (⟨exec s.regs as, s.last⟩, watch f.look s.regs as)

/-- `while(current == last)`: the new level, or `none` for a timeout. -/
def wait (s : State) (timeout : Uint) (looks : List (Look Outside)) : Option (Option Byte) :=
  looks.findSome? fun l =>
    let current := f.readAck (s.regs.pins l.outside)
    if 0 < timeout ∧ timeout ≤ l.elapsed.setWidth 32 then some none
    else if current ≠ s.last then some (some current)
    else none

section Transfers

variable (timeout : Uint) (polls : Nat → List (Look Outside))

/-- `Send` from byte `i` on, `left` bytes before its end. -/
def sendFrom : (left i : Nat) → State → List Byte → Option (State × List Event)
  | 0, _, s, _ => some (s, [])
  | _ + 1, _, _, [] => none
  | left + 1, i, s, b :: bytes =>
    let (s, seen) := f.does s (f.write b ++ f.strobe)
    match f.wait s timeout (polls i) with
    | none => none
    | some none => some (s, seen ++ [.timedOut])
    | some (some current) =>
      (sendFrom left (i + 1) { s with last := current } bytes).map fun r => (r.1, seen ++ r.2)

/-- `Receive` from byte `i` on, `left` bytes before its end. -/
def receiveFrom (outside : Nat → Outside) :
    (left i : Nat) → State → Option (State × List Event)
  | 0, _, s => some (s, [])
  | left + 1, i, s =>
    match f.wait s timeout (polls i) with
    | none => none
    | some none => some (s, [.timedOut])
    | some (some current) =>
      let byte := f.read (s.regs.pins (outside i))
      let (s, seen) := f.does { s with last := current } f.strobe
      (receiveFrom outside left (i + 1) s).map fun r => (r.1, .read byte :: (seen ++ r.2))

end Transfers

/-- `Acked`. -/
def ack (s : State) (outside : Outside) : State × List Event :=
  let current := f.readAck (s.regs.pins outside)
  if s.last ≠ current then ({ s with last := current }, [.acked (f.heard f.acked)])
  else (s, [.acked (f.heard f.unacked)])

/-- What the firmware does of a command; `none` while it waits. -/
def step (s : State) : Command Outside → Option (State × List Event)
  | .reset => some (f.does s (f.assertReset ++ f.tristateReset))
  | .strobe => some (f.does s f.strobe)
  | .acked outside => some (f.ack s outside)
  | .input => some (f.does s f.input)
  | .output => some (f.does s f.output)
  | .read outside => some (s, [.read (f.read (s.regs.pins outside))])
  | .write b => some (f.does s (f.write b))
  | .send size timeout bytes polls => f.sendFrom timeout polls size.toNat 0 s bytes
  | .receive size timeout polls outside => f.receiveFrom timeout polls outside size.toNat 0 s

/-- The port's part of `SetupHardware`, which ends with `ReadACK` and `Input`. -/
def setupHardware (s : Registers) (outside : Outside) : State :=
  let s := exec s (f.tristateReset ++ f.setupStrobe ++ f.setupAck)
  ⟨exec s f.input, f.readAck (s.pins outside)⟩

end Firmware

/-! ## `servant64` -/

namespace Servant64

def pinReset : Byte := 0x10#8
def pinStrobe : Byte := 0x10#8
def pinAck : Byte := 0x08#8

/-- The table at the head of the source. -/
def pin : Line → Pin
  | .data 0 => ⟨.d, 5⟩
  | .data 1 => ⟨.d, 6⟩
  | .data 2 => ⟨.d, 7⟩
  | .data 3 => ⟨.b, 0⟩
  | .data 4 => ⟨.b, 1⟩
  | .data 5 => ⟨.c, 0⟩
  | .data 6 => ⟨.c, 1⟩
  | .data 7 => ⟨.c, 2⟩
  | .flag => ⟨.d, 4⟩
  | .pa2 => ⟨.d, 3⟩
  | .res => ⟨.c, 4⟩

def setupStrobe : List Assign := [.or (.ddr .d) pinStrobe, .or (.port .d) pinStrobe]

def setupAck : List Assign := [.and (.ddr .d) (~~~ pinAck), .or (.port .d) pinAck]

def readAck (pins : Letter → Byte) : Byte := pins .d &&& pinAck

def tristateReset : List Assign := [.and (.ddr .c) (~~~ pinReset), .or (.port .c) pinReset]

def assertReset : List Assign := [.or (.ddr .c) pinReset, .and (.port .c) (~~~ pinReset)]

def input : List Assign :=
  [.and (.ddr .d) 0b00011111#8, .or (.port .d) 0b11100000#8,
    .and (.ddr .b) 0b11111100#8, .or (.port .b) 0b00000011#8,
    .and (.ddr .c) 0b11111000#8, .or (.port .c) 0b00000111#8]

def output : List Assign :=
  [.or (.ddr .d) 0b11100000#8, .or (.ddr .b) 0b00000011#8, .or (.ddr .c) 0b00000111#8]

def strobe : List Assign := [.and (.port .d) (~~~ pinStrobe), .or (.port .d) pinStrobe]

def read (pins : Letter → Byte) : Byte :=
  pins .d >>> 5 ||| (pins .b &&& 0b00000011#8) <<< 3 ||| pins .c <<< 5

def write (byte : Byte) : List Assign :=
  [.and (.port .d) 0b00011111#8, .or (.port .d) ((byte &&& 0b00000111#8) <<< 5),
    .and (.port .b) 0b11111100#8, .or (.port .b) ((byte &&& 0b00011000#8) >>> 3),
    .and (.port .c) 0b11111000#8, .or (.port .c) ((byte &&& 0b11100000#8) >>> 5)]

end Servant64

def servant64 : Firmware where
  pin := Servant64.pin
  tristateReset := Servant64.tristateReset
  assertReset := Servant64.assertReset
  setupStrobe := Servant64.setupStrobe
  setupAck := Servant64.setupAck
  input := Servant64.input
  output := Servant64.output
  strobe := Servant64.strobe
  write := Servant64.write
  readAck := Servant64.readAck
  read := Servant64.read
  acked := 0x55#8
  unacked := 0xaa#8
  heard b := b == 0x55#8

/-! ## `at90usb162` -/

namespace At90usb162

def pinReset : Byte := 0x20#8
def pinStrobe : Byte := 0x04#8
def pinAck : Byte := 0x04#8

def pin : Line → Pin
  | .data i => ⟨.d, i⟩
  | .flag => ⟨.c, 2⟩
  | .pa2 => ⟨.b, 2⟩
  | .res => ⟨.c, 5⟩

def setupStrobe : List Assign := [.or (.ddr .c) pinStrobe, .or (.port .c) pinStrobe]

def setupAck : List Assign := [.and (.ddr .b) (~~~ pinAck), .or (.port .b) pinAck]

def readAck (pins : Letter → Byte) : Byte := pins .b &&& pinAck

def tristateReset : List Assign := [.and (.ddr .c) (~~~ pinReset), .and (.port .c) (~~~ pinReset)]

def assertReset : List Assign := [.or (.ddr .c) pinReset, .and (.port .c) (~~~ pinReset)]

def strobe : List Assign := [.and (.port .c) (~~~ pinStrobe), .or (.port .c) pinStrobe]

def input : List Assign := [.set (.ddr .d) 0x00#8, .set (.port .d) 0xff#8]

def output : List Assign := [.set (.ddr .d) 0xff#8]

def write (byte : Byte) : List Assign := [.set (.port .d) byte]

def read (pins : Letter → Byte) : Byte := pins .d

end At90usb162

def at90usb162 : Firmware where
  pin := At90usb162.pin
  tristateReset := At90usb162.tristateReset
  assertReset := At90usb162.assertReset
  setupStrobe := At90usb162.setupStrobe
  setupAck := At90usb162.setupAck
  input := At90usb162.input
  output := At90usb162.output
  strobe := At90usb162.strobe
  write := At90usb162.write
  readAck := At90usb162.readAck
  read := At90usb162.read
  acked := 1#8
  unacked := 0#8
  heard b := b == 1#8

end Xlink.Board

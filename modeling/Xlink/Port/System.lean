import Xlink.Lib.Transition
import Xlink.Port.Protocol

/-!
# Client, server and the port between them

The two parties share the data lines, the FLAG latch of CIA2 (set by a strobe, cleared when the
server looks at it) and the level of PA2 (flipped by the server). Each party's data lines have a
direction of their own. A step of `act` is one access of one party; a timeout ends a call at any
wait. What a party reads while it is not being driven, or while both drive, is whatever the step
says (`lines`): nothing is known of it.

`written`, `serverRead`, `serverWritten` and `received` are ghost logs of the bytes since the call
began, and `acked` remembers whether the server has flipped PA2 since the last strobe.
-/

namespace Xlink.Port

open Word

/-- Where the server is between two accesses to the port. `got` is what it has read since its
dispatch loop. -/
inductive Server where
  /-- looks at the FLAG latch -/
  | poll (got : List Byte)
  /-- has seen and cleared FLAG, reads `$dd01` -/
  | load (got : List Byte)
  /-- flips PA2 -/
  | ack (got : List Byte)
  /-- `output()`: looks at FLAG, until the client has set its port to input -/
  | turn (reply : List Byte)
  /-- `output()`: sets port B to output -/
  | drive (reply : List Byte)
  /-- stores the next byte in `$dd01` -/
  | store (reply : List Byte)
  /-- flips PA2 -/
  | flip (reply : List Byte)
  /-- looks at FLAG, until the client has taken the byte -/
  | taken (reply : List Byte)
  /-- `input()`: sets port B to input -/
  | release
  /-- runs other code, until its interrupt comes back to the dispatch loop -/
  | gone
  /-- the machine has been reset, until the server is installed again -/
  | off
  deriving DecidableEq, Repr

/-- The server is at the end of a request. -/
def Server.Finished (server : Server) : Prop := server = .poll [] ∨ server = .gone

/-- Both parties and the port. -/
structure State where
  /-- what the call still does -/
  ops : List Op
  /-- the level of PA2 the client remembers, and whether it has ever looked at it -/
  last : Bool
  initialized : Bool
  /-- the client's port is in output mode, with this byte on it -/
  driving : Bool
  data : Byte
  flag : Bool
  pa2 : Bool
  server : Server
  /-- the direction register `$dd03` is `$ff`, with this byte in `$dd01` -/
  ddr : Bool
  dd01 : Byte
  acked : Bool
  written : List Byte
  serverRead : List Byte
  serverWritten : List Byte
  received : List Byte
  deriving DecidableEq, Repr

/-- Both parties drive the data lines. -/
def State.Contended (s : State) : Prop := s.driving = true ∧ s.ddr = true

/-! ## The client -/

/-- What the client reads from the data lines. -/
def State.clientSees (s : State) (lines : Byte) : Byte :=
  if s.ddr && !s.driving then s.dd01 else lines

/-- What the server reads from the data lines. -/
def State.serverSees (s : State) (lines : Byte) : Byte :=
  if s.driving && !s.ddr then s.data else lines

/-- The next driver step of the call; a wait is taken when PA2 differs from the remembered level.
The parallel port looks at PA2 the first time it is opened only. -/
def client (d : Driver) (lines : Byte) (s : State) : Option State :=
  match s.ops with
  | [] => none
  | .open :: ops =>
    if d = .parport ∧ s.initialized = false then
      some { s with ops := ops, driving := false, last := s.pa2, initialized := true }
    else some { s with ops := ops, driving := false }
  | .close :: ops => some { s with ops := ops, driving := false }
  | .input :: ops => some { s with ops := ops, driving := false }
  | .output :: ops => some { s with ops := ops, driving := true }
  | .write b :: ops => some { s with ops := ops, data := b, written := s.written ++ [b] }
  | .strobe :: ops => some { s with ops := ops, flag := true, acked := false }
  | .ping :: ops => some { s with ops := ops, flag := true, acked := false }
  | .wait _ :: ops => if s.last ≠ s.pa2 then some { s with ops := ops, last := s.pa2 } else none
  | .pong :: ops => if s.last ≠ s.pa2 then some { s with ops := ops, last := s.pa2 } else none
  | .read :: ops => some { s with ops := ops, received := s.received ++ [s.clientSees lines] }
  | .size :: ops =>
    some { s with
      ops := .strobe :: receiveIdentity d (s.clientSees lines) ops
      received := s.received ++ [s.clientSees lines] }

/-- A wait gives up: the call fails and closes the device. -/
def timeout (s : State) : Option State :=
  match s.ops with
  | .wait _ :: _ => some { s with ops := [.close] }
  | .pong :: _ => some { s with ops := [.close] }
  | _ => none

/-- What a call does when what it has asked the device for is reported complete before its time: it
goes on with the next chunk, or with what follows the transfer. The byte that timed out is read as
`$ff`. -/
def afterTransfer (d : Driver) : List Op → List Op
  | .wait true :: .read :: .strobe :: ops => ops
  | .wait true :: .size :: ops => receiveIdentity d 0xff#8 ops
  | .wait true :: ops => ops
  | _ :: ops => afterTransfer d ops
  | [] => []

/-- A firmware gives up in a transfer and the call carries on: `servant64` counts the byte that
timed out (`bytesSent = i+1`), and `at90usb162` has taken the packet it gives up in. -/
def lapse (d : Driver) (s : State) : Option State :=
  match d, s.ops with
  | .parport, _ => none
  | _, .wait last :: ops => some { s with ops := afterTransfer d (.wait last :: ops) }
  | _, _ => none

/-! ## The server -/

/-- Where the server goes when it has acknowledged a byte and has read `got`. What it will answer
is the step's choice, but for the size byte of an identification. -/
def after (got answer : List Byte) : Option Server :=
  match next got with
  | .more => some (.poll got)
  | .done => some (.poll [])
  | .leave => some .gone
  | .answer n =>
    if answer.length = n ∧ (got = [Command.identify] → answer.head? = some 0x05#8) then
      some (.turn answer)
    else none

/-- The next access of the server; looking at a clear latch is no step. -/
def server (lines : Byte) (answer : List Byte) (s : State) : Option State :=
  match s.server with
  | .poll got => if s.flag then some { s with flag := false, server := .load got } else none
  | .load got =>
    some { s with
      server := .ack (got ++ [s.serverSees lines])
      serverRead := s.serverRead ++ [s.serverSees lines] }
  | .ack got =>
    match after got answer with
    | some server => some { s with pa2 := !s.pa2, acked := true, server := server }
    | none => none
  | .turn reply => if s.flag then some { s with flag := false, server := .drive reply } else none
  | .drive reply => some { s with ddr := true, server := .store reply }
  | .store [] => some { s with server := .release }
  | .store (b :: reply) =>
    some { s with dd01 := b, server := .flip reply, serverWritten := s.serverWritten ++ [b] }
  | .flip reply => some { s with pa2 := !s.pa2, acked := true, server := .taken reply }
  | .taken reply =>
    if s.flag then
      some { s with
        flag := false
        server := match reply with | [] => .release | b :: reply => .store (b :: reply) }
    else none
  | .release => some { s with ddr := false, server := .poll [] }
  | .gone => some { s with server := .poll [] }
  | .off => some { s with flag := false, server := .poll [] }

/-! ## The system -/

inductive Action where
  | call (c : Call)
  | reset
  | client (lines : Byte)
  | timeout
  | lapse
  | server (lines : Byte) (answer : List Byte)
  deriving DecidableEq, Repr

/-- A call is made when the one before it has returned. -/
def State.issue (s : State) (d : Driver) (c : Call) : State :=
  { s with ops := c.ops d, written := [], serverRead := [], serverWritten := [], received := [] }

/-- `xlink_reset`: the device is opened, the machine reset and the device closed. A reset makes the
lines of CIA2 inputs, so that PA2 is pulled high. -/
def State.reset (s : State) (d : Driver) : State :=
  { s with
    last := if d = .parport ∧ s.initialized = false then s.pa2 else s.last
    initialized := true
    driving := false
    flag := false
    pa2 := true
    ddr := false
    server := .off }

/-- One step of the system. -/
def act (d : Driver) (s : State) : Action → Option State
  | .call c => if s.ops = [] then some (s.issue d c) else none
  | .reset => if s.ops = [] then some (s.reset d) else none
  | .client lines => client d lines s
  | .timeout => timeout s
  | .lapse => lapse d s
  | .server lines answer => server lines answer s

/-- Nothing is under way: the server is in its dispatch loop with a clear latch, and the level the
client remembers, or will look at when it opens the device, is PA2. -/
def State.Settled (s : State) (d : Driver) : Prop :=
  s.server = .poll [] ∧ s.flag = false ∧
    (s.last = s.pa2 ∨ d = .parport ∧ s.initialized = false)

instance (s : State) (d : Driver) : Decidable (s.Settled d) :=
  inferInstanceAs (Decidable (_ ∧ _ ∧ _))

instance (s : State) : Decidable s.Contended :=
  inferInstanceAs (Decidable (_ ∧ _))

/-- The machine after the server has been installed and the client has been started. -/
def State.init (d : Driver) (pa2 : Bool) : State where
  ops := []
  last := pa2
  initialized := d ≠ .parport
  driving := false
  data := 0xff#8
  flag := false
  pa2 := pa2
  server := .poll []
  ddr := false
  dd01 := 0xff#8
  acked := false
  written := []
  serverRead := []
  serverWritten := []
  received := []

end Xlink.Port

import Xlink.Lib.Transition
import Xlink.Serial.Servant

/-!
# The serial link

The host, the firmware and the two byte streams between them. The host writes the frame of a call
and its payload in chunks, and then reads as many bytes as the call's answer has; a call without an
answer returns when it is written. A byte on its way arrives in the firmware's ring buffer, or is
dropped when the ring is full. The firmware takes its bytes from the ring, one at a time.

Nothing is said of how fast a byte arrives, of how long the firmware takes for a command, or of
what it sees on the port: all of it is the step's choice. `issued`, `dispatched`, `forwarded` and
`reported` are ghost logs.
-/

namespace Xlink.Serial

open Word (Byte)

/-! ## Calls -/

/-- The payload of a send; its length is an `int`. -/
abbrev Payload := { data : List Byte // data.length < 2 ^ 31 }

/-- What the functions of the driver write and read on the serial line. `driver_serial_wait` is an
`acked` again and again, and `driver_serial_ping` is `output`, `write`, `strobe` and a wait. -/
inductive Call where
  | reset
  | strobe
  | acked
  | input
  | output
  | read
  | write (value : Byte)
  | send (data : Payload)
  | receive (size : Fin (2 ^ 31))
  deriving DecidableEq

/-- `write_chunk` is called for at most `chunk` bytes at a time, and once when there are none. -/
def chunked (chunk : Nat) : (fuel : Nat) → List Byte → List (List Byte)
  | 0, data => [data]
  | fuel + 1, data =>
    if chunk < data.length then data.take chunk :: chunked chunk fuel (data.drop chunk) else [data]

/-- `serial_write`. -/
def serialWrite (data : List Byte) : List (List Byte) := chunked 16 data.length data

@[simp] theorem flatten_chunked (chunk fuel : Nat) (data : List Byte) :
    (chunked chunk fuel data).flatten = data := by
  induction fuel generalizing data with
  | zero => simp [chunked]
  | succ fuel ih =>
    rw [chunked]
    split
    · rw [List.flatten_cons, ih, List.take_append_drop]
    · simp

@[simp] theorem flatten_serialWrite (data : List Byte) : (serialWrite data).flatten = data :=
  flatten_chunked 16 data.length data

namespace Call

/-- The arguments of `cmd`. -/
def frame : Call → Frame
  | reset => ⟨Frame.cmdReset, 0, 0⟩
  | strobe => ⟨Frame.cmdStrobe, 0, 0⟩
  | acked => ⟨Frame.cmdAcked, 0, 0⟩
  | input => ⟨Frame.cmdInput, 0, 0⟩
  | output => ⟨Frame.cmdOutput, 0, 0⟩
  | read => ⟨Frame.cmdRead, 0, 0⟩
  | write value => ⟨Frame.cmdWrite, value.setWidth 32, 0⟩
  | send data => ⟨Frame.cmdSend, BitVec.ofNat 32 data.val.length, 2⟩
  | receive size => ⟨Frame.cmdReceive, BitVec.ofNat 32 size, 2⟩

/-- The payload, if the call writes one. -/
def payload : Call → List Byte
  | send data => data.val
  | _ => []

/-- What the call writes: `cmd`, and for a send the payload. -/
def chunks : Call → List (List Byte)
  | send data => serialWrite (send data).frame.bytes ++ serialWrite data.val
  | c => serialWrite c.frame.bytes

def bytes (c : Call) : List Byte := c.frame.bytes ++ c.payload

/-- How many bytes the call reads. -/
def answers : Call → Nat
  | acked => 1
  | read => 1
  | send _ => 4
  | receive size => size + 4
  | _ => 0

@[simp] theorem flatten_chunks (c : Call) : c.chunks.flatten = c.bytes := by
  cases c with
  | send data => simp [chunks, bytes, payload]
  | _ => exact (flatten_serialWrite _).trans (List.append_nil _).symm

end Call

/-! ## The two parties -/

/-- The host: between two calls, or in a call with these chunks to write and these bytes read. -/
inductive Host where
  | idle
  | busy (call : Call) (chunks : List (List Byte)) (got : List Byte)
  deriving DecidableEq

namespace Host

/-- What the host has still to write of its call. -/
def unwritten : Host → List Byte
  | idle => []
  | busy _ chunks _ => chunks.flatten

/-- The call the host is in, and what it has read. -/
def current : Host → Option (Call × List Byte)
  | idle => none
  | busy c _ got => some (c, got)

end Host

/-- Where the firmware is: at the head of `main`, at the head of the loop of `Send`, in the wait of
`Send`, or in the wait of `Receive`. -/
inductive Firmware where
  | main (got : List Byte)
  | sendNext (size timeout : Uint) (i : Nat)
  | sendWait (size timeout : Uint) (i : Nat)
  | receiveWait (size timeout : Uint) (i : Nat)
  deriving DecidableEq, Repr

/-- What the firmware sees on the port. -/
structure Pins where
  ack : Bool
  data : Byte
  deriving DecidableEq, Repr

structure State where
  host : Host
  /-- written by the host and not arrived yet -/
  wire : List Byte
  ring : List Byte
  firmware : Firmware
  /-- the level of the acknowledgement line that the firmware remembers -/
  last : Bool
  /-- written by the firmware and not read yet -/
  reply : List Byte
  /-- what the last `Send` has written to the port so far -/
  fwd : List Byte
  issued : List Call
  dispatched : List Frame
  /-- what each finished `Send` has written to the port -/
  forwarded : List (List Byte)
  /-- the payload and the result of each send that has returned -/
  reported : List (List Byte × Bool)
  deriving DecidableEq

namespace State

def init : State where
  host := .idle
  wire := []
  ring := []
  firmware := .main []
  last := true
  reply := []
  fwd := []
  issued := []
  dispatched := []
  forwarded := []
  reported := []

/-! ## The host -/

/-- `bytesSent == size`. -/
def sendResult (data : Payload) (got : List Byte) : Bool :=
  readCount got = some (BitVec.ofNat 32 data.val.length)

/-- A call returns when it is written and its answer is read. -/
def settle (s : State) : State :=
  match s.host with
  | .busy (.send data) [] got =>
    if got.length = 4 then
      { s with host := .idle, reported := s.reported ++ [(data.val, sendResult data got)] }
    else s
  | .busy call [] got => if got.length = call.answers then { s with host := .idle } else s
  | _ => s

/-- The next call begins. -/
def call (s : State) (c : Call) : Option State :=
  match s.host with
  | .idle => some { s with host := .busy c c.chunks [], issued := s.issued ++ [c] }
  | .busy _ _ _ => none

/-- The host writes the next chunk. -/
def write (s : State) : Option State :=
  match s.host with
  | .busy c (chunk :: chunks) got =>
    some (settle { s with host := .busy c chunks got, wire := s.wire ++ chunk })
  | _ => none

/-- The host reads the next byte of the answer. -/
def fetch (s : State) : Option State :=
  match s.host, s.reply with
  | .busy c [] got, b :: reply =>
    some (settle { s with host := .busy c [] (got ++ [b]), reply := reply })
  | _, _ => none

/-! ## The ring -/

/-- The next byte arrives; a full ring drops it. One place of a ring stays free: it can hold 127
bytes with the `UART_RX0_BUFFER_SIZE` of `uart.h`, and 511 with that of the `Makefile`. -/
def arrive (ringSize : Nat) (s : State) : Option State :=
  match s.wire with
  | [] => none
  | b :: wire =>
    some { s with
      wire := wire
      ring := if s.ring.length < ringSize then s.ring ++ [b] else s.ring }

/-! ## The firmware -/

/-- `WriteSerial`, and back to the head of `main`. -/
def answer (s : State) (bytes : List Byte) : State :=
  { s with firmware := .main [], reply := s.reply ++ bytes }

/-- `Send` ends. -/
def sent (s : State) (count : Uint) : State :=
  { s.answer (wordBytes count) with forwarded := s.forwarded ++ [s.fwd] }

/-- The head of the loop of `Send`. -/
def sendTop (s : State) (size timeout : Uint) (i : Nat) : State :=
  if i < size.toNat then { s with firmware := .sendNext size timeout i } else s.sent size

/-- The head of the loop of `Receive`. -/
def receiveTop (s : State) (size timeout : Uint) (i : Nat) : State :=
  if i < size.toNat then { s with firmware := .receiveWait size timeout i }
  else s.answer (wordBytes size)

/-- A frame is complete. -/
def taken (s : State) (f : Frame) : State :=
  { s with firmware := .main [], dispatched := s.dispatched ++ [f], fwd := [] }

/-- `Acked`. -/
def ackedSince (s : State) (pins : Pins) : State :=
  if s.last = pins.ack then s.answer [0xaa#8] else answer { s with last := pins.ack } [0x55#8]

/-- The `switch` of `main`. -/
def dispatch (s : State) (pins : Pins) (f : Frame) : State :=
  let s := s.taken f
  if f.cmd = Frame.cmdAcked then s.ackedSince pins
  else if f.cmd = Frame.cmdRead then s.answer [pins.data]
  else if f.cmd = Frame.cmdSend then s.sendTop f.arg1 f.arg2 0
  else if f.cmd = Frame.cmdReceive then s.receiveTop f.arg1 f.arg2 0
  else s

/-- `ReadSerial`: the firmware takes the next byte from the ring. -/
def read (s : State) (pins : Pins) : Option State :=
  match s.ring, s.firmware with
  | b :: ring, .main got =>
    match Frame.parse (got ++ [b]) with
    | some f => some (dispatch { s with ring := ring } pins f)
    | none => some { s with ring := ring, firmware := .main (got ++ [b]) }
  | b :: ring, .sendNext size timeout i =>
    some { s with ring := ring, fwd := s.fwd ++ [b], firmware := .sendWait size timeout i }
  | _, _ => none

/-- The wait for the Commodore ends. A `Send` that gives up flushes the ring. -/
def wait (s : State) (polls : List Poll) (data : Byte) : Option State :=
  match s.firmware with
  | .sendWait size timeout i =>
    match waitAck s.last timeout polls with
    | none => none
    | some (.acked pin) => some (sendTop { s with last := pin } size timeout (i + 1))
    | some .timedOut => some (sent { s with ring := [] } (givenUp i))
  | .receiveWait size timeout i =>
    match waitAck s.last timeout polls with
    | none => none
    | some (.acked pin) =>
      some (receiveTop { s with last := pin, reply := s.reply ++ [data] } size timeout (i + 1))
    | some .timedOut =>
      some (s.answer (List.replicate (size.toNat - i) 0xff#8 ++ wordBytes (givenUp i)))
  | _ => none

end State

/-! ## The system -/

inductive Action where
  | call (c : Call)
  | write
  | arrive
  | read (pins : Pins)
  | wait (polls : List Poll) (data : Byte)
  | fetch
  deriving DecidableEq

/-- One step of the link. -/
def act (ringSize : Nat) (s : State) : Action → Option State
  | .call c => s.call c
  | .write => s.write
  | .arrive => s.arrive ringSize
  | .read pins => s.read pins
  | .wait polls data => s.wait polls data
  | .fetch => s.fetch

namespace State

/-- What the firmware has still to read. -/
def unread (s : State) : List Byte := s.ring ++ (s.wire ++ s.host.unwritten)

/-- The step is a `Send` that gives up, and flushes the ring. -/
def givesUp (s : State) : Action → Bool
  | .wait polls _ =>
    match s.firmware with
    | .sendWait _ timeout _ => waitAck s.last timeout polls = some .timedOut
    | _ => false
  | _ => false

/-- The step loses no byte and leaves none of a payload behind: a byte that arrives finds a place,
and a `Send` that gives up has all of its payload in the ring. -/
def Careful (ringSize : Nat) (s : State) (a : Action) : Prop :=
  (a = .arrive → s.ring.length < ringSize) ∧
    (s.givesUp a = true → s.wire = [] ∧ s.host.unwritten = [])

instance (ringSize : Nat) (s : State) (a : Action) : Decidable (s.Careful ringSize a) :=
  inferInstanceAs (Decidable (_ ∧ _))

end State

end Xlink.Serial

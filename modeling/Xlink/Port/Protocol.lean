import Xlink.Lib.Word
import Xlink.Usb.Send

/-!
# Requests on the wire

The commands of the protocol and how a server reads them: `next` says, from the bytes a server has
read since its dispatch loop, whether it reads on, is back in the loop, leaves for the code it was
told to run, or turns the port around to answer. `Call` is the library's entry points and
`Call.ops` what each of them does to the driver, one driver step at a time.
-/

namespace Xlink.Port

open Word

/-! ## Commands -/

namespace Command

def load : Byte := 0x01#8
def save : Byte := 0x02#8
def poke : Byte := 0x03#8
def peek : Byte := 0x04#8
def jump : Byte := 0x05#8
def run : Byte := 0x06#8
def inject : Byte := 0x07#8
def ping : Byte := 0xfd#8
def identify : Byte := 0xfe#8

end Command

/-- How many bytes a server's do-while loop transfers from `start` until `start` reaches `stop`:
the loop tests after the increment, so that equal bounds mean all of 64K. -/
def span (start stop : Addr) : Nat := (stop - start - 1#16).toNat + 1

/-- What a server does after it has read a byte. -/
inductive Next where
  /-- read another byte of the request -/
  | more
  /-- back to the dispatch loop -/
  | done
  /-- give the machine to the code the request names -/
  | leave
  /-- turn the port around and send `n` bytes -/
  | answer (n : Nat)
  deriving DecidableEq, Repr

/-- `more` until `n` bytes have been read, then `last`. -/
def afterBytes (n : Nat) (args : List Byte) (last : Next) : Next :=
  if args.length < n then .more else last

/-- The bytes of a load after the command: the header, then a payload of the length it implies. -/
def nextLoad : List Byte → Next
  | _ :: _ :: sl :: sh :: el :: eh :: payload =>
    if payload.length < span (word sh sl) (word eh el) then .more else .done
  | _ => .more

/-- The bytes of a save after the command: the header, whose length the answer has. -/
def nextSave : List Byte → Next
  | _ :: _ :: sl :: sh :: el :: eh :: _ => .answer (span (word sh sl) (word eh el))
  | _ => .more

/-- The number of bytes an identification has: the size byte, five of name, nine of data. -/
def identification : Nat := 15

/-- What a server does after reading the bytes `got` since its dispatch loop. -/
def next : List Byte → Next
  | [] => .more
  | c :: args =>
    if c = Command.load then nextLoad args
    else if c = Command.save then nextSave args
    else if c = Command.peek then afterBytes 4 args (.answer 1)
    else if c = Command.poke then afterBytes 5 args .done
    else if c = Command.jump then afterBytes 4 args .leave
    else if c = Command.run then .leave
    else if c = Command.inject then afterBytes 2 args .leave
    else if c = Command.identify then .answer identification
    else .done

/-! ## Driver steps -/

/-- The three drivers that talk to a port. The two firmwares run their transfers by themselves. -/
inductive Driver where
  | parport
  | usb
  | serial
  deriving DecidableEq, Repr

/-- One step of a driver. The strobe and the wait of a ping are steps of their own; `wait last` says
whether the byte waited for is the last that the device has been asked for at once. -/
inductive Op where
  | open
  | close
  | input
  | output
  | write (b : Byte)
  | strobe
  | wait (last : Bool)
  | read
  /-- read the size byte of an identification, which decides what is received next -/
  | size
  | ping
  | pong
  deriving DecidableEq, Repr

/-- After byte `i` of a transfer, with `left` more to come, the device is done with what it has been
asked for: the usb driver asks for no more than `MAX_PAYLOAD_SIZE` bytes at once. -/
def lastAtOnce (d : Driver) (i left : Nat) : Bool :=
  left = 0 ∨ d = .usb ∧ (i + 1) % Usb.maxPayloadSize = 0

/-- `driver_parport_send` on bytes, from byte `i` of a transfer: each is written, strobed and waited
for. -/
def sends (d : Driver) : Nat → List Byte → List Op
  | _, [] => []
  | i, b :: bs => .write b :: .strobe :: .wait (lastAtOnce d i bs.length) :: sends d (i + 1) bs

/-- `driver_parport_receive` of `n` bytes, from byte `i` of a transfer: each is waited for, read and
strobed. -/
def receives (d : Driver) : Nat → Nat → List Op
  | _, 0 => []
  | i, n + 1 => .wait (lastAtOnce d i n) :: .read :: .strobe :: receives d (i + 1) n

/-- A send and what follows it. The parallel port's loop reports failure when it is given nothing,
so that the caller closes the device. -/
def send (d : Driver) (bs : List Byte) (rest : List Op) : List Op :=
  if d = .parport ∧ bs = [] then [.close] else sends d 0 bs ++ rest

/-- A receive and what follows it. -/
def receive (d : Driver) (n : Nat) (rest : List Op) : List Op :=
  if d = .parport ∧ n = 0 then [.close] else receives d 0 n ++ rest

/-- What an identification receives after its size byte. -/
def receiveIdentity (d : Driver) (size : Byte) (rest : List Op) : List Op :=
  receive d (size &&& 0x0f#8).toNat (receive d 9 rest)

/-! ## Calls -/

/-- The library's calls that talk to the server. An injection's load is a call of its own. -/
inductive Call where
  | ready
  | ping
  | load (memory bank : Byte) (address : Addr) (data : List Byte)
  | save (memory bank : Byte) (address : Addr) (size : Nat)
  | peek (memory bank : Byte) (address : Addr)
  | poke (memory bank : Byte) (address : Addr) (value : Byte)
  | identify
  | jump (memory bank : Byte) (address : Addr)
  | run
  | inject (address : Addr)
  deriving DecidableEq, Repr

/-- The ping every request begins with. -/
def pinging (rest : List Op) : List Op :=
  .output :: .write Command.ping :: .ping :: .pong :: rest

/-- A request of bytes `bs` that is not answered. -/
def request (d : Driver) (bs : List Byte) (rest : List Op) : List Op :=
  .open :: pinging (.output :: send d bs rest)

/-- A request of bytes `bs` and the turnaround to its answer. -/
def inquiry (d : Driver) (bs : List Byte) (rest : List Op) : List Op :=
  request d bs (.input :: .strobe :: rest)

/-- The header of a load or a save. -/
def header (command memory bank : Byte) (start : Addr) (size : Nat) : List Byte :=
  let stop := start + BitVec.ofNat 16 size
  [command, memory, bank, lo start, hi start, lo stop, hi stop]

/-- The driver steps of a call that meets no timeout. -/
def Call.ops (d : Driver) : Call → List Op
  | .ready => [.open, .close]
  | .ping => .open :: pinging [.close]
  | .load memory bank address data =>
    request d (header Command.load memory bank address data.length) (send d data [.close])
  | .save memory bank address size =>
    inquiry d (header Command.save memory bank address size) (receive d size [.close])
  | .peek memory bank address =>
    inquiry d [Command.peek, memory, bank, lo address, hi address] (receive d 1 [.close])
  | .poke memory bank address value =>
    request d [Command.poke, memory, bank, lo address, hi address, value] [.close]
  | .identify => inquiry d [Command.identify] [.wait true, .size, .close]
  | .jump memory bank address =>
    request d [Command.jump, memory, bank, hi address, lo address] [.close]
  | .run => request d [Command.run] [.close]
  | .inject address =>
    let address := address - 1#16
    request d [Command.inject, hi address, lo address] [.close]

/-- The payload of a load is no longer than its header can say, so that the call is one request. -/
def Call.OneRequest : Call → Prop
  | .load _ _ _ data => data.length ≤ 0x10000
  | _ => True

instance : DecidablePred Call.OneRequest
  | .load _ _ _ data => inferInstanceAs (Decidable (data.length ≤ 0x10000))
  | .ready | .ping | .save .. | .peek .. | .poke .. | .identify | .jump .. | .run | .inject _ =>
    .isTrue trivial

/-! ## Spans -/

/-- A transfer of one to 65536 bytes is the span of its own bounds. -/
theorem span_add (start : Addr) {n : Nat} (hpos : 0 < n) (hmax : n ≤ 0x10000) :
    span start (start + BitVec.ofNat 16 n) = n := by
  have : start + BitVec.ofNat 16 n - start - 1#16 = BitVec.ofNat 16 n - 1#16 := by
    rw [add_sub_cancel_left]
  rw [span, this, BitVec.toNat_sub, BitVec.toNat_ofNat, BitVec.toNat_ofNat]
  omega

theorem span_pos (start stop : Addr) : 0 < span start stop := Nat.succ_pos _

end Xlink.Port

import Mathlib.Data.BitVec
import Xlink.Lib.Ring
import Xlink.Lib.Transition
import Xlink.Lib.Word

/-!
# The buffered UART of servant64

`src/driver/servant64/uart.c`: a ring buffer for each direction, filled and emptied by the main
program and by two interrupts. An interrupt runs to its end between two accesses of the main
program, so the functions the main program calls, `ReadSerial`, `WriteSerial` and `uart_flush`, are
cut into their accesses to what an interrupt may change.

The buffers' sizes are powers of two, as `uart.h` asks; the positions are masked, not reduced.

A position is read or written by one access, so it has 8 bits: the buffers have 256 bytes at most,
and 128 where `uart.h` is left as it is. With `USART0_LARGE_BUFFER`, which the `Makefile` defines
for buffers of 512 bytes, positions have 16 bits and an access has two halves. An interrupt between
the halves is outside this model, and what is said here of a buffer is not said of such ones.
-/

namespace Xlink.Serial

open Word (Byte)

/-- Where the main program is in the functions it calls, with what it holds in its registers. -/
inductive UartAccess (r t : Nat) where
  | idle
  /-- `ReadSerial`: `while(!uart_available())` -/
  | polling
  /-- `uart0_getc`: `UART_RxHead == UART_RxTail` -/
  | testing
  /-- `UART_RxTail = tmptail` -/
  | taking (tmptail : Fin (2 ^ r))
  /-- `data = UART_RxBuf[tmptail]` -/
  | fetching (tmptail : Fin (2 ^ r))
  /-- `(UART_LastRxError << 8) + data` -/
  | answering (data : Byte)
  /-- `uart0_putc`: `while ( tmphead == UART_TxTail )` -/
  | waiting (data : Byte) (tmphead : Fin (2 ^ t))
  /-- `UART_TxBuf[tmphead] = data` -/
  | storing (data : Byte) (tmphead : Fin (2 ^ t))
  /-- `UART_TxHead = tmphead` -/
  | moving (tmphead : Fin (2 ^ t))
  /-- `UART0_CONTROL |= _BV(UART0_UDRIE)` -/
  | enabling

/-- The variables of the module, with buffers of `2 ^ r` and `2 ^ t` bytes. -/
structure Uart (r t : Nat) where
  rx : Ring.Buffer Byte (2 ^ r)
  lastRxError : Byte
  tx : Ring.Buffer Byte (2 ^ t)
  /-- the bit of `UART0_CONTROL` that lets the transmit interrupt happen -/
  udrie : Bool
  main : UartAccess r t
  /-- `#error "Buffer too large, please use -DUSART0_LARGE_BUFFER switch in compiler options"` -/
  small : r ≤ 8 ∧ t ≤ 8

/-- What happens at the UART, and what of it is seen outside. -/
inductive LineEvent where
  /-- the receive interrupt stores a byte -/
  | received (usr data : Byte)
  /-- the receive interrupt finds its buffer full -/
  | overflowed (usr data : Byte)
  /-- the transmit interrupt starts a transmission -/
  | transmitted (data : Byte)
  /-- the transmit interrupt finds nothing to send, and is switched off -/
  | silenced
  /-- `ReadSerial` is called -/
  | readSerial
  /-- `WriteSerial` is called -/
  | writeSerial (c : Byte)
  /-- `uart_flush` is called -/
  | flush
  /-- the next access of a call -/
  | access
  /-- `ReadSerial` returns a byte -/
  | returned (c : Byte)
  /-- `uart0_getc` returns `UART_NO_DATA`, and `ReadSerial` the low byte of it -/
  | noData
  deriving DecidableEq

namespace Uart

variable {r t : Nat}

/-- `( index + 1) & UART_RX0_BUFFER_MASK`, and the same for the transmit buffer. -/
def after {k : Nat} (index : Fin (2 ^ k)) : Fin (2 ^ k) :=
  ⟨(index + 1) &&& (2 ^ k - 1), Nat.lt_of_le_of_lt Nat.and_le_right (by
    have := index.pos
    omega)⟩

theorem after_eq {k : Nat} (index : Fin (2 ^ k)) : after index = Ring.next index :=
  Fin.ext (Nat.and_two_pow_sub_one_eq_mod (index + 1) k)

/-- `_BV(FE0)|_BV(DOR0)`. -/
def errorBits : Byte := 0x18#8

/-- `UART_BUFFER_OVERFLOW >> 8`. -/
def bufferOverflow : Byte := 0x02#8

/-- `uart0_init`. -/
def init (small : r ≤ 8 ∧ t ≤ 8) (cells : Fin (2 ^ r) → Byte) (cells' : Fin (2 ^ t) → Byte) :
    Uart r t where
  rx := ⟨cells, ⟨0, Nat.two_pow_pos r⟩, ⟨0, Nat.two_pow_pos r⟩⟩
  lastRxError := 0#8
  tx := ⟨cells', ⟨0, Nat.two_pow_pos t⟩, ⟨0, Nat.two_pow_pos t⟩⟩
  udrie := false
  main := .idle
  small := small

/-! ## The interrupts -/

/-- `ISR(UART0_RECEIVE_INTERRUPT)`, with what it reads of the status and data registers. -/
def receiveInterrupt (u : Uart r t) (usr data : Byte) : Uart r t :=
  let tmphead := after u.rx.head
  if tmphead = u.rx.tail then { u with lastRxError := bufferOverflow }
  else
    { u with
      rx := { u.rx with head := tmphead, cells := Function.update u.rx.cells tmphead data }
      lastRxError := usr &&& errorBits }

/-- `ISR(UART0_TRANSMIT_INTERRUPT)`, and what it writes to the data register. -/
def transmitInterrupt (u : Uart r t) : Uart r t × Option Byte :=
  if u.tx.head ≠ u.tx.tail then
    let tmptail := after u.tx.tail
    ({ u with tx := { u.tx with tail := tmptail } }, some (u.tx.cells tmptail))
  else ({ u with udrie := false }, none)

/-! ## The main program -/

/-- `uart0_available`. -/
def available (u : Uart r t) : Nat := (2 ^ r + u.rx.head - u.rx.tail) &&& (2 ^ r - 1)

/-- `uart0_flush`. -/
def flush (u : Uart r t) : Uart r t := { u with rx := { u.rx with head := u.rx.tail } }

/-- `ReadSerial`'s `uart_getc() & 0xff`, at the end of `uart0_getc`. -/
def low (lastRxError data : Byte) : Byte :=
  (((lastRxError.setWidth 16 <<< 8) + data.setWidth 16) &&& 0xff#16).setWidth 8

/-- The next access of the function the main program is in, up to the one it returns with. -/
def proceed (u : Uart r t) : Option (Uart r t) :=
  match u.main with
  | .polling => some (if u.available = 0 then u else { u with main := .testing })
  | .testing =>
    if u.rx.head = u.rx.tail then none else some { u with main := .taking (after u.rx.tail) }
  | .taking tmptail =>
    some { u with rx := { u.rx with tail := tmptail }, main := .fetching tmptail }
  | .fetching tmptail => some { u with main := .answering (u.rx.cells tmptail) }
  | .waiting data tmphead =>
    some (if tmphead = u.tx.tail then u else { u with main := .storing data tmphead })
  | .storing data tmphead =>
    some { u with
      tx := { u.tx with cells := Function.update u.tx.cells tmphead data }
      main := .moving tmphead }
  | .moving tmphead => some { u with tx := { u.tx with head := tmphead }, main := .enabling }
  | .enabling => some { u with udrie := true, main := .idle }
  | .idle | .answering _ => none

/-- The next function the main program calls. -/
def call (u : Uart r t) (begun : Uart r t) : Option (Uart r t) :=
  match u.main with
  | .idle => some begun
  | _ => none

/-- `ReadSerial` returns the byte it has fetched. -/
def leave (u : Uart r t) (c : Byte) : Option (Uart r t) :=
  match u.main with
  | .answering data => if c = low u.lastRxError data then some { u with main := .idle } else none
  | _ => none

/-- `ReadSerial` returns without a byte. -/
def leaveNone (u : Uart r t) : Option (Uart r t) :=
  match u.main with
  | .testing => if u.rx.head = u.rx.tail then some { u with main := .idle } else none
  | _ => none

/-- One event. Which interrupt comes when is the run's choice; the transmit interrupt comes when it
is enabled. -/
def step (u : Uart r t) : LineEvent → Option (Uart r t)
  | .received usr data =>
    if after u.rx.head = u.rx.tail then none else some (u.receiveInterrupt usr data)
  | .overflowed usr data =>
    if after u.rx.head = u.rx.tail then some (u.receiveInterrupt usr data) else none
  | .transmitted data =>
    if u.udrie = true ∧ u.transmitInterrupt.2 = some data then some u.transmitInterrupt.1 else none
  | .silenced =>
    if u.udrie = true ∧ u.transmitInterrupt.2 = none then some u.transmitInterrupt.1 else none
  | .readSerial => u.call { u with main := .polling }
  | .writeSerial c => u.call { u with main := .waiting c (after u.tx.head) }
  | .flush => u.call u.flush
  | .access => u.proceed
  | .returned c => u.leave c
  | .noData => u.leaveNone

end Uart

end Xlink.Serial

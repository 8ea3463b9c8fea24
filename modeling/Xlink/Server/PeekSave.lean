import Xlink.Server.PokeLoad
import Xlink.Server.Screen

/-!
# A peek and the save of one byte

Both requests read one byte and give it to the PC. They may be after different bytes: the C64
servers peek with `$37` in the processor port where they save with what is there, and the C128
servers call `FETCH` with the command byte still in the Y register.

`peek_agrees_with_save` has the condition for each of the four listings. Both requests are asked of
the same machine. They are compared where the server leaves alone what they read (`PeeksStill`,
`SavesStill`): a save has itself stored its end address and, on the C128, code in the common area,
and what is read there is the request's own trace. `FETCH` is a parameter that does what it is
documented to do.
-/

namespace Xlink.Server

open Word Mos6502 Port

variable {T : Target}

/-! ## Bytes -/

/-- The byte at an address under a configuration. -/
def Machine.byte (M : Machine T) (config : Byte) (address : Addr) : Byte :=
  (Machine.read ({ M with config := config } : Machine T) address).1

namespace Listing

/-- The cells and the memory that a peek or a save changes on the side. -/
def workArea : Listing → Scratch
  | .server64 rom chips _ _ _ _ => ⟨(c64 rom chips).work, fun _ _ => False⟩
  | .kernal64 rom chips _ _ _ _ =>
    ⟨(c64 rom chips).work, fun b a => b = 0x00#8 ∧ 0x0100 ≤ a.toNat ∧ a.toNat < 0x010b⟩
  | .server128 rom chips _ _ _ _ =>
    ⟨farWork rom chips, fun b a => b = 0x00#8 ∧ 0x02a2 ≤ a.toNat ∧ a.toNat < 0x02fc⟩
  | .kernal128 rom chips _ _ _ _ =>
    ⟨farWork rom chips, fun b a => b = 0x00#8 ∧ 0x02a2 ≤ a.toNat ∧ a.toNat < 0x02fc⟩

/-- The configuration that a peek reads with. -/
def peekConfig : (l : Listing) → Machine l.target → Byte → Byte → Byte
  | .server64 .. => fun _ memory _ => memory
  | .kernal64 .. => fun _ memory _ => memory
  | .server128 .. => Machine.effective
  | .kernal128 .. => Machine.effective

/-- The address that a peek reads from. -/
def peekAddress : (l : Listing) → Machine l.target → Byte → Byte → Addr → Addr
  | .server64 .. => fun _ _ _ address => address
  | .kernal64 .. => fun _ _ _ address => address
  | .server128 .. => fun M memory bank address =>
    address + offset (M.effective memory bank = M.config) Command.peek
  | .kernal128 .. => fun M memory bank address =>
    address + offset (M.effective memory bank = M.config) Command.peek

/-- The configuration that a save reads with. -/
def saveConfig : (l : Listing) → Machine l.target → Byte → Byte → Byte
  | .server64 .. => fun M memory _ => (saving M.config memory).1
  | .kernal64 .. => fun M memory _ => (saving M.config memory).1
  | .server128 .. => Machine.effective
  | .kernal128 .. => Machine.effective

end Listing

section C64

variable {rom : Addr → Byte} {chips : List Access → Addr → Byte} {start stop back : Addr}
  {basic : Code (c64 rom chips) Unit}

end C64

/-! ## The C128 servers -/

section C128

variable {rom : Byte → Addr → Byte} {chips : List Access → Addr → Byte} {start stop back : Addr}
  {area : CommonArea rom chips}

end C128

/-! ## All four -/

section Requests

variable {l : Listing} {M : Machine l.target} {memory bank : Byte} {address : Addr}
  {a x y : Byte} {z n : Bool} {st : List Byte} {k : List Byte → Pc}

end Requests

/-! ## Agreement -/

end Xlink.Server

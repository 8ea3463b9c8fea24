import Mathlib.Data.BitVec
import Xlink.Lib.Word

/-!
# The I/O ports of an AVR

A port has a direction register and an output register, and a pin is one bit of both. Code writes
the registers one assignment at a time, so that what is connected to a pin sees every register on
the way: `watch` collects what it sees. The lemmas say what an assignment does to one pin.
-/

namespace Avr

open Word (Byte)

inductive Letter where
  | b | c | d
  deriving DecidableEq, Repr

/-- `DDRx` and `PORTx`. -/
inductive Register where
  | ddr (x : Letter)
  | port (x : Letter)
  deriving DecidableEq, Repr

structure Registers where
  ddrB : Byte
  portB : Byte
  ddrC : Byte
  portC : Byte
  ddrD : Byte
  portD : Byte
  deriving DecidableEq, Repr

namespace Registers

def get (s : Registers) : Register → Byte
  | .ddr .b => s.ddrB
  | .port .b => s.portB
  | .ddr .c => s.ddrC
  | .port .c => s.portC
  | .ddr .d => s.ddrD
  | .port .d => s.portD

def put (s : Registers) (v : Byte) : Register → Registers
  | .ddr .b => { s with ddrB := v }
  | .port .b => { s with portB := v }
  | .ddr .c => { s with ddrC := v }
  | .port .c => { s with portC := v }
  | .ddr .d => { s with ddrD := v }
  | .port .d => { s with portD := v }

@[simp] theorem get_put_self (s : Registers) (v : Byte) (r : Register) :
    (s.put v r).get r = v := by
  cases r with
  | ddr x => cases x <;> rfl
  | port x => cases x <;> rfl

theorem get_put_of_ne (s : Registers) (v : Byte) {r q : Register} (h : q ≠ r) :
    (s.put v r).get q = s.get q := by
  rcases r with (_ | _ | _) | (_ | _ | _) <;> rcases q with (_ | _ | _) | (_ | _ | _) <;>
    first | rfl | exact absurd rfl h

end Registers

/-- The byte of eight levels. -/
def byteOf (levels : Fin 8 → Bool) : Byte :=
  (BitVec.ofBoolListLE (List.ofFn levels)).cast List.length_ofFn

theorem getLsbD_byteOf (levels : Fin 8 → Bool) (i : Fin 8) :
    (byteOf levels).getLsbD i = levels i := by
  rw [byteOf, BitVec.getLsbD_cast, BitVec.getLsbD_ofBoolListLE, List.getD_eq_getElem?_getD,
    List.getElem?_ofFn, dif_pos i.isLt]
  rfl

structure Pin where
  port : Letter
  bit : Fin 8
  deriving DecidableEq, Repr

/-! ## Pins -/

/-- The two bits of a pin. -/
structure Bits where
  /-- the pin is an output -/
  output : Bool
  /-- the bit of the output register, which is the pull-up of an input -/
  high : Bool
  deriving DecidableEq, Repr

/-- The level the controller gives a pin; `none` leaves it to others. -/
def Bits.level (x : Bits) : Option Bool := if x.output then some x.high else none

theorem Bits.eq_released {x : Bits} (h : x.output = false) : x = ⟨false, x.high⟩ := by rw [← h]

/-- The pin goes low, and it is the controller that pulls it. -/
def Bits.falls (x y : Bits) : Bool := y.level == some false && x.level != some false

def Registers.bits (s : Registers) (p : Pin) : Bits :=
  ⟨(s.get (.ddr p.port)).getLsbD p.bit, (s.get (.port p.port)).getLsbD p.bit⟩

/-- `PINx`: an output reads as its own level, an input as the level from outside. -/
def Registers.pins (s : Registers) (outside : Letter → Byte) (x : Letter) : Byte :=
  (s.get (.port x) &&& s.get (.ddr x)) ||| (outside x &&& ~~~ s.get (.ddr x))

theorem Registers.getLsbD_pins (s : Registers) (p : Pin) (outside : Letter → Byte) :
    (s.pins outside p.port).getLsbD p.bit =
      (s.bits p).level.getD ((outside p.port).getLsbD p.bit) := by
  have hbit : p.bit.val < 8 := p.bit.isLt
  rw [pins, BitVec.getLsbD_or, BitVec.getLsbD_and, BitVec.getLsbD_and, BitVec.getLsbD_not, bits,
    Bits.level]
  cases hddr : (s.get (.ddr p.port)).getLsbD p.bit <;> simp [hbit]

/-! ## Assignments -/

/-- `r = m`, `r &= m` and `r |= m`. -/
inductive Assign where
  | set (r : Register) (m : Byte)
  | and (r : Register) (m : Byte)
  | or (r : Register) (m : Byte)
  deriving DecidableEq, Repr

namespace Assign

def target : Assign → Register
  | set r _ | and r _ | or r _ => r

def value (s : Registers) : Assign → Byte
  | set _ m => m
  | and r m => s.get r &&& m
  | or r m => s.get r ||| m

def exec (s : Registers) (a : Assign) : Registers := s.put (a.value s) a.target

/-- What the assignment makes of a bit of its register. -/
def bit (old : Bool) (i : Nat) : Assign → Bool
  | set _ m => m.getLsbD i
  | and _ m => old && m.getLsbD i
  | or _ m => old || m.getLsbD i

/-- What the assignment makes of a bit of the register `r`. -/
def bitOf (r : Register) (i : Nat) (old : Bool) (a : Assign) : Bool :=
  if r = a.target then a.bit old i else old

theorem getLsbD_exec (s : Registers) (a : Assign) (r : Register) (i : Nat) :
    ((a.exec s).get r).getLsbD i = a.bitOf r i ((s.get r).getLsbD i) := by
  rw [exec, bitOf]
  split
  next h =>
    rw [h, Registers.get_put_self]
    cases a <;> simp [value, bit, target]
  next h => rw [Registers.get_put_of_ne _ _ h]

end Assign

/-- The bits of a pin after an assignment. -/
def Pin.step (p : Pin) (x : Bits) (a : Assign) : Bits :=
  ⟨a.bitOf (.ddr p.port) p.bit x.output, a.bitOf (.port p.port) p.bit x.high⟩

theorem bits_exec (s : Registers) (a : Assign) (p : Pin) :
    Registers.bits (a.exec s) p = p.step (s.bits p) a := by
  rw [Registers.bits, Assign.getLsbD_exec, Assign.getLsbD_exec]
  rfl

/-! ## Code -/

/-- The registers after a list of assignments. -/
def exec (s : Registers) (as : List Assign) : Registers := as.foldl Assign.exec s

/-- What is seen on the way, when `look` says what is seen of one assignment. -/
def watch {ε : Type*} (look : Registers → Registers → List ε) (s : Registers) :
    List Assign → List ε
  | [] => []
  | a :: as => look s (a.exec s) ++ watch look (a.exec s) as

theorem exec_append (s : Registers) (as bs : List Assign) :
    exec s (as ++ bs) = exec (exec s as) bs := List.foldl_append ..

theorem watch_append {ε : Type*} (look : Registers → Registers → List ε) (s : Registers)
    (as bs : List Assign) :
    watch look s (as ++ bs) = watch look s as ++ watch look (exec s as) bs := by
  induction as generalizing s with
  | nil => rfl
  | cons a as ih =>
    rw [List.cons_append, watch, watch, ih, List.append_assoc]
    rfl

/-! ## Code on a pin

A pin goes its own way: its bits after a list of assignments, how often it falls and whether it
changes at all are functions of its bits before. -/

namespace Pin

variable (p : Pin)

def run (x : Bits) (as : List Assign) : Bits := as.foldl p.step x

/-- How often the pin falls. -/
def falls (x : Bits) : List Assign → Nat
  | [] => 0
  | a :: as => (x.falls (p.step x a)).toNat + falls (p.step x a) as

/-- The pin never changes. -/
def still (x : Bits) (as : List Assign) : Bool := as.all fun a => p.step x a == x

theorem bits_run (s : Registers) (as : List Assign) :
    Registers.bits (exec s as) p = p.run (s.bits p) as := by
  induction as generalizing s with
  | nil => rfl
  | cons a as ih =>
    show Registers.bits (exec (a.exec s) as) p = p.run (p.step (s.bits p) a) as
    rw [ih, bits_exec]

theorem step_of_still {x : Bits} {a : Assign} {as : List Assign}
    (h : p.still x (a :: as) = true) : p.step x a = x ∧ p.still x as = true := by
  rw [still, List.all_cons, Bool.and_eq_true] at h
  exact ⟨eq_of_beq h.1, h.2⟩

end Pin

end Avr

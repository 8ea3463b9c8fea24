import Mathlib.Data.List.FinRange
import Xlink.Board.Port

/-!
# The firmware between two commands

In whatever state a run of commands has brought a firmware, its data lines are all driven or all
released, FLAG is driven high, PA2 and RES are left to others, and the pins that are connected to
nothing, such as those of the serial line, are as they were when the firmware was started.

It is established of every state between two commands, whatever they were and however their waits
ended. Nothing is said of the time within a command, where a function sets a port by one assignment
after the other.
-/

namespace Xlink.Board

open Avr
open Word (Byte)
open Serial (Uint)

def connected : List Line := (List.finRange 8).map .data ++ [.flag, .pa2, .res]

theorem mem_connected : ∀ l : Line, l ∈ connected
  | .data i => List.mem_append_left _ (List.mem_map_of_mem (List.mem_finRange i))
  | .flag => List.mem_append_right _ (.head _)
  | .pa2 => List.mem_append_right _ (.tail _ (.head _))
  | .res => List.mem_append_right _ (.tail _ (.tail _ (.head _)))

/-- The pins that are connected to nothing. -/
def Firmware.Free (f : Firmware) (q : Pin) : Prop := ∀ l ∈ connected, f.pin l ≠ q

instance (f : Firmware) : DecidablePred f.Free :=
  fun q => inferInstanceAs (Decidable (∀ l ∈ connected, f.pin l ≠ q))

/-- The assignments leave the free pins alone. -/
def Spares (f : Firmware) (as : List Assign) : Prop :=
  ∀ x i, f.Free ⟨x, i⟩ → ∀ output high,
    (Pin.mk x i).run ⟨output, high⟩ as = ⟨output, high⟩

instance (f : Firmware) (as : List Assign) : Decidable (Spares f as) :=
  decidable_of_iff (∀ x ∈ [Letter.b, .c, .d], ∀ i, f.Free ⟨x, i⟩ → ∀ output high,
      (Pin.mk x i).run ⟨output, high⟩ as = ⟨output, high⟩)
    ⟨fun h x => h x (by cases x <;> decide), fun h x _ => h x⟩

theorem Spares.bits {f : Firmware} {as : List Assign} (h : Spares f as) {q : Pin} (hq : f.Free q)
    (s : Registers) : Registers.bits (exec s as) q = s.bits q := by
  rw [Pin.bits_run]
  exact h q.port q.bit hq _ _

/-- No function of a firmware touches a free pin. -/
structure Sparing (f : Firmware) : Prop where
  setup : Spares f (f.tristateReset ++ f.setupStrobe ++ f.setupAck)
  reset : Spares f (f.assertReset ++ f.tristateReset)
  strobe : Spares f f.strobe
  input : Spares f f.input
  output : Spares f f.output
  write : ∀ b, Spares f (f.write b)

/-! ## The two boards -/

theorem spares_servant64_write (b : Byte) : Spares servant64 (Servant64.write b) := by
  intro x i hfree output high
  cases x <;> fin_cases i <;>
    first
    | exact absurd hfree (by decide)
    | simp [Servant64.write, Pin.run, Pin.step, Assign.bitOf, Assign.target, Assign.bit]

theorem spares_at90usb162_write (b : Byte) : Spares at90usb162 (At90usb162.write b) := by
  intro x i hfree output high
  cases x with
  | b => rfl
  | c => rfl
  | d => exact absurd rfl (hfree (.data i) (mem_connected _))

theorem servant64_sparing : Sparing servant64 where
  setup := by decide
  reset := by decide
  strobe := by decide
  input := by decide
  output := by decide
  write := spares_servant64_write

theorem at90usb162_sparing : Sparing at90usb162 where
  setup := by decide
  reset := by decide
  strobe := by decide
  input := by decide
  output := by decide
  write := spares_at90usb162_write

theorem Chip.sparing : ∀ chip : Chip, Sparing chip.firmware
  | servant64 => servant64_sparing
  | at90usb162 => at90usb162_sparing

/-! ## Commands and runs -/

section Commands

variable {f : Firmware} (hf : Sparing f) {q : Pin} (hq : f.Free q) {s t : State}
  {seen : List Event} {timeout : Uint} {looks : Nat → List (Look Outside)}
include hf hq

theorem sendFrom_spares {left i : Nat} {bytes : List Byte}
    (h : f.sendFrom timeout looks left i s bytes = some (t, seen)) :
    t.regs.bits q = s.regs.bits q := by
  induction left generalizing i s bytes seen with
  | zero =>
    cases h
    rfl
  | succ left ih =>
    cases bytes with
    | nil => cases h
    | cons b bytes =>
      have hbyte : Registers.bits (f.does s (f.write b ++ f.strobe)).1.regs q = s.regs.bits q := by
        rw [Firmware.does, exec_append, hf.strobe.bits hq, (hf.write b).bits hq]
      rw [Firmware.sendFrom] at h
      simp only at h
      split at h
      · cases h
      · cases h
        exact hbyte
      · obtain ⟨rest, hrest, heq⟩ := Option.map_eq_some_iff.1 h
        cases heq
        exact (ih hrest).trans hbyte

theorem receiveFrom_spares {outside : Nat → Outside} {left i : Nat}
    (h : f.receiveFrom timeout looks outside left i s = some (t, seen)) :
    t.regs.bits q = s.regs.bits q := by
  induction left generalizing i s seen with
  | zero =>
    cases h
    rfl
  | succ left ih =>
    rw [Firmware.receiveFrom] at h
    split at h
    · cases h
    · cases h
      rfl
    · obtain ⟨rest, hrest, heq⟩ := Option.map_eq_some_iff.1 h
      cases heq
      exact (ih hrest).trans (hf.strobe.bits hq _)

theorem step_spares {c : Command Outside} (h : f.step s c = some (t, seen)) :
    t.regs.bits q = s.regs.bits q := by
  cases c with
  | reset =>
    cases h
    exact hf.reset.bits hq _
  | strobe =>
    cases h
    exact hf.strobe.bits hq _
  | acked outside =>
    have hack : f.ack s outside = (t, seen) := Option.some.inj h
    rw [Firmware.ack] at hack
    split at hack
    · cases hack
      rfl
    · cases hack
      rfl
  | input =>
    cases h
    exact hf.input.bits hq _
  | output =>
    cases h
    exact hf.output.bits hq _
  | read outside =>
    cases h
    rfl
  | write b =>
    cases h
    exact (hf.write b).bits hq _
  | send size timeout bytes looks => exact sendFrom_spares hf hq h
  | receive size timeout looks outside => exact receiveFrom_spares hf hq h

theorem setup_spares (regs : Registers) (outside : Outside) :
    (f.setupHardware regs outside).regs.bits q = regs.bits q := by
  rw [Firmware.setupHardware]
  exact (hf.input.bits hq _).trans (hf.setup.bits hq _)

end Commands

/-- A command, with what is seen of it left out. -/
def Firmware.next (f : Firmware) (s : State) (c : Command Outside) : Option State :=
  (f.step s c).map Prod.fst

/-- What holds between two commands. -/
structure AtRest (f : Firmware) (before s : Registers) : Prop where
  /-- the data lines are all driven or all released -/
  data : ∃ driving, ∀ i, (s.bits (f.pin (.data i))).output = driving
  flag : (s.bits (f.pin .flag)).level = some true
  pa2 : (s.bits (f.pin .pa2)).level = none
  res : (s.bits (f.pin .res)).level = none
  others : ∀ q, (∀ l, f.pin l ≠ q) → s.bits q = before.bits q

theorem Related.atRest {f : Firmware} {before : Registers} {s : State} {p : Port}
    (h : Related f s p) (hothers : ∀ q, f.Free q → s.regs.bits q = before.bits q) :
    AtRest f before s.regs where
  data := ⟨p.driving, fun i => congrArg Bits.output (h.holds.data i)⟩
  flag := congrArg Bits.level h.holds.flag
  pa2 := if_neg (by rw [h.holds.pa2]; decide)
  res := if_neg (by rw [h.holds.res]; decide)
  others q hq := hothers q fun l _ => hq l

/-- The invariant of a run. -/
def Kept (f : Firmware) (before : Registers) (s : State) : Prop :=
  (∃ p, Related f s p) ∧ ∀ q, f.Free q → s.regs.bits q = before.bits q

theorem Kept.setup (chip : Chip) (before : Registers) (outside : Outside) :
    Kept chip.firmware before (chip.firmware.setupHardware before outside) :=
  ⟨⟨_, setup_related chip.wired before outside⟩,
    fun _ hq => setup_spares chip.sparing hq before outside⟩

theorem Kept.next {chip : Chip} {before : Registers} {s t : State} {c : Command Outside}
    (h : Kept chip.firmware before s) (ht : chip.firmware.next s c = some t) :
    Kept chip.firmware before t := by
  obtain ⟨⟨p, hrel⟩, hothers⟩ := h
  obtain ⟨⟨t, seen⟩, hstep, rfl⟩ := Option.map_eq_some_iff.1 ht
  refine ⟨?_, fun q hq => (step_spares chip.sparing hq hstep).trans (hothers q hq)⟩
  have hsame := step_same chip.wired hrel c
  rw [hstep] at hsame
  generalize p.step (c.map chip.firmware.view) = y at hsame
  cases hsame with
  | some hsame => exact ⟨_, hsame.1⟩

/-- After any run of commands, from any registers and whatever is outside, the firmware is at rest:
it drives nothing but FLAG and, all together, the data lines, and no pin but those that are
connected has changed since it was started. -/
theorem at_rest_between_commands (chip : Chip) (before : Registers) (outside : Outside)
    (commands : List (Command Outside)) (t : State)
    (h : Transition.run chip.firmware.next (chip.firmware.setupHardware before outside) commands =
      some t) :
    AtRest chip.firmware before t.regs := by
  have hallowed : Transition.Allowed chip.firmware.next (fun _ _ => True)
      (chip.firmware.setupHardware before outside) commands :=
    .of_forall (fun _ _ => trivial) _ _
  have hkept : Kept chip.firmware before t :=
    (Transition.Reach.of_run hallowed h).invariant (Kept.setup chip before outside)
      fun _ _ _ hs _ => hs.next
  obtain ⟨⟨p, hrel⟩, hothers⟩ := hkept
  exact hrel.atRest hothers

theorem at_rest_after_strobe :
    ∃ t, Transition.run servant64.next (servant64.setupHardware ⟨3, 2, 1, 0, 3, 2⟩ fun _ => 0x08#8)
        [.output, .write 0x41#8, .strobe, .reset] = some t ∧
      AtRest servant64 ⟨3, 2, 1, 0, 3, 2⟩ t.regs :=
  ⟨_, rfl, at_rest_between_commands .servant64 ⟨3, 2, 1, 0, 3, 2⟩ (fun _ => 0x08#8)
    [.output, .write 0x41#8, .strobe, .reset] _ rfl⟩

end Xlink.Board

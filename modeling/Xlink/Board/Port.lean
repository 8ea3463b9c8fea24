import Mathlib.Tactic.FinCases
import Xlink.Board.Firmware

/-!
# The port the firmwares are

`Port` is what a firmware is for: a byte, whether it is on the data lines, and the level of PA2
that is remembered. Its transfers are those of `Serial.send` and `Serial.receive`. Both firmwares
are this port: whatever is outside, the same is seen of them in every run of commands.

`Wired` has one fact, or two, for each function of the source: what its assignments do to every pin
that is connected. Runs rest on these facts alone.

The result is an equality of what is seen, for both firmwares and every list of commands, so it is
also about runs in which a wait times out, and about runs whose last wait never ends. Time is in it
only as what the timer has counted at each look at PA2. How the commands reach a firmware, over USB
or the serial line, is not (`Usb`, `Serial`).
-/

namespace Xlink.Board

open Avr
open Word (Byte)
open Serial (Uint Poll)

/-- What is outside, on the lines. -/
structure View where
  lines : Byte
  pa2 : Bool

structure Port where
  driving : Bool
  data : Byte
  last : Bool
  deriving DecidableEq, Repr

namespace Port

variable (p : Port)

def lines : Lines := fun i => if p.driving then some (p.data.getLsbD i) else none

/-- What is read from the data lines. -/
def sees (v : View) : Byte := if p.driving then p.data else v.lines

/-- One thing a transfer does. -/
def does : Serial.Event → Port × List Event
  | .wrote b => ({ p with data := b }, [])
  | .read b => (p, [.read b])
  | .strobe => (p, [.strobe p.lines])
  | .acked => ({ p with last := !p.last }, [])
  | .timedOut => (p, [.timedOut])

def doesAll (p : Port) : List Serial.Event → Port × List Event
  | [] => (p, [])
  | e :: es =>
    let (q, seen) := p.does e
    let (r, rest) := q.doesAll es
    (r, seen ++ rest)

def rounds (looks : Nat → List (Look View)) (i : Nat) : List Poll :=
  (looks i).map fun l => ⟨l.outside.pa2, l.elapsed⟩

def step : Command View → Option (Port × List Event)
  | .reset => some (p, [.reset])
  | .strobe => some (p.does .strobe)
  | .acked v =>
    if p.last ≠ v.pa2 then some ({ p with last := v.pa2 }, [.acked true])
    else some (p, [.acked false])
  | .input => some ({ p with driving := false, data := 0xff#8 }, [])
  | .output => some ({ p with driving := true }, [])
  | .read v => some (p, [.read (p.sees v)])
  | .write b => some (p.does (.wrote b))
  | .send size timeout bytes looks =>
    (Serial.send timeout (rounds looks) size p.last bytes).map fun t => p.doesAll t.events
  | .receive size timeout looks outside =>
    (Serial.receive timeout (rounds looks) (fun i => p.sees (outside i)) size p.last).map
      fun t => p.doesAll t.events

/-- The port when the firmware has been set up. -/
def init (v : View) : Port := ⟨false, 0xff#8, v.pa2⟩

end Port

/-! ## What a firmware's registers are of the port -/

namespace Firmware

variable (f : Firmware)

/-- What is outside, on the pins of this firmware. -/
def view (outside : Outside) : View where
  lines := byteOf fun i => (outside (f.pin (.data i)).port).getLsbD (f.pin (.data i)).bit
  pa2 := (outside (f.pin .pa2).port).getLsbD (f.pin .pa2).bit

theorem getLsbD_view (outside : Outside) (i : Fin 8) : (f.view outside).lines.getLsbD i =
    (outside (f.pin (.data i)).port).getLsbD (f.pin (.data i)).bit := by
  rw [view, getLsbD_byteOf]

/-- A level of PA2 as `ReadACK` has it. -/
def ackByte (pa2 : Bool) : Byte := if pa2 then BitVec.twoPow 8 (f.pin .pa2).bit else 0#8

end Firmware

/-- The registers hold the port: the data pins all drive or are all released, FLAG is kept high,
PA2 and RES are left to others. -/
structure Holds (f : Firmware) (p : Port) (s : Registers) : Prop where
  data : ∀ i : Fin 8, s.bits (f.pin (.data i)) = ⟨p.driving, p.data.getLsbD i⟩
  flag : s.bits (f.pin .flag) = ⟨true, true⟩
  pa2 : (s.bits (f.pin .pa2)).output = false
  res : (s.bits (f.pin .res)).output = false

/-- What some assignments do to the data lines, with nothing else done to the other lines. -/
structure Acts (f : Firmware) (as : List Assign) (on : Fin 8 → Bits → Bits) : Prop where
  data : ∀ i output high, (f.pin (.data i)).run ⟨output, high⟩ as = on i ⟨output, high⟩
  flag : (f.pin .flag).run ⟨true, true⟩ as = ⟨true, true⟩
  pa2 : ∀ high, ((f.pin .pa2).run ⟨false, high⟩ as).output = false
  res : ∀ high, ((f.pin .res).run ⟨false, high⟩ as).output = false

/-- How often FLAG and RES fall. -/
structure Falls (f : Firmware) (as : List Assign) (strobes resets : Nat) : Prop where
  flag : (f.pin .flag).falls ⟨true, true⟩ as = strobes
  res : ∀ high, (f.pin .res).falls ⟨false, high⟩ as = resets

/-- What each function of a firmware does, pin by pin. -/
structure Wired (f : Firmware) : Prop where
  reset : Acts f (f.assertReset ++ f.tristateReset) fun _ x => x
  resets : Falls f (f.assertReset ++ f.tristateReset) 0 1
  strobe : Acts f f.strobe fun _ x => x
  strobes : Falls f f.strobe 1 0
  still : ∀ i output high, (f.pin (.data i)).still ⟨output, high⟩ f.strobe = true
  input : Acts f f.input fun _ _ => ⟨false, true⟩
  inputs : Falls f f.input 0 0
  output : Acts f f.output fun _ x => ⟨true, x.high⟩
  outputs : Falls f f.output 0 0
  write : ∀ b, Acts f (f.write b) fun i x => ⟨x.output, b.getLsbD i⟩
  writes : ∀ b, Falls f (f.write b) 0 0
  setupFlag : ∀ output high, (f.pin .flag).run ⟨output, high⟩
    (f.tristateReset ++ f.setupStrobe ++ f.setupAck) = ⟨true, true⟩
  setupPa2 : ∀ output high, ((f.pin .pa2).run ⟨output, high⟩
    (f.tristateReset ++ f.setupStrobe ++ f.setupAck)).output = false
  setupRes : ∀ output high, ((f.pin .res).run ⟨output, high⟩
    (f.tristateReset ++ f.setupStrobe ++ f.setupAck)).output = false
  read : ∀ pins (i : Fin 8), (f.read pins).getLsbD i =
    (pins (f.pin (.data i)).port).getLsbD (f.pin (.data i)).bit
  readAck : ∀ pins, f.readAck pins = f.ackByte ((pins (f.pin .pa2).port).getLsbD (f.pin .pa2).bit)
  heard : f.heard f.acked = true
  unheard : f.heard f.unacked = false

/-! ## What is seen of assignments -/

section Assignments

variable {f : Firmware} {as : List Assign} {s : Registers} {p q : Port}

/-- The registers and the level hold the port. -/
structure Related (f : Firmware) (s : State) (p : Port) : Prop where
  holds : Holds f p s.regs
  last : s.last = f.ackByte p.last

theorem Holds.level (h : Holds f p s) (i : Fin 8) :
    (s.bits (f.pin (.data i))).level = p.lines i := by
  rw [h.data i]
  rfl

theorem Acts.holds {on : Fin 8 → Bits → Bits} (h : Acts f as on) (hs : Holds f p s)
    (hon : ∀ i : Fin 8, on i ⟨p.driving, p.data.getLsbD i⟩ = ⟨q.driving, q.data.getLsbD i⟩) :
    Holds f q (exec s as) where
  data i := by rw [Pin.bits_run, hs.data i, h.data, hon]
  flag := by rw [Pin.bits_run, hs.flag, h.flag]
  pa2 := by rw [Pin.bits_run, Bits.eq_released hs.pa2, h.pa2]
  res := by rw [Pin.bits_run, Bits.eq_released hs.res, h.res]

theorem Falls.of_holds {strobes resets : Nat} (h : Falls f as strobes resets) (hs : Holds f p s) :
    (f.pin .flag).falls (s.bits (f.pin .flag)) as = strobes ∧
      (f.pin .res).falls (s.bits (f.pin .res)) as = resets := by
  rw [hs.flag, Bits.eq_released hs.res]
  exact ⟨h.flag, h.res _⟩

/-- Assignments that do not strobe show the falls of RES. -/
theorem watch_quiet (s : Registers) (as : List Assign)
    (hflag : (f.pin .flag).falls (s.bits (f.pin .flag)) as = 0) :
    watch f.look s as = List.replicate ((f.pin .res).falls (s.bits (f.pin .res)) as) .reset := by
  induction as generalizing s with
  | nil => rfl
  | cons a as ih =>
    rw [Pin.falls, Nat.add_eq_zero_iff, ← bits_exec] at hflag
    have hquiet : (s.bits (f.pin .flag)).falls (Registers.bits (a.exec s) (f.pin .flag)) = false :=
      Bool.toNat_eq_zero.1 hflag.1
    rw [watch, Pin.falls, ← bits_exec, List.replicate_add, ← ih _ hflag.2, Firmware.look, hquiet]
    cases (s.bits (f.pin .res)).falls (Registers.bits (a.exec s) (f.pin .res)) <;> rfl

/-- Assignments that leave the data lines and RES alone show the data lines whenever FLAG falls. -/
theorem watch_still (lines : Lines) (s : Registers) (as : List Assign)
    (hlines : ∀ i, (s.bits (f.pin (.data i))).level = lines i)
    (hstill : ∀ i, (f.pin (.data i)).still (s.bits (f.pin (.data i))) as = true)
    (hres : (f.pin .res).falls (s.bits (f.pin .res)) as = 0) :
    watch f.look s as =
      List.replicate ((f.pin .flag).falls (s.bits (f.pin .flag)) as) (.strobe lines) := by
  induction as generalizing s with
  | nil => rfl
  | cons a as ih =>
    rw [Pin.falls, Nat.add_eq_zero_iff, ← bits_exec] at hres
    have hquiet : (s.bits (f.pin .res)).falls (Registers.bits (a.exec s) (f.pin .res)) = false :=
      Bool.toNat_eq_zero.1 hres.1
    have hsame : ∀ i, Registers.bits (a.exec s) (f.pin (.data i)) = s.bits (f.pin (.data i)) :=
      fun i => (bits_exec ..).trans (Pin.step_of_still _ (hstill i)).1
    have hshown : (fun i => (Registers.bits (a.exec s) (f.pin (.data i))).level) = lines :=
      funext fun i => by rw [hsame, hlines]
    have hrest := ih (a.exec s) (fun i => by rw [hsame, hlines])
      (fun i => by rw [hsame]; exact (Pin.step_of_still _ (hstill i)).2) hres.2
    rw [watch, Pin.falls, ← bits_exec, List.replicate_add, ← hrest, Firmware.look, hquiet, hshown]
    cases (s.bits (f.pin .flag)).falls (Registers.bits (a.exec s) (f.pin .flag)) <;> rfl

end Assignments

/-! ## One command -/

section Commands

variable {f : Firmware} {s : State} {p : Port}

/-- The same is seen, and the port is held afterwards. -/
def Same (f : Firmware) (x : State × List Event) (y : Port × List Event) : Prop :=
  Related f x.1 y.1 ∧ x.2 = y.2

theorem does_quiet (h : Related f s p) {q : Port} {as : List Assign} {on : Fin 8 → Bits → Bits}
    {resets : Nat} (hacts : Acts f as on) (hfalls : Falls f as 0 resets)
    (hon : ∀ i : Fin 8, on i ⟨p.driving, p.data.getLsbD i⟩ = ⟨q.driving, q.data.getLsbD i⟩)
    (hlast : q.last = p.last) : Same f (f.does s as) (q, List.replicate resets .reset) := by
  obtain ⟨hflag, hres⟩ := hfalls.of_holds h.holds
  refine ⟨⟨hacts.holds h.holds hon, ?_⟩, ?_⟩
  · rw [hlast]
    exact h.last
  · show watch f.look s.regs as = _
    rw [watch_quiet _ _ hflag, hres]

theorem ackByte_inj {a b : Bool} : f.ackByte a = f.ackByte b ↔ a = b := by
  have hne : BitVec.twoPow 8 (f.pin .pa2).bit ≠ 0#8 := by
    intro h
    have := congrArg (·.getLsbD (f.pin .pa2).bit) h
    simp at this
  cases a <;> cases b <;> simp [Firmware.ackByte, hne, hne.symm]

/-- The pull-ups of `Input`. -/
theorem getLsbD_released : ∀ i : Fin 8, (0xff#8 : Byte).getLsbD i = true := by decide

theorem Port.doesAll_append (p : Port) (es rest : List Serial.Event) :
    p.doesAll (es ++ rest) = (((p.doesAll es).1.doesAll rest).1,
      (p.doesAll es).2 ++ ((p.doesAll es).1.doesAll rest).2) := by
  induction es generalizing p with
  | nil => rfl
  | cons e es ih => simp only [List.cons_append, Port.doesAll, ih, List.append_assoc]

/-- A transfer that begins with some more events. -/
theorem same_after (p : Port) (es : List Serial.Event) (answer : List Byte)
    {x : Option (State × List Event)} {y : Option Serial.Transfer}
    (h : Option.Rel (Same f) x (y.map fun t => (p.doesAll es).1.doesAll t.events)) :
    Option.Rel (Same f) (x.map fun r => (r.1, (p.doesAll es).2 ++ r.2))
      ((y.map (Serial.Transfer.after es answer)).map fun t => p.doesAll t.events) := by
  cases x with
  | none =>
    cases y with
    | none => exact .none
    | some t => cases h
  | some r =>
    cases y with
    | none => cases h
    | some t =>
      cases h with
      | some hsame =>
        obtain ⟨hrel, hseen⟩ := hsame
        refine .some ?_
        show Same f _ (p.doesAll (es ++ t.events))
        rw [p.doesAll_append]
        exact ⟨hrel, congrArg (_ ++ ·) hseen⟩

/-- PA2 has another level than the remembered one, and is remembered. -/
theorem Related.acked (h : Related f s p) {pin : Bool} (hpin : pin = !p.last) :
    Related f { s with last := f.ackByte pin } { p with last := !p.last } :=
  ⟨⟨h.holds.data, h.holds.flag, h.holds.pa2, h.holds.res⟩, by rw [hpin]⟩

/-- What comes of a wait, as the firmware has it. -/
def Firmware.answered (f : Firmware) : Serial.Answer → Option Byte
  | .acked pin => some (f.ackByte pin)
  | .timedOut => none

variable (hf : Wired f)
include hf

/-- What is read is what the port sees. -/
theorem Holds.read {s : Registers} (h : Holds f p s) (outside : Outside) :
    f.read (s.pins outside) = p.sees (f.view outside) := by
  apply BitVec.eq_of_getLsbD_eq
  intro i hi
  have hbit := hf.read (s.pins outside) ⟨i, hi⟩
  rw [Registers.getLsbD_pins, h.level] at hbit
  rw [hbit, Port.lines, Port.sees]
  split
  next => rfl
  next => exact (f.getLsbD_view outside ⟨i, hi⟩).symm

theorem readAck_view {s : Registers} (h : (s.bits (f.pin .pa2)).output = false)
    (outside : Outside) : f.readAck (s.pins outside) = f.ackByte (f.view outside).pa2 := by
  rw [hf.readAck, Registers.getLsbD_pins, Bits.level, h]
  rfl

theorem wait_eq (h : Related f s p) (timeout : Uint) (looks : Nat → List (Look Outside)) (i : Nat) :
    f.wait s timeout (looks i) =
      (Serial.waitAck p.last timeout (Port.rounds (fun i => (looks i).map (Look.map f.view)) i)).map
        f.answered := by
  rw [Firmware.wait, Serial.waitAck, Port.rounds, List.map_map, List.findSome?_map,
    List.map_findSome?]
  congr 1
  funext l
  rw [readAck_view hf h.holds.pa2, h.last]
  show _ = Option.map f.answered (Serial.Poll.answer p.last timeout ⟨(f.view l.outside).pa2, _⟩)
  rw [Serial.Poll.answer, Look.map]
  by_cases hlate : 0 < timeout ∧ timeout ≤ l.elapsed.setWidth 32
  · rw [if_pos hlate, if_pos hlate]
    rfl
  rw [if_neg hlate, if_neg hlate]
  by_cases hsame : (f.view l.outside).pa2 = p.last
  · rw [if_neg (not_not_intro (ackByte_inj.2 hsame)), if_neg (not_not_intro hsame)]
    rfl
  · rw [if_pos (mt ackByte_inj.1 hsame), if_pos hsame]
    rfl

/-- A wait of the firmware ends as that of the port does, and if it is acknowledged, with the
level that is not remembered. -/
theorem wait_cases (h : Related f s p) (timeout : Uint) (looks : Nat → List (Look Outside))
    (i : Nat) {answer : Option Serial.Answer}
    (hanswer : Serial.waitAck p.last timeout
      (Port.rounds (fun i => (looks i).map (Look.map f.view)) i) = answer) :
    (f.wait s timeout (looks i) = none ∧ answer = none) ∨
    (f.wait s timeout (looks i) = some none ∧ answer = some .timedOut) ∨
    (f.wait s timeout (looks i) = some (some (f.ackByte (!p.last))) ∧
      answer = some (.acked (!p.last))) := by
  rw [wait_eq hf h, hanswer]
  cases answer with
  | none => exact .inl ⟨rfl, rfl⟩
  | some answer =>
    cases answer with
    | timedOut => exact .inr (.inl ⟨rfl, rfl⟩)
    | acked pin =>
      obtain rfl : pin = !p.last := Serial.waitAck_acked hanswer
      exact .inr (.inr ⟨rfl, rfl⟩)

theorem does_strobe (h : Related f s p) : Same f (f.does s f.strobe) (p, [.strobe p.lines]) := by
  obtain ⟨hflag, hres⟩ := hf.strobes.of_holds h.holds
  refine ⟨⟨hf.strobe.holds h.holds fun _ => rfl, h.last⟩, ?_⟩
  have hstill (i : Fin 8) :
      (f.pin (.data i)).still (s.regs.bits (f.pin (.data i))) f.strobe = true := by
    rw [h.holds.data]
    exact hf.still i _ _
  show watch f.look s.regs f.strobe = _
  rw [watch_still p.lines _ _ h.holds.level hstill hres, hflag]
  rfl

theorem does_write (h : Related f s p) (b : Byte) :
    Same f (f.does s (f.write b)) ({ p with data := b }, []) :=
  does_quiet h (hf.write b) (hf.writes b) (fun _ => rfl) rfl

/-- A byte that is written and strobed. -/
theorem does_write_strobe (h : Related f s p) (b : Byte) :
    Same f (f.does s (f.write b ++ f.strobe))
      ({ p with data := b }, [.strobe { p with data := b }.lines]) := by
  obtain ⟨hrel, hquiet⟩ := does_write hf h b
  obtain ⟨hrel', hstrobe⟩ := does_strobe hf hrel
  have hexec : (f.does s (f.write b ++ f.strobe)).1 =
      (f.does (f.does s (f.write b)).1 f.strobe).1 := by
    simp only [Firmware.does, exec_append]
  refine ⟨hexec ▸ hrel', ?_⟩
  show watch f.look s.regs (f.write b ++ f.strobe) = _
  rw [watch_append]
  exact (congrArg₂ (· ++ ·) hquiet hstrobe :)

/-- `Send` of any number of bytes, by induction on what is left. -/
theorem sendFrom_same (size timeout : Uint) (looks : Nat → List (Look Outside)) (left i : Nat)
    (bytes : List Byte) (h : Related f s p) :
    Option.Rel (Same f) (f.sendFrom timeout looks left i s bytes)
      ((Serial.sendFrom timeout (Port.rounds fun i => (looks i).map (Look.map f.view)) size left i
        p.last bytes).map fun t => p.doesAll t.events) := by
  induction left generalizing i s p bytes with
  | zero => exact .some ⟨h, rfl⟩
  | succ left ih =>
    cases bytes with
    | nil => exact .none
    | cons b bytes =>
      obtain ⟨hrel, hseen⟩ := does_write_strobe hf h b
      rw [Firmware.sendFrom, Serial.sendFrom]
      rcases wait_cases hf hrel timeout looks i rfl with ⟨hwait, hanswer⟩ | ⟨hwait, hanswer⟩ |
        ⟨hwait, hanswer⟩
      · simp only [hwait, hanswer]
        exact .none
      · simp only [hwait, hanswer, hseen]
        exact .some ⟨hrel, rfl⟩
      · have hrest := ih (i + 1) bytes (hrel.acked rfl)
        have hafter := same_after p [.wrote b, .strobe, .acked] [] hrest
        simp only [hwait, hanswer, hseen]
        exact hafter

theorem receiveFrom_same (size timeout : Uint) (looks : Nat → List (Look Outside))
    (outside : Nat → Outside) (left i : Nat) (h : Related f s p) :
    Option.Rel (Same f) (f.receiveFrom timeout looks outside left i s)
      ((Serial.receiveFrom timeout (Port.rounds fun i => (looks i).map (Look.map f.view))
        (fun i => p.sees (f.view (outside i))) size left i p.last).map
          fun t => p.doesAll t.events) := by
  induction left generalizing i s p with
  | zero => exact .some ⟨h, rfl⟩
  | succ left ih =>
    rw [Firmware.receiveFrom, Serial.receiveFrom]
    rcases wait_cases hf h timeout looks i rfl with ⟨hwait, hanswer⟩ | ⟨hwait, hanswer⟩ |
      ⟨hwait, hanswer⟩
    · simp only [hwait, hanswer]
      exact .none
    · simp only [hwait, hanswer]
      exact .some ⟨h, rfl⟩
    · obtain ⟨hrel, hseen⟩ := does_strobe hf (h.acked rfl)
      have hafter := same_after p [.acked, .read (p.sees (f.view (outside i))), .strobe]
        [p.sees (f.view (outside i))] (ih (i + 1) hrel)
      simp only [hwait, hanswer, h.holds.read hf, hseen]
      exact hafter

/-- The firmware and the port take a command alike. -/
theorem step_same (h : Related f s p) (c : Command Outside) :
    Option.Rel (Same f) (f.step s c) (p.step (c.map f.view)) := by
  cases c with
  | reset => exact .some (does_quiet h hf.reset hf.resets (fun _ => rfl) rfl)
  | strobe => exact .some (does_strobe hf h)
  | acked outside =>
    have hcurrent := readAck_view hf h.holds.pa2 outside
    show Option.Rel (Same f) (some (f.ack s outside)) (p.step (.acked (f.view outside)))
    rw [Firmware.ack, Port.step, hcurrent, h.last]
    by_cases hsame : p.last = (f.view outside).pa2
    · rw [if_neg (not_not_intro (ackByte_inj.2 hsame)), if_neg (not_not_intro hsame), hf.unheard]
      exact .some ⟨h, rfl⟩
    · rw [if_pos (mt ackByte_inj.1 hsame), if_pos hsame, hf.heard]
      exact .some ⟨⟨⟨h.holds.data, h.holds.flag, h.holds.pa2, h.holds.res⟩, rfl⟩, rfl⟩
  | input =>
    refine .some (does_quiet h hf.input hf.inputs (fun i => ?_) rfl)
    rw [getLsbD_released]
  | output => exact .some (does_quiet h hf.output hf.outputs (fun _ => rfl) rfl)
  | read outside => exact .some ⟨h, by rw [h.holds.read hf]⟩
  | write b => exact .some (does_write hf h b)
  | send size timeout bytes looks => exact sendFrom_same hf size timeout looks _ _ bytes h
  | receive size timeout looks outside => exact receiveFrom_same hf size timeout looks outside _ _ h

/-- `SetupHardware`, whatever the registers were. -/
theorem setup_related (s : Registers) (outside : Outside) :
    Related f (f.setupHardware s outside) (.init (f.view outside)) := by
  have hrun := fun q : Pin => q.bits_run s (f.tristateReset ++ f.setupStrobe ++ f.setupAck)
  rw [Firmware.setupHardware, Port.init]
  generalize exec s (f.tristateReset ++ f.setupStrobe ++ f.setupAck) = t at hrun ⊢
  have hpa2 : (t.bits (f.pin .pa2)).output = false := by rw [hrun]; exact hf.setupPa2 _ _
  have hres : (t.bits (f.pin .res)).output = false := by rw [hrun]; exact hf.setupRes _ _
  have hflag : t.bits (f.pin .flag) = ⟨true, true⟩ := by rw [hrun]; exact hf.setupFlag _ _
  refine ⟨⟨fun i => ?_, ?_, ?_, ?_⟩, readAck_view hf hpa2 outside⟩
  · rw [Pin.bits_run, getLsbD_released]
    exact hf.input.data i _ _
  · rw [Pin.bits_run, hflag, hf.input.flag]
  · rw [Pin.bits_run, Bits.eq_released hpa2, hf.input.pa2]
  · rw [Pin.bits_run, Bits.eq_released hres, hf.input.res]

end Commands

/-! ## The two boards -/

theorem acts_servant64_write (b : Byte) :
    Acts servant64 (Servant64.write b) fun i x => ⟨x.output, b.getLsbD i⟩ where
  data i output high := by
    fin_cases i <;>
      simp [servant64, Servant64.pin, Servant64.write, Pin.run, Pin.step, Assign.bitOf,
        Assign.target, Assign.bit]
  flag := by
    simp [servant64, Servant64.pin, Servant64.write, Pin.run, Pin.step, Assign.bitOf,
      Assign.target, Assign.bit]
  pa2 high := by
    simp [servant64, Servant64.pin, Servant64.write, Pin.run, Pin.step, Assign.bitOf,
      Assign.target, Assign.bit]
  res high := by
    simp [servant64, Servant64.pin, Servant64.write, Pin.run, Pin.step, Assign.bitOf,
      Assign.target, Assign.bit]

theorem servant64_wired : Wired servant64 where
  reset := ⟨by decide, by decide, by decide, by decide⟩
  resets := ⟨by decide, by decide⟩
  strobe := ⟨by decide, by decide, by decide, by decide⟩
  strobes := ⟨by decide, by decide⟩
  still := by decide
  input := ⟨by decide, by decide, by decide, by decide⟩
  inputs := ⟨by decide, by decide⟩
  output := ⟨by decide, by decide, by decide, by decide⟩
  outputs := ⟨by decide, by decide⟩
  write := acts_servant64_write
  writes b := by
    constructor <;>
      simp [servant64, Servant64.pin, Servant64.write, Pin.falls, Bits.falls, Bits.level, Pin.step,
        Assign.bitOf, Assign.target, Assign.bit]
  setupFlag := by decide
  setupPa2 := by decide
  setupRes := by decide
  read pins i := by
    fin_cases i <;> simp [servant64, Servant64.pin, Servant64.read]
  readAck pins := BitVec.and_twoPow (pins .d) 3
  heard := by decide
  unheard := by decide

theorem at90usb162_wired : Wired at90usb162 where
  reset := ⟨by decide, by decide, by decide, by decide⟩
  resets := ⟨by decide, by decide⟩
  strobe := ⟨by decide, by decide, by decide, by decide⟩
  strobes := ⟨by decide, by decide⟩
  still := by decide
  input := ⟨by decide, by decide, by decide, by decide⟩
  inputs := ⟨by decide, by decide⟩
  output := ⟨by decide, by decide, by decide, by decide⟩
  outputs := ⟨by decide, by decide⟩
  write b := ⟨fun _ _ _ => rfl, rfl, fun _ => rfl, fun _ => rfl⟩
  writes b := ⟨rfl, fun high => by cases high <;> rfl⟩
  setupFlag := by decide
  setupPa2 := by decide
  setupRes := by decide
  read pins i := rfl
  readAck pins := BitVec.and_twoPow (pins .b) 2
  heard := by decide
  unheard := by decide

/-! ## Whole runs -/

/-- What is seen of some commands after the firmware has been set up; `none` while it waits. -/
def Firmware.session (f : Firmware) (s : Registers) (outside : Outside)
    (commands : List (Command Outside)) : Option (List Event) :=
  Transition.trace f.step (f.setupHardware s outside) commands

def Port.session (v : View) (commands : List (Command View)) : Option (List Event) :=
  Transition.trace Port.step (.init v) commands

/-- A run of a firmware is the run of the port, step by step. -/
theorem session_eq {f : Firmware} (hf : Wired f) (s : Registers) (outside : Outside)
    (commands : List (Command Outside)) : f.session s outside commands =
      Port.session (f.view outside) (commands.map (Command.map f.view)) := by
  have hstep (s : State) (p : Port) (c : Command Outside) (h : Related f s p) :=
    step_same hf h c
  exact Transition.trace_eq hstep (setup_related hf s outside) commands

inductive Chip where
  | servant64
  | at90usb162
  deriving DecidableEq, Repr

def Chip.firmware : Chip → Firmware
  | servant64 => Board.servant64
  | at90usb162 => Board.at90usb162

theorem Chip.wired : ∀ chip : Chip, Wired chip.firmware
  | servant64 => servant64_wired
  | at90usb162 => at90usb162_wired

/-- Either firmware is the port: whatever its registers held when it started and whatever is
outside, the Commodore and the host see of every run of commands what they see of the port. -/
theorem firmwares_are_the_port (chip : Chip) (s : Registers) (outside : Outside)
    (commands : List (Command Outside)) :
    chip.firmware.session s outside commands =
      Port.session (chip.firmware.view outside)
        (commands.map (Command.map chip.firmware.view)) :=
  session_eq chip.wired s outside commands

end Xlink.Board

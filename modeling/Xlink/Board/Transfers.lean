import Xlink.Board.Port

/-!
# What is seen of a transfer

A send shows the Commodore a byte at every fall of FLAG, and a receive takes a byte and asks for
the next, in order, until the transfer is done or a wait times out. This is so for every transfer of
a run, whatever has been done before, as long as the port is turned the right way (`driven`). The
firmware does not check that, and nothing is said about a send with the lines released or a receive
with the lines driven. The proofs are about `Port`; that its runs are those of both firmwares is
`session_eq`.
-/

namespace Xlink.Board

open Avr
open Word (Byte)
open Serial (Uint Poll)

/-- FLAG falls while the byte is on the data lines. -/
def shown (b : Byte) : Event := .strobe fun i => some (b.getLsbD i)

/-- A byte is read, and FLAG falls while the data lines are released. -/
def taken (b : Byte) : List Event := [.read b, .strobe fun _ => none]

/-- What is seen of a send: all the bytes, or those up to the one that timed out. -/
inductive Sent (size : Nat) (bytes : List Byte) : List Event → Prop where
  | done (h : size ≤ bytes.length) : Sent size bytes ((bytes.take size).map shown)
  | timedOut (k : Nat) (hk : k < size) (h : k < bytes.length) :
    Sent size bytes ((bytes.take (k + 1)).map shown ++ [.timedOut])

/-- What is seen of a receive of `data` from `i` on: all the bytes, or those before the one that
timed out. -/
inductive Received (i size : Nat) (data : Nat → Byte) : List Event → Prop where
  | done : Received i size data ((List.range' i size).flatMap fun i => taken (data i))
  | timedOut (k : Nat) (hk : k < size) :
    Received i size data (((List.range' i k).flatMap fun i => taken (data i)) ++ [.timedOut])

/-- Whether the data lines are driven after a command. -/
def Command.driving {ω : Type*} (driven : Bool) : Command ω → Bool
  | .input => false
  | .output => true
  | _ => driven

/-- Whether a firmware drives the data lines after some commands. It starts with the lines released,
and the last turn of the port decides. -/
def driven {ω : Type*} (commands : List (Command ω)) : Bool :=
  commands.foldl Command.driving false

section Transfers

variable {timeout size : Uint} {polls : Nat → List Poll} {left i : Nat} {last : Bool}
  {bytes : List Byte} {t : Serial.Transfer} {p : Port}

theorem Port.strobe_driving (h : p.driving = true) : Event.strobe p.lines = shown p.data :=
  congrArg Event.strobe (funext fun _ => if_pos h)

theorem Port.strobe_released (h : p.driving = false) :
    Event.strobe p.lines = .strobe fun _ => none :=
  congrArg Event.strobe (funext fun _ => if_neg (by rw [h]; decide))

theorem Sent.cons {b : Byte} {seen : List Event} (h : Sent left bytes seen) :
    Sent (left + 1) (b :: bytes) (shown b :: seen) := by
  cases h with
  | done h => exact .done (Nat.succ_le_succ h)
  | timedOut k hk h => exact .timedOut (k + 1) (Nat.succ_lt_succ hk) (Nat.succ_lt_succ h)

theorem Received.cons {data : Nat → Byte} {seen : List Event}
    (h : Received (i + 1) left data seen) :
    Received i (left + 1) data (taken (data i) ++ seen) := by
  cases h with
  | done => exact .done
  | timedOut k hk => exact .timedOut (k + 1) (Nat.succ_lt_succ hk)

/-- Every byte of a send is on the data lines when FLAG falls. -/
theorem doesAll_sendFrom (hdriving : p.driving = true)
    (h : Serial.sendFrom timeout polls size left i last bytes = some t) :
    Sent left bytes (p.doesAll t.events).2 := by
  induction left generalizing i last bytes t p with
  | zero =>
    cases h
    exact .done (Nat.zero_le _)
  | succ left ih =>
    cases bytes with
    | nil => cases h
    | cons b bytes =>
      rw [Serial.sendFrom] at h
      have hb : Event.strobe (Port.lines { p with data := b }) = shown b :=
        Port.strobe_driving hdriving
      cases hanswer : Serial.waitAck last timeout (polls i) with
      | none =>
        rw [hanswer] at h
        cases h
      | some answer =>
        rw [hanswer] at h
        cases answer with
        | timedOut =>
          cases h
          show Sent (left + 1) (b :: bytes) [.strobe (Port.lines { p with data := b }), .timedOut]
          rw [hb]
          exact .timedOut 0 (Nat.succ_pos left) (Nat.succ_pos _)
        | acked pin =>
          obtain ⟨rest, hrest, rfl⟩ := Option.map_eq_some_iff.1 h
          have hdriving' : Port.driving { p with data := b, last := !p.last } = true := hdriving
          show Sent (left + 1) (b :: bytes) (.strobe (Port.lines { p with data := b }) :: _)
          rw [hb]
          exact (ih hdriving' hrest).cons

/-- A receive on released lines takes what is on them. -/
theorem doesAll_receiveFrom {data : Nat → Byte} (hdriving : p.driving = false)
    (h : Serial.receiveFrom timeout polls data size left i last = some t) :
    Received i left data (p.doesAll t.events).2 := by
  induction left generalizing i last t p with
  | zero =>
    cases h
    exact .done
  | succ left ih =>
    rw [Serial.receiveFrom] at h
    cases hanswer : Serial.waitAck last timeout (polls i) with
    | none =>
      rw [hanswer] at h
      cases h
    | some answer =>
      rw [hanswer] at h
      cases answer with
      | timedOut =>
        cases h
        exact .timedOut 0 (Nat.succ_pos left)
      | acked pin =>
        obtain ⟨rest, hrest, rfl⟩ := Option.map_eq_some_iff.1 h
        have hdriving' : Port.driving { p with last := !p.last } = false := hdriving
        show Received i (left + 1) data
          ([.read (data i), .strobe (Port.lines { p with last := !p.last })] ++ _)
        rw [Port.strobe_released hdriving']
        exact (ih hdriving' hrest).cons

/-- A send whose clock goes on ends. -/
theorem sendFrom_isSome (htimeout : 0 < timeout)
    (hlate : ∀ i, ∃ poll ∈ polls i, timeout ≤ poll.elapsed.setWidth 32)
    (hbytes : left ≤ bytes.length) :
    ∃ t, Serial.sendFrom timeout polls size left i last bytes = some t := by
  induction left generalizing i last bytes with
  | zero => exact ⟨_, rfl⟩
  | succ left ih =>
    cases bytes with
    | nil => exact absurd hbytes (Nat.not_succ_le_zero left)
    | cons b bytes =>
      obtain ⟨answer, hanswer⟩ : ∃ answer, Serial.waitAck last timeout (polls i) = some answer :=
        Serial.waitAck_isSome htimeout (hlate i)
      rw [Serial.sendFrom, hanswer]
      cases answer with
      | timedOut => exact ⟨_, rfl⟩
      | acked pin =>
        obtain ⟨t, ht⟩ := @ih (i + 1) pin bytes (Nat.le_of_succ_le_succ hbytes)
        exact ⟨_, congrArg (Option.map _) ht⟩

theorem receiveFrom_isSome {data : Nat → Byte} (htimeout : 0 < timeout)
    (hlate : ∀ i, ∃ poll ∈ polls i, timeout ≤ poll.elapsed.setWidth 32) :
    ∃ t, Serial.receiveFrom timeout polls data size left i last = some t := by
  induction left generalizing i last with
  | zero => exact ⟨_, rfl⟩
  | succ left ih =>
    obtain ⟨answer, hanswer⟩ : ∃ answer, Serial.waitAck last timeout (polls i) = some answer :=
      Serial.waitAck_isSome htimeout (hlate i)
    rw [Serial.receiveFrom, hanswer]
    cases answer with
    | timedOut => exact ⟨_, rfl⟩
    | acked pin =>
      obtain ⟨t, ht⟩ := @ih (i + 1) pin
      exact ⟨_, congrArg (Option.map _) ht⟩

end Transfers

/-! ## In a run -/

section Runs

variable (chip : Chip) (s : Registers) (outside : Outside) (commands : List (Command Outside))
  {before : List Event}

theorem Port.driving_doesAll (p : Port) (es : List Serial.Event) :
    (p.doesAll es).1.driving = p.driving := by
  induction es generalizing p with
  | nil => rfl
  | cons e es ih =>
    have hone : (p.does e).1.driving = p.driving := by
      cases e <;> rfl
    exact (ih (p.does e).1).trans hone

/-- Transfers and single bytes leave the port turned as it is. -/
theorem Port.driving_step (p : Port) (c : Command View) (r : Port × List Event)
    (h : p.step c = some r) : r.1.driving = c.driving p.driving := by
  cases c with
  | acked v =>
    rw [Port.step] at h
    split at h <;> cases h <;> rfl
  | send size timeout bytes looks =>
    obtain ⟨t, -, rfl⟩ := Option.map_eq_some_iff.1 h
    exact p.driving_doesAll t.events
  | receive size timeout looks outside =>
    obtain ⟨t, -, rfl⟩ := Option.map_eq_some_iff.1 h
    exact p.driving_doesAll t.events
  | _ =>
    cases h
    rfl

theorem driven_map {ω ω' : Type*} (f : ω → ω') (commands : List (Command ω)) :
    driven (commands.map (Command.map f)) = driven commands := by
  have hmap : (fun (d : Bool) (c : Command ω) => (c.map f).driving d) = Command.driving :=
    funext fun d => funext fun c => by cases c <;> rfl
  rw [driven, List.foldl_map, hmap, driven]

/-- What is seen of a run that goes on with one more command. -/
theorem session_append (hbefore : chip.firmware.session s outside commands = some before) :
    ∃ p : Port, p.driving = driven commands ∧ ∀ c,
      chip.firmware.session s outside (commands ++ [c]) =
        (p.step (c.map chip.firmware.view)).map fun r => before ++ r.2 := by
  rw [session_eq chip.wired] at hbefore
  obtain ⟨p, hdriving, hp⟩ := Transition.trace_append Port.driving_step hbefore
  refine ⟨p, hdriving.trans (driven_map _ _), fun c => ?_⟩
  rw [session_eq chip.wired, List.map_append, Port.session, hp, List.map_singleton,
    Transition.trace]
  cases p.step (c.map chip.firmware.view) with
  | none => rfl
  | some r => exact congrArg (fun seen => some (before ++ seen)) (List.append_nil _)

variable (size timeout : Uint) (looks : Nat → List (Look Outside))

variable {timeout looks} in
theorem rounds_late {view : Outside → View}
    (hlate : ∀ i, ∃ l ∈ looks i, timeout ≤ l.elapsed.setWidth 32) (i : Nat) :
    ∃ poll ∈ Port.rounds (fun i => (looks i).map (Look.map view)) i,
      timeout ≤ poll.elapsed.setWidth 32 := by
  obtain ⟨l, hl, hpassed⟩ := hlate i
  exact ⟨_, List.mem_map_of_mem (List.mem_map_of_mem hl), hpassed⟩

/-- A send, after any run that has left the port in output mode: FLAG falls once for each byte of the
payload, in order and with that byte on the data lines, up to the end or to the byte whose wait
timed out; and with a clock that goes on it ends. -/
theorem sends_show (bytes : List Byte)
    (hbefore : chip.firmware.session s outside commands = some before)
    (hout : driven commands = true) :
    (∀ seen, chip.firmware.session s outside
        (commands ++ [.send size timeout bytes looks]) = some seen →
      ∃ rest, seen = before ++ rest ∧ Sent size.toNat bytes rest) ∧
    (0 < timeout → (∀ i, ∃ l ∈ looks i, timeout ≤ l.elapsed.setWidth 32) →
      size.toNat ≤ bytes.length →
      ∃ seen, chip.firmware.session s outside
        (commands ++ [.send size timeout bytes looks]) = some seen) := by
  obtain ⟨p, hdriving, hp⟩ := session_append chip s outside commands hbefore
  rw [hp, Command.map, Port.step, Option.map_map]
  constructor
  · intro seen hseen
    obtain ⟨t, ht, rfl⟩ := Option.map_eq_some_iff.1 hseen
    exact ⟨_, rfl, doesAll_sendFrom (hdriving.trans hout) ht⟩
  · intro htimeout hlate hbytes
    obtain ⟨t, ht⟩ := sendFrom_isSome htimeout (rounds_late hlate) hbytes
    exact ⟨_, congrArg (Option.map _) ht⟩

/-- Everything low but PA2, when it is high. -/
def onlyPa2 (pa2 : Bool) (x : Letter) : Byte := if pa2 ∧ x = .d then Servant64.pinAck else 0x00#8

/-- PA2 is flipped once for each byte. -/
def flips (i : Nat) : List (Look Outside) :=
  [⟨onlyPa2 (i % 2 == 0), 0⟩, ⟨onlyPa2 (i % 2 == 0), 4⟩]

theorem flips_late (i : Nat) : ∃ l ∈ flips i, 4#32 ≤ l.elapsed.setWidth 32 :=
  ⟨_, .tail _ (.head _), BitVec.le_refl (4#32)⟩

/-- Two sends in a row, as a load makes them. -/
theorem sends_show_two : ∃ header payload, servant64.session ⟨0, 0, 0, 0, 0, 0⟩ (onlyPa2 false)
      [.output, .send 2#32 4#32 [0x41#8, 0x42#8] flips, .send 1#32 4#32 [0x43#8] flips] =
        some (header ++ payload) ∧
    Sent 2 [0x41#8, 0x42#8] header ∧ Sent 1 [0x43#8] payload := by
  obtain ⟨hshown, hends⟩ := sends_show .servant64 ⟨0, 0, 0, 0, 0, 0⟩ (onlyPa2 false) [.output] 2#32
    4#32 flips [0x41#8, 0x42#8] rfl rfl
  obtain ⟨seen, hseen⟩ := hends (by decide) flips_late (by decide)
  obtain ⟨header, hseen_eq, hheader⟩ := hshown seen hseen
  rw [hseen_eq] at hseen
  obtain ⟨hshown', hends'⟩ := sends_show .servant64 ⟨0, 0, 0, 0, 0, 0⟩ (onlyPa2 false)
    [.output, .send 2#32 4#32 [0x41#8, 0x42#8] flips] 1#32 4#32 flips [0x43#8] hseen rfl
  obtain ⟨seen', hseen'⟩ := hends' (by decide) flips_late (by decide)
  obtain ⟨payload, hpayload, hsent⟩ := hshown' seen' hseen'
  exact ⟨header, payload, hseen'.trans (congrArg some hpayload), hheader, hsent⟩

/-- A receive, after any run that has left the port in input mode: the host is answered what was on
the data lines each time PA2 had another level, in order, and FLAG falls once after each of these
bytes; and with a clock that goes on it ends. -/
theorem receives_show (moments : Nat → Outside)
    (hbefore : chip.firmware.session s outside commands = some before)
    (hin : driven commands = false) :
    (∀ seen, chip.firmware.session s outside
        (commands ++ [.receive size timeout looks moments]) = some seen →
      ∃ rest, seen = before ++ rest ∧
        Received 0 size.toNat (fun i => (chip.firmware.view (moments i)).lines) rest) ∧
    (0 < timeout → (∀ i, ∃ l ∈ looks i, timeout ≤ l.elapsed.setWidth 32) →
      ∃ seen, chip.firmware.session s outside
        (commands ++ [.receive size timeout looks moments]) = some seen) := by
  obtain ⟨p, hdriving, hp⟩ := session_append chip s outside commands hbefore
  have hreleased : p.driving = false := hdriving.trans hin
  have hsees : ∀ v, p.sees v = v.lines := fun v => if_neg (by rw [hreleased]; decide)
  rw [hp, Command.map, Port.step, Option.map_map]
  simp only [hsees]
  constructor
  · intro seen hseen
    obtain ⟨t, ht, rfl⟩ := Option.map_eq_some_iff.1 hseen
    exact ⟨_, rfl, doesAll_receiveFrom hreleased ht⟩
  · intro htimeout hlate
    obtain ⟨t, ht⟩ := receiveFrom_isSome htimeout (rounds_late hlate)
    exact ⟨_, congrArg (Option.map _) ht⟩

/-- After a byte has been shown the port is turned, then two receives in a row. -/
theorem receives_show_two : ∃ sent first second,
    servant64.session ⟨0, 0, 0, 0, 0, 0⟩ (onlyPa2 false)
      [.output, .write 0x41#8, .strobe, .input, .receive 2#32 4#32 flips fun _ => onlyPa2 true,
        .receive 1#32 4#32 flips fun _ => onlyPa2 true] = some (sent ++ first ++ second) ∧
    Received 0 2 (fun _ => 0x00#8) first ∧ Received 0 1 (fun _ => 0x00#8) second := by
  obtain ⟨hshown, hends⟩ := receives_show .servant64 ⟨0, 0, 0, 0, 0, 0⟩ (onlyPa2 false)
    [.output, .write 0x41#8, .strobe, .input] 2#32 4#32 flips (fun _ => onlyPa2 true) rfl rfl
  obtain ⟨seen, hseen⟩ := hends (by decide) flips_late
  obtain ⟨first, rfl, hfirst⟩ := hshown seen hseen
  obtain ⟨hshown', hends'⟩ := receives_show .servant64 ⟨0, 0, 0, 0, 0, 0⟩ (onlyPa2 false)
    [.output, .write 0x41#8, .strobe, .input, .receive 2#32 4#32 flips fun _ => onlyPa2 true] 1#32
    4#32 flips (fun _ => onlyPa2 true) hseen rfl
  obtain ⟨seen', hseen'⟩ := hends' (by decide) flips_late
  obtain ⟨second, hsecond, hreceived⟩ := hshown' seen' hseen'
  exact ⟨_, first, second, hseen'.trans (congrArg some hsecond), hfirst, hreceived⟩

end Runs

end Xlink.Board

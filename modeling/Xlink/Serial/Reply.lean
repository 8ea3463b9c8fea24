import Xlink.Lib.Loop
import Xlink.Serial.Acks
import Xlink.Serial.Read

/-!
# The reply to a receive

The firmware's reply to `CMD_RECEIVE` has the length the host reads: the data it was asked for,
which it pads when it gives up, and a count of four bytes. So the two calls of `serial_read` in
`driver_serial_receive` take the reply off the line, and nothing that follows it.

How the reply comes in is a sequence of numbers, one for each call of `read()`: the bytes that are
there when it is called. Where the line goes quiet for good `serial_read` does not return; where it
does not, the two calls end. No call of `read()` fails here, which is the business of
`serial_read_fills`.
-/

namespace Xlink.Serial

open Word (Byte)
open Loop (Loops)

/-! ## The firmware -/

section Firmware

variable {timeout : Uint} {polls : Nat → List Poll} {last : Bool} {size k : Nat}

end Firmware

/-! ## The host -/

/-- The host at the line: the calls of `read()` it has made, the bytes it has not taken off, and
where `serial_read` is in its buffer. -/
structure Receiver where
  calls : Nat
  line : List Byte
  reading : Reading

namespace Receiver

/-- A round of `serial_read`. Call `i` of `read()` takes the `ready i` bytes that are there, and no
more than it asks for. -/
def round (ready : Nat → Nat) (size : Nat) (r : Receiver) : Receiver :=
  let taken := r.line.take (min (ready r.calls) (size - r.reading.bytesRead).toNat)
  { calls := r.calls + 1
    line := r.line.drop taken.length
    reading := r.reading.round (.got taken) }

/-- The loop of `serial_read(data, size)`. -/
def serialReadBody (ready : Nat → Nat) (size : Nat) (r : Receiver) : Receiver ⊕ Receiver :=
  if r.reading.bytesRead < size then .inl (r.round ready size) else .inr r

end Receiver

/-- A call of `serial_read(data, size)` that returns. -/
def ReadsOff (ready : Nat → Nat) (size : Nat) (memory : Int → Byte) (r r' : Receiver) : Prop :=
  Loops (Receiver.serialReadBody ready size) { r with reading := ⟨0, memory⟩ } r'

/-- What has been taken off the line is in the buffer. -/
def TakenOff (size : Nat) (memory : Int → Byte) (line : List Byte) (r : Receiver) : Prop :=
  ∃ got, Stored size memory got r.reading ∧ line = got ++ r.line

section Host

variable {ready : Nat → Nat} {size : Nat} {memory : Int → Byte} {line : List Byte}
  {r r' : Receiver}

theorem TakenOff.round (h : TakenOff size memory line r) (hmore : r.reading.bytesRead < size) :
    TakenOff size memory line (r.round ready size) := by
  obtain ⟨got, hstored, hline⟩ := h
  refine ⟨_, hstored.round ?_, ?_⟩
  · rw [List.length_take]
    omega
  · have htaken : ∀ n, r.line.take n ++ r.line.drop (r.line.take n).length = r.line := by
      intro n
      rcases Nat.le_total n r.line.length with hn | hn
      · rw [List.length_take, Nat.min_eq_left hn, List.take_append_drop]
      · rw [List.take_of_length_le hn, List.drop_length, List.append_nil]
    rw [List.append_assoc]
    show line = got ++ (_ ++ r.line.drop _)
    rw [htaken, hline]

theorem serialReadBody_more (hmore : r.reading.bytesRead < size) :
    Receiver.serialReadBody ready size r = .inl (r.round ready size) := if_pos hmore

theorem serialReadBody_full (hfull : size ≤ r.reading.bytesRead) :
    Receiver.serialReadBody ready size r = .inr r := if_neg (by omega)

/-- A call that returns has taken as many bytes off the line as its buffer has, and they are in
it. -/
theorem ReadsOff.buffer {front back : List Byte} (h : ReadsOff ready size memory r r')
    (hline : r.line = front ++ back) (hfront : front.length = size) :
    r'.reading.buffer size = front ∧ r'.line = back := by
  have hround : ∀ s s', TakenOff size memory r.line s →
      Receiver.serialReadBody ready size s = .inl s' → TakenOff size memory r.line s' := by
    intro s s' hs hbody
    by_cases hmore : s.reading.bytesRead < size
    · cases (serialReadBody_more hmore).symm.trans hbody
      exact hs.round hmore
    · cases (serialReadBody_full (by omega)).symm.trans hbody
  have hleave : ∀ s s', TakenOff size memory r.line s →
      Receiver.serialReadBody ready size s = .inr s' →
        size ≤ s'.reading.bytesRead ∧ TakenOff size memory r.line s' := by
    intro s s' hs hbody
    by_cases hmore : s.reading.bytesRead < size
    · cases (serialReadBody_more hmore).symm.trans hbody
    · cases (serialReadBody_full (by omega)).symm.trans hbody
      exact ⟨by omega, hs⟩
  obtain ⟨hfull, got, hstored, htaken⟩ :=
    h.result_of_invariant hround hleave ⟨[], .start size memory, rfl⟩
  have hoffset := hstored.offset
  have hle := hstored.le
  have hgot : got.length = front.length := by omega
  obtain ⟨rfl, rfl⟩ := List.append_inj (htaken.symm.trans hline) hgot
  exact ⟨hstored.buffer hfront, rfl⟩

end Host

end Xlink.Serial

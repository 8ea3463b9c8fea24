import Mathlib.Data.BitVec
import Mathlib.Tactic.Linarith
import Xlink.Lib.Word

/-!
# servant64 and its host

The serial driver `src/driver/serial.c` and the firmware it talks to, `src/driver/servant64`. The
host writes a frame of nine bytes, a command and two words, and for `CMD_SEND` the payload after
it; the firmware reads the frame, runs the command and answers.

This file has the words and frames, the wait of the firmware for the Commodore, and the two
transfers `Send` and `Receive` as functions of the bytes they read from the serial line and of
what they see on the port.
-/

namespace Xlink.Serial

open Word (Byte)

/-- `uint32_t`, and the `int` and `unsigned int` of the host. -/
abbrev Uint := BitVec 32

/-! ## Words -/

/-- The four bytes of a word, `lo`, `hi`, `hlo` and `hhi`: the low byte first. -/
def wordBytes (x : Uint) : List Byte :=
  [x.setWidth 8, (x >>> 8).setWidth 8, (x >>> 16).setWidth 8, (x >>> 24).setWidth 8]

/-- The word that four bytes make. -/
def word (b₀ b₁ b₂ b₃ : Byte) : Uint :=
  b₀.setWidth 32 ||| b₁.setWidth 32 <<< 8 ||| b₂.setWidth 32 <<< 16 ||| b₃.setWidth 32 <<< 24

/-- The count at the end of an answer: `serial_read((uchar*) &count, 4)`. -/
def readCount : List Byte → Option Uint
  | [b₀, b₁, b₂, b₃] => some (word b₀ b₁ b₂ b₃)
  | _ => none

theorem word_bytes (x : Uint) :
    word (x.setWidth 8) ((x >>> 8).setWidth 8) ((x >>> 16).setWidth 8) ((x >>> 24).setWidth 8) =
      x := by
  ext i hi
  simp only [word, BitVec.getElem_or, BitVec.getElem_setWidth, BitVec.getElem_shiftLeft,
    BitVec.getLsbD_setWidth, BitVec.getLsbD_ushiftRight]
  -- the byte that bit `i` is in
  rcases Nat.lt_or_ge i 8 with h | h
  · have h₁₆ : i < 16 := by omega
    have h₂₄ : i < 24 := by omega
    simp [h, h₁₆, h₂₄, BitVec.getLsbD_eq_getElem hi]
  rcases Nat.lt_or_ge i 16 with h | h
  · have h₈ : ¬i < 8 := by omega
    have h₂₄ : i < 24 := by omega
    have hin : i - 8 < 8 := by omega
    have hat : 8 + (i - 8) = i := by omega
    simp [h, h₈, h₂₄, hin, hat, BitVec.getLsbD_eq_getElem hi]
  have h₈ : ¬i < 8 := by omega
  have hfar : ¬i - 8 < 8 := by omega
  have h₁₆ : ¬i < 16 := by omega
  rcases Nat.lt_or_ge i 24 with h' | h'
  · have hin : i - 16 < 8 := by omega
    have hat : 16 + (i - 16) = i := by omega
    simp [h', h₈, hfar, h₁₆, hin, hat, BitVec.getLsbD_eq_getElem hi]
  · have hfarther : ¬i - 16 < 8 := by omega
    have h₂₄ : ¬i < 24 := by omega
    have hin : i - 24 < 8 := by omega
    have hat : 24 + (i - 24) = i := by omega
    simp [h₈, hfar, h₁₆, hfarther, h₂₄, hin, hat, BitVec.getLsbD_eq_getElem hi]

@[simp] theorem length_wordBytes (x : Uint) : (wordBytes x).length = 4 := rfl

@[simp] theorem readCount_wordBytes (x : Uint) : readCount (wordBytes x) = some x := by
  show some _ = some x
  rw [word_bytes]

/-! ## Frames -/

/-- What `main` dispatches on. -/
structure Frame where
  cmd : Byte
  arg1 : Uint
  arg2 : Uint
  deriving DecidableEq, Repr

namespace Frame

/-! `src/driver/protocol.h`. -/

def cmdReset : Byte := 0x01#8
def cmdStrobe : Byte := 0x02#8
def cmdAcked : Byte := 0x03#8
def cmdInput : Byte := 0x04#8
def cmdOutput : Byte := 0x05#8
def cmdRead : Byte := 0x06#8
def cmdWrite : Byte := 0x07#8
def cmdSend : Byte := 0x08#8
def cmdReceive : Byte := 0x09#8

/-- The host's `cmd`: the nine bytes of a frame. -/
def bytes (f : Frame) : List Byte := f.cmd :: (wordBytes f.arg1 ++ wordBytes f.arg2)

/-- The head of the firmware's `main` loop: the frame that nine bytes make. -/
def parse : List Byte → Option Frame
  | [cmd, b₀, b₁, b₂, b₃, c₀, c₁, c₂, c₃] => some ⟨cmd, word b₀ b₁ b₂ b₃, word c₀ c₁ c₂ c₃⟩
  | _ => none

@[simp] theorem length_bytes (f : Frame) : f.bytes.length = 9 := rfl

@[simp] theorem parse_bytes (f : Frame) : parse f.bytes = some f := by
  show some (Frame.mk f.cmd (word _ _ _ _) (word _ _ _ _)) = some f
  rw [word_bytes, word_bytes]

/-- Nine bytes are a frame, and no other number of bytes is. -/
theorem parse_isSome {got : List Byte} : (parse got).isSome = true ↔ got.length = 9 := by
  match got with
  | [] | [_] | [_, _] | [_, _, _] | [_, _, _, _] | [_, _, _, _, _] => simp [parse]
  | [_, _, _, _, _, _] | [_, _, _, _, _, _, _] | [_, _, _, _, _, _, _, _] => simp [parse]
  | [_, _, _, _, _, _, _, _, _] => simp [parse]
  | _ :: _ :: _ :: _ :: _ :: _ :: _ :: _ :: _ :: _ :: _ => simp [parse]

end Frame

/-! ## Waiting for the Commodore -/

/-- One round of a wait: the level at `PIN_ACK`, and the seconds since the timer was reset. -/
structure Poll where
  pin : Bool
  elapsed : BitVec 16
  deriving DecidableEq, Repr

/-- How a wait ends. An acknowledgement is a level other than the remembered one. -/
inductive Answer where
  | acked (pin : Bool)
  | timedOut
  deriving DecidableEq, Repr

/-- What a round decides. The clock is looked at before the level that was read. -/
def Poll.answer (last : Bool) (timeout : Uint) (p : Poll) : Option Answer :=
  if 0 < timeout ∧ timeout ≤ p.elapsed.setWidth 32 then some .timedOut
  else if p.pin ≠ last then some (.acked p.pin)
  else none

/-- `while(current == last)`: the first round that decides. -/
def waitAck (last : Bool) (timeout : Uint) (polls : List Poll) : Option Answer :=
  polls.findSome? (Poll.answer last timeout)

theorem Poll.answer_acked {last pin : Bool} {timeout : Uint} {p : Poll}
    (h : p.answer last timeout = some (.acked pin)) : pin = !last := by
  unfold Poll.answer at h
  split at h
  · cases h
  · split at h
    next hne =>
      cases h
      cases last <;> simpa using hne
    next => cases h

theorem waitAck_acked {last pin : Bool} {timeout : Uint} {polls : List Poll}
    (h : waitAck last timeout polls = some (.acked pin)) : pin = !last := by
  obtain ⟨p, -, hp⟩ := List.exists_of_findSome?_eq_some h
  exact Poll.answer_acked hp

/-- A wait whose clock gets past the timeout ends. -/
theorem waitAck_isSome {last : Bool} {timeout : Uint} {polls : List Poll} (htimeout : 0 < timeout)
    (h : ∃ p ∈ polls, timeout ≤ p.elapsed.setWidth 32) :
    ∃ answer, waitAck last timeout polls = some answer := by
  rw [← Option.isSome_iff_exists, waitAck, List.isSome_findSome?]
  obtain ⟨p, hmem, hlate⟩ := h
  apply List.any_eq_true.mpr
  refine ⟨p, hmem, ?_⟩
  rw [Poll.answer, if_pos ⟨htimeout, hlate⟩]
  rfl

/-! ## The transfers -/

/-- What a transfer does on the port. -/
inductive Event where
  | wrote (b : Byte)
  | read (b : Byte)
  | strobe
  | acked
  | timedOut
  deriving DecidableEq, Repr

/-- A finished transfer: what it did, what it wrote to the serial line, and the level it
remembers. -/
structure Transfer where
  events : List Event
  answer : List Byte
  last : Bool
  deriving DecidableEq, Repr

/-- A transfer that begins with one more byte. -/
def Transfer.after (events : List Event) (answer : List Byte) (t : Transfer) : Transfer :=
  ⟨events ++ t.events, answer ++ t.answer, t.last⟩

/-- `bytesSent = i+1` and `bytesReceived = i+1`. -/
def givenUp (i : Nat) : Uint := BitVec.ofNat 32 (i + 1)

section Transfers

variable (timeout : Uint) (polls : Nat → List Poll)

/-- `Send` from byte `i` on, `left` bytes before its end. The bytes are read from `input`, and
`polls i` are the rounds of the wait for byte `i`. -/
def sendFrom (bytesToSend : Uint) : (left i : Nat) → Bool → List Byte → Option Transfer
  | 0, _, last, _ => some ⟨[], wordBytes bytesToSend, last⟩
  | _ + 1, _, _, [] => none
  | left + 1, i, last, b :: input =>
    match waitAck last timeout (polls i) with
    | none => none
    | some .timedOut => some ⟨[.wrote b, .strobe, .timedOut], wordBytes (givenUp i), last⟩
    | some (.acked pin) =>
      (sendFrom bytesToSend left (i + 1) pin input).map (.after [.wrote b, .strobe, .acked] [])

def send (bytesToSend : Uint) (last : Bool) (input : List Byte) : Option Transfer :=
  sendFrom timeout polls bytesToSend bytesToSend.toNat 0 last input

variable (data : Nat → Byte)

/-- `Receive` from byte `i` on, `left` bytes before its end; `data i` is what it reads from the
port. A transfer that gives up fills the answer with `0xff`. -/
def receiveFrom (bytesToReceive : Uint) : (left i : Nat) → Bool → Option Transfer
  | 0, _, last => some ⟨[], wordBytes bytesToReceive, last⟩
  | left + 1, i, last =>
    match waitAck last timeout (polls i) with
    | none => none
    | some .timedOut =>
      some ⟨[.timedOut], List.replicate (left + 1) 0xff#8 ++ wordBytes (givenUp i), last⟩
    | some (.acked pin) =>
      (receiveFrom bytesToReceive left (i + 1) pin).map
        (.after [.acked, .read (data i), .strobe] [data i])

def receive (bytesToReceive : Uint) (last : Bool) : Option Transfer :=
  receiveFrom timeout polls data bytesToReceive bytesToReceive.toNat 0 last

end Transfers

end Xlink.Serial

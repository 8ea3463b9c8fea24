import Xlink.Host.Chunked
import Xlink.Serial.Count

/-!
# Writing to the serial line

`serial_write` of `src/driver/serial.c` writes in pieces of sixteen bytes and does not look at what
`write()` returns, so that the bytes of a short write are lost. It returns nothing, and `cmd`, which
writes the frames with it, returns true whatever happens. `driver_serial_send` only has the count
that is answered.

`driver_serial_send_tells` is an equivalence over every buffer, every result of every `write()` and
every count that is answered. The answer is an input of the result: that a firmware which has got
too few bytes waits for more, and answers nothing, is not in it (`Aligned`).
-/

namespace Xlink.Serial

open Word (Byte)
open Xlink.Host (Chunked pieces onPieces pieces_more pieces_last sum_pieces chunked_iff)

/-- The transfer, the number of calls of `write()`, and what they put on the line. -/
structure Writing where
  data : Nat
  calls : Nat
  line : List Byte
  deriving DecidableEq, Repr

/-- `write_chunk`: `write()` puts as many bytes of the piece on the line as it returns. -/
def writeChunk (data : List Byte) (results : Nat → Int) (chunk : Nat) (s : Writing) :
    Option (Bool × Writing) :=
  some (true, ⟨s.data + chunk, s.calls + 1,
    s.line ++ ((data.drop s.data).take chunk).take (results s.calls).toNat⟩)

/-- `serial_write`. -/
def SerialWrite (data : List Byte) (results : Nat → Int) (calls : Nat) (line : List Byte)
    (s : Writing) : Prop :=
  ∃ went, Chunked (writeChunk data results) ⟨0, calls, line⟩ 16 data.length (some (went, s))

/-- `cmd` returns `result`. -/
def Cmd (f : Frame) (results : Nat → Int) (calls : Nat) (line : List Byte) (result : Bool)
    (s : Writing) : Prop :=
  SerialWrite f.bytes results calls line s ∧ result = true

/-- `driver_serial_send`: the result of its `cmd`, what is on the line after the frame and after the
data, and its own result for the count `bytesSent` that is answered. -/
structure DriverSerialSend (data : List Byte) (results : Nat → Int) (bytesSent : Uint)
    (sent result : Bool) (frame s : Writing) : Prop where
  cmd : Cmd ⟨Frame.cmdSend, BitVec.ofNat 32 data.length, hostTimeout⟩ results 0 [] sent frame
  write : SerialWrite data results frame.calls frame.line s
  result : result = (bytesSent == BitVec.ofNat 32 data.length)

/-- Who writes can tell: what is reported to be a success is on the line. -/
structure Tells (data : List Byte) (sent result : Bool) (frame s : Writing) : Prop where
  cmd : sent = true →
    frame.line = (Frame.mk Frame.cmdSend (BitVec.ofNat 32 data.length) hostTimeout).bytes
  data : result = true → s.line = frame.line ++ data

/-- Every call of `write()` takes its piece. -/
def Written (results : Nat → Int) (calls size : Nat) : Prop :=
  ∀ i chunk : Nat, (pieces 16 size)[i]? = some chunk → chunk ≤ (results (calls + i)).toNat

/-! ## What is on the line -/

/-- What pieces of the data put on the line. -/
def put (results : Nat → Int) : (calls : Nat) → List Nat → List Byte → List Byte
  | _, [], _ => []
  | calls, chunk :: rest, data =>
    (data.take chunk).take (results calls).toNat ++ put results (calls + 1) rest (data.drop chunk)

section Put

variable {results : Nat → Int} {data : List Byte}

theorem length_put_le (chunks : List Nat) (calls : Nat) (data : List Byte) :
    (put results calls chunks data).length ≤ data.length := by
  induction chunks generalizing calls data with
  | nil => exact Nat.zero_le _
  | cons chunk rest ih =>
    have hrest := ih (calls + 1) (data.drop chunk)
    rw [List.length_drop] at hrest
    rw [put, List.length_append, List.length_take, List.length_take]
    omega

/-- The line has the data when every call takes its piece. -/
theorem put_eq_iff (chunks : List Nat) (calls : Nat) (hsum : chunks.sum = data.length) :
    put results calls chunks data = data ↔
      ∀ i chunk : Nat, chunks[i]? = some chunk → chunk ≤ (results (calls + i)).toNat := by
  induction chunks generalizing calls data with
  | nil =>
    rw [List.sum_nil] at hsum
    obtain rfl := List.length_eq_zero_iff.mp hsum.symm
    simp [put]
  | cons chunk rest ih =>
    rw [List.sum_cons] at hsum
    have hrest : rest.sum = (data.drop chunk).length := by
      rw [List.length_drop]
      omega
    have hback := ih (calls + 1) hrest
    have hsplit : data.take chunk ++ data.drop chunk = data := List.take_append_drop chunk data
    have hpiece : (data.take chunk).length = chunk := by
      rw [List.length_take]
      omega
    constructor
    · intro h
      -- the rest cannot make up for what is missing of the first piece
      have hmost := @length_put_le results rest (calls + 1) (data.drop chunk)
      have hlength := congrArg List.length h
      rw [put, List.length_append, List.length_take, hpiece] at hlength
      rw [List.length_drop] at hmost
      have hfull : chunk ≤ (results calls).toNat := by omega
      have htail : put results (calls + 1) rest (data.drop chunk) = data.drop chunk := by
        rw [put, List.take_of_length_le (by omega)] at h
        exact List.append_cancel_left (h.trans hsplit.symm)
      intro i c hi
      cases i with
      | zero =>
        obtain rfl := Option.some.inj hi
        exact hfull
      | succ i =>
        have := hback.mp htail i c hi
        rwa [Nat.add_right_comm, Nat.add_assoc] at this
    · intro h
      have hfull : chunk ≤ (results calls).toNat := h 0 chunk rfl
      have htail : put results (calls + 1) rest (data.drop chunk) = data.drop chunk := by
        apply hback.mpr
        intro i c hi
        have := h (i + 1) c hi
        rwa [← Nat.add_assoc, Nat.add_right_comm] at this
      rw [put, htail, List.take_of_length_le (by omega), hsplit]

end Put

section Write

variable {data : List Byte} {results : Nat → Int} {calls : Nat} {line : List Byte}

theorem onPieces_writeChunk (chunks : List Nat) (s : Writing) :
    onPieces (writeChunk data results) chunks s = some (true, ⟨s.data + chunks.sum,
      s.calls + chunks.length, s.line ++ put results s.calls chunks (data.drop s.data)⟩) := by
  induction chunks generalizing s with
  | nil =>
    rw [onPieces, put, List.append_nil]
    rfl
  | cons chunk rest ih =>
    rw [onPieces, writeChunk]
    simp only [ih, put, List.sum_cons, List.length_cons, List.append_assoc, List.drop_drop]
    congr 3
    · omega
    · omega

/-- `serial_write` ends, and what it puts on the line is the data when every call takes its piece. -/
theorem serialWrite_iff {s : Writing} : SerialWrite data results calls line s ↔
    s = ⟨data.length, calls + (pieces 16 data.length).length,
      line ++ put results calls (pieces 16 data.length) data⟩ := by
  have hpositive : 0 < 16 := by decide
  simp only [SerialWrite, chunked_iff hpositive, onPieces_writeChunk, sum_pieces hpositive,
    Nat.zero_add, List.drop_zero, Option.some.injEq, Prod.mk.injEq, exists_eq_left]

theorem written_iff : Written results calls data.length ↔
    put results calls (pieces 16 data.length) data = data :=
  (put_eq_iff _ _ (sum_pieces (by decide))).symm

/-- **Who writes can tell when every call of `write()` takes its piece**, or when the frame is on the
line and the count that is answered is not the size; and only then. -/
theorem driver_serial_send_tells (data : List Byte) (results : Nat → Int) (bytesSent : Uint) :
    ∃ sent result frame s, DriverSerialSend data results bytesSent sent result frame s ∧
      (Tells data sent result frame s ↔ Written results 0 9 ∧
        (Written results 1 data.length ∨ bytesSent ≠ BitVec.ofNat 32 data.length)) := by
  generalize hframe :
    (Frame.mk Frame.cmdSend (BitVec.ofNat 32 data.length) hostTimeout) = f
  have hnine : (pieces 16 f.bytes.length).length = 1 := by
    rw [pieces_last (by rw [Frame.length_bytes]; decide)]
    rfl
  refine ⟨true, bytesSent == BitVec.ofNat 32 data.length, _, _,
    ⟨⟨serialWrite_iff.mpr rfl, rfl⟩, serialWrite_iff.mpr rfl, rfl⟩, ?_⟩
  rw [← Frame.length_bytes f, written_iff, hframe, hnine, written_iff]
  constructor
  · intro h
    refine ⟨by simpa [hframe] using h.cmd rfl, ?_⟩
    by_cases heq : bytesSent = BitVec.ofNat 32 data.length
    · left
      have hdata := h.data (by rw [heq]; exact beq_self_eq_true _)
      exact List.append_cancel_left hdata
    · exact .inr heq
  · rintro ⟨hcmd, hdata⟩
    refine ⟨fun _ => by rw [hframe, List.nil_append]; exact hcmd, fun hresult => ?_⟩
    have heq := beq_iff_eq.mp hresult
    rcases hdata with hdata | hne
    · rw [hdata]
    · exact absurd heq hne

/-- A buffer that begins with a frame for four bytes. -/
def frameInside : List Byte :=
  (Frame.mk Frame.cmdReceive 4 hostTimeout).bytes ++ List.replicate 16 0

/-- A port where these four bytes are the count of the buffer. -/
def countPort : Port where
  last := false
  polls i := [⟨i % 2 == 0, 0⟩, ⟨i % 2 == 0, 2⟩]
  data i := if i = 0 then 25 else 0
  clock i := ⟨⟨i % 2 == 0, 2⟩, by simp, Nat.le_refl 2⟩

/-- Of the frame and the two pieces of a buffer, only the first piece gets on the line. The firmware
takes it for a frame, its answer for the count is what the host expects, and the send succeeds. -/
theorem unsent_succeeds : ∃ frame s t,
    DriverSerialSend frameInside (fun i => if i = 1 then 16 else -1) 25 true true frame s ∧
      serve countPort s.line = some t ∧ readCount (t.answer.take 4) = some 25 ∧
      s.line = frameInside.take 16 ∧ ¬Tells frameInside true true frame s := by
  have hpieces : pieces 16 frameInside.length = [16, 9] := by
    show pieces 16 25 = [16, 9]
    rw [pieces_more (by decide) (by decide), pieces_last (by decide)]
  have hnine : pieces 16 9 = [9] := pieces_last (by decide)
  refine ⟨⟨9, 1, []⟩, ⟨25, 3, frameInside.take 16⟩, _, ⟨⟨?_, rfl⟩, ?_, rfl⟩, rfl, rfl, rfl, ?_⟩
  · rw [serialWrite_iff, Frame.length_bytes, hnine]
    rfl
  · rw [serialWrite_iff, hpieces]
    rfl
  · intro h
    have hdata := h.data rfl
    revert hdata
    decide

end Write

end Xlink.Serial

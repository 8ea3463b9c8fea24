import Xlink.Lib.Word

/-!
# Reading from the serial line

`serial_read` of `src/driver/serial.c` adds what `read()` returns to its offset until the buffer is
full. A timeout returns zero; an error returns `-1` and moves the offset back, in front of the
buffer when nothing was stored yet, and over a stored byte otherwise.

`serial_read_fills` says so of every state of every run: without an error the buffer holds the bytes
read so far, in order and at their places, and of a run that has come to its end with an error it is
false. When `read()` returns is not modelled, a timeout may come as often as it likes, and that a
run comes to its end is another matter (`Reply`).
-/

namespace Xlink.Serial

open Word (Byte)

/-- One call of `read()`: the bytes it stores, none at a timeout, or an error. -/
inductive Read where
  | got (bytes : List Byte)
  | failed
  deriving DecidableEq, Repr

namespace Read

/-- What `read()` returns. -/
def result : Read → Int
  | got bytes => bytes.length
  | failed => -1

def bytes : Read → List Byte
  | got bytes => bytes
  | failed => []

end Read

/-- `serial_read` between two rounds: its offset, and the memory by the distance from the start of
the buffer. -/
structure Reading where
  bytesRead : Int
  memory : Int → Byte

/-- The memory with bytes stored from a place on. -/
def storeBytes (memory : Int → Byte) (start : Int) (bytes : List Byte) (i : Int) : Byte :=
  if start ≤ i then bytes.getD (i - start).toNat (memory i) else memory i

/-- `bytesRead += read(device, data + bytesRead, size - bytesRead)`. -/
def Reading.round (s : Reading) (r : Read) : Reading where
  bytesRead := s.bytesRead + r.result
  memory := storeBytes s.memory s.bytesRead r.bytes

/-- Rounds of `serial_read`, each with as many bytes as it asks for at most. -/
inductive Rounds (size : Nat) : Reading → List Read → Reading → Prop
  | nil {s : Reading} : Rounds size s [] s
  | cons {s t : Reading} {r : Read} {rs : List Read} (hmore : s.bytesRead < size)
      (hmost : r.bytes.length ≤ size - s.bytesRead) (hrest : Rounds size (s.round r) rs t) :
      Rounds size s (r :: rs) t

/-- The bytes that were received. -/
def received (rs : List Read) : List Byte := rs.flatMap Read.bytes

/-- What the caller finds in the buffer. -/
def Reading.buffer (s : Reading) (size : Nat) : List Byte :=
  (List.range size).map fun i : Nat => s.memory i

/-- A state that `serial_read` is in after some calls of `read()`: the offset is in the buffer, the
bytes that were received are there in order, nothing else has changed, and they fill the buffer
when it ends. -/
structure Fills (size : Nat) (memory : Int → Byte) (rs : List Read) (s : Reading) : Prop where
  offset : 0 ≤ s.bytesRead ∧ s.bytesRead ≤ size
  kept : ∀ i (h : i < (received rs).length), s.memory i = (received rs)[i]
  outside : ∀ i : Int, i < 0 ∨ size ≤ i → s.memory i = memory i
  filled : size ≤ s.bytesRead → s.buffer size = received rs

section Store

variable (memory : Int → Byte) (start i : Int) (bytes : List Byte)

theorem storeBytes_before (h : i < start) : storeBytes memory start bytes i = memory i := by
  rw [storeBytes, if_neg (by omega)]

theorem storeBytes_after (h : start + bytes.length ≤ i) :
    storeBytes memory start bytes i = memory i := by
  rw [storeBytes, if_pos (by omega), List.getD_eq_getElem?_getD,
    List.getElem?_eq_none (by omega), Option.getD_none]

theorem storeBytes_at (j : Nat) (h : j < bytes.length) :
    storeBytes memory start bytes (start + j) = bytes[j] := by
  have hat : (start + j - start).toNat = j := by omega
  rw [storeBytes, if_pos (by omega), hat, List.getD_eq_getElem?_getD,
    List.getElem?_eq_getElem h, Option.getD_some]

end Store

section Rounds

variable {size : Nat} {memory : Int → Byte}

/-- The invariant, when no call has failed: the offset counts the bytes that were received, which
are stored from the start of the buffer on. -/
structure Stored (size : Nat) (memory : Int → Byte) (got : List Byte) (s : Reading) : Prop where
  offset : s.bytesRead = got.length
  le : got.length ≤ size
  kept : ∀ i (h : i < got.length), s.memory i = got[i]
  outside : ∀ i : Int, i < 0 ∨ size ≤ i → s.memory i = memory i

theorem Stored.round {got : List Byte} {s : Reading} {bytes : List Byte}
    (h : Stored size memory got s) (hmost : bytes.length ≤ size - s.bytesRead) :
    Stored size memory (got ++ bytes) (s.round (.got bytes)) := by
  have hoffset := h.offset
  refine ⟨?_, ?_, ?_, ?_⟩
  · show s.bytesRead + bytes.length = _
    rw [List.length_append]
    omega
  · rw [List.length_append]
    omega
  · intro i hi
    show storeBytes s.memory s.bytesRead bytes i = _
    rw [List.length_append] at hi
    by_cases hold : i < got.length
    · rw [storeBytes_before _ _ _ _ (by omega), h.kept i hold, List.getElem_append_left hold]
    · have hat : (i : Int) = s.bytesRead + (i - got.length : Nat) := by omega
      rw [hat, storeBytes_at _ _ _ _ (by omega), List.getElem_append_right (by omega)]
  · intro i hi
    show storeBytes s.memory s.bytesRead bytes i = _
    rcases hi with hi | hi
    · rw [storeBytes_before _ _ _ _ (by omega), h.outside i (.inl hi)]
    · rw [storeBytes_after _ _ _ _ (by omega), h.outside i (.inr hi)]

/-- Rounds without an error keep the invariant. -/
theorem Rounds.stored {s t : Reading} {rs : List Read} (hrun : Rounds size s rs t)
    (hfailed : .failed ∉ rs) {got : List Byte} (h : Stored size memory got s) :
    Stored size memory (got ++ received rs) t := by
  induction hrun generalizing got with
  | nil => rwa [received, List.flatMap_nil, List.append_nil]
  | @cons s t r rs _ hmost _ ih =>
    rw [List.mem_cons, not_or] at hfailed
    cases r with
    | failed => exact absurd rfl hfailed.1
    | got bytes =>
      have hrest := ih hfailed.2 (h.round hmost)
      rwa [List.append_assoc] at hrest

/-- Every error takes one off the offset. -/
theorem Rounds.bytesRead {s t : Reading} {rs : List Read} (hrun : Rounds size s rs t) :
    t.bytesRead + rs.count .failed = s.bytesRead + (received rs).length := by
  induction hrun with
  | nil => simp [received]
  | @cons s t r rs _ _ _ ih =>
    rw [received, List.flatMap_cons, List.length_append, ← received]
    cases r with
    | failed =>
      rw [List.count_cons_self]
      have hround : (s.round .failed).bytesRead = s.bytesRead - 1 := rfl
      have hnone : (Read.failed).bytes.length = 0 := rfl
      omega
    | got bytes =>
      have hne : Read.got bytes ≠ .failed := by
        intro h
        cases h
      rw [List.count_cons_of_ne hne]
      have hround : (s.round (.got bytes)).bytesRead = s.bytesRead + bytes.length := rfl
      have hall : (Read.got bytes).bytes.length = bytes.length := rfl
      omega

/-- The offset never gets past the size. -/
theorem Rounds.le {s t : Reading} {rs : List Read} (hrun : Rounds size s rs t)
    (h : s.bytesRead ≤ size) : t.bytesRead ≤ size := by
  induction hrun with
  | nil => exact h
  | @cons s t r rs hmore hmost _ ih =>
    apply ih
    show s.bytesRead + r.result ≤ size
    cases r with
    | failed =>
      show s.bytesRead + -1 ≤ size
      omega
    | got bytes =>
      show s.bytesRead + bytes.length ≤ size
      have hall : bytes.length ≤ size - s.bytesRead := hmost
      omega

theorem Stored.start (size : Nat) (memory : Int → Byte) : Stored size memory [] ⟨0, memory⟩ :=
  ⟨rfl, Nat.zero_le size, fun i h => absurd h (Nat.not_lt_zero i), fun _ _ => rfl⟩

theorem Stored.buffer {got : List Byte} {s : Reading} (h : Stored size memory got s)
    (hall : got.length = size) : s.buffer size = got := by
  apply List.ext_getElem
  · rw [Reading.buffer, List.length_map, List.length_range, hall]
  · intro i hi hgot
    simp only [Reading.buffer, List.getElem_map, List.getElem_range]
    exact h.kept i hgot

/-- Without an error the buffer is filled with what was received. -/
theorem fills_of_not_failed {rs : List Read} {t : Reading} (hrun : Rounds size ⟨0, memory⟩ rs t)
    (hfailed : .failed ∉ rs) : Fills size memory rs t := by
  have h := hrun.stored hfailed (.start size memory)
  rw [List.nil_append] at h
  have hoffset := h.offset
  have hle := h.le
  refine ⟨by omega, h.kept, h.outside, fun hend => h.buffer (by omega)⟩

/-- After an error a buffer that is full does not have what was received. -/
theorem not_failed_of_fills {rs : List Read} {t : Reading} (hrun : Rounds size ⟨0, memory⟩ rs t)
    (hend : size ≤ t.bytesRead) (h : Fills size memory rs t) : .failed ∉ rs := by
  have hlength := congrArg List.length (h.filled hend)
  rw [Reading.buffer, List.length_map, List.length_range] at hlength
  have hcount := hrun.bytesRead
  have hle := hrun.le (Int.natCast_nonneg size)
  rw [← List.count_eq_zero]
  have hzero : (0 : Int) + (received rs).length = t.bytesRead + rs.count .failed := hcount.symm
  omega

/-- **`serial_read` fills its buffer when no call of `read()` fails**, in every state it gets to,
and when it ends only then. -/
theorem serial_read_fills {rs : List Read} {t : Reading} (hrun : Rounds size ⟨0, memory⟩ rs t) :
    (.failed ∉ rs → Fills size memory rs t) ∧
      (size ≤ t.bytesRead → (Fills size memory rs t ↔ .failed ∉ rs)) :=
  ⟨fills_of_not_failed hrun, fun hend =>
    ⟨not_failed_of_fills hrun hend, fills_of_not_failed hrun⟩⟩

/-- Two bytes after a timeout. -/
theorem serial_read_fills_two : ∃ t, t.bytesRead = 2 ∧
    (.failed ∉ [Read.got [], .got [1, 2]] →
      Fills 2 (fun _ => 0) [.got [], .got [1, 2]] t) ∧
    ((2 : Nat) ≤ t.bytesRead → (Fills 2 (fun _ => 0) [.got [], .got [1, 2]] t ↔
      .failed ∉ [Read.got [], .got [1, 2]])) := by
  have hrun : Rounds 2 ⟨0, fun _ => 0⟩ [.got [], .got [1, 2]]
      (((Reading.mk 0 fun _ => 0).round (.got [])).round (.got [1, 2])) :=
    .cons (by decide) (by decide) (.cons (by decide) (by decide) .nil)
  exact ⟨_, by decide, serial_read_fills hrun⟩

/-- An error at the start of a byte: the next read is asked for two bytes, and stores the first in
front of the buffer. -/
theorem error_stores_in_front :
    ∃ t, Rounds 1 ⟨0, fun _ => 0⟩ [.failed, .got [1, 2]] t ∧ t.memory (-1) = 1 ∧
      ¬Fills 1 (fun _ => 0) [.failed, .got [1, 2]] t := by
  have hrun : Rounds 1 ⟨0, fun _ => 0⟩ [.failed, .got [1, 2]]
      (((Reading.mk 0 fun _ => 0).round .failed).round (.got [1, 2])) :=
    .cons (by decide) (by decide) (.cons (by decide) (by decide) .nil)
  refine ⟨_, hrun, by decide, ?_⟩
  intro h
  have hfront := h.outside (-1) (.inl (by decide))
  revert hfront
  decide

end Rounds

end Xlink.Serial

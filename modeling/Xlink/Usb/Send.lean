import Mathlib.Data.List.Basic
import Xlink.Lib.Word
import Xlink.Host.Chunked

/-!
# Sending over USB

`driver_usb_send` of `src/driver/usb.c` hands the data to the device in control transfers of at
most 4096 bytes. A control transfer fails, or says how many bytes the device accepted.

`driver_usb_send` is about data of any length an int has room for, and every sequence of results
that are negative or at most what was handed over: it says which pieces are handed over, where it
stops, what it counts and when it succeeds. What the device does with the bytes is in `Board`.
-/

namespace Xlink.Usb

open Word (Byte)
open Host (Chunked pieces pieces_more pieces_last le_of_mem_pieces sum_pieces chunked_rule)

/-- `MAX_PAYLOAD_SIZE`. -/
def maxPayloadSize : Nat := 4096

/-- `Transfer`: a position in the data of the caller, and an `uint`. -/
structure Transfer where
  data : Nat
  completed : BitVec 32
  deriving DecidableEq, Repr

/-- What `send_chunk` and `receive_chunk` make of the result of their control transfer. -/
def Transfer.chunkDone (transfer : Transfer) (chunk : Nat) (transfered : Int) : Bool × Transfer :=
  if transfered < 0 then (false, transfer)
  else if transfered < chunk then
    (false, { transfer with completed := transfer.completed + BitVec.ofInt 32 transfered })
  else (true, ⟨transfer.data + chunk, transfer.completed + BitVec.ofNat 32 chunk⟩)

/-- The transfer, and the pieces that were handed to the device so far. -/
structure Sending where
  transfer : Transfer
  handed : List (List Byte)
  deriving DecidableEq, Repr

/-- `send_chunk`, with the results of the control transfers one after the other. -/
def sendChunk (data : List Byte) (results : Nat → Int) (chunk : Nat) (s : Sending) :
    Option (Bool × Sending) :=
  let (result, transfer) := s.transfer.chunkDone chunk (results s.handed.length)
  some (result, ⟨transfer, s.handed ++ [(data.drop s.transfer.data).take chunk]⟩)

/-- `driver_usb_send` returns `result`. -/
def DriverUsbSend (data : List Byte) (results : Nat → Int) (result : Bool) (s : Sending) : Prop :=
  (∃ went, Chunked (sendChunk data results) ⟨⟨0, 0⟩, []⟩ maxPayloadSize data.length
    (some (went, s))) ∧
  result = (s.transfer.completed == BitVec.ofNat 32 data.length)

/-- The bytes that the device accepted: the leading ones of each piece, as many as the control
transfer said. -/
def accepted (results : Nat → Int) (handed : List (List Byte)) : List Byte :=
  (handed.mapIdx fun i piece => piece.take (results i).toNat).flatten

/-- Every piece was accepted in full. -/
def Complete (results : Nat → Int) (handed : List (List Byte)) : Prop :=
  ∀ i piece, handed[i]? = some piece → results i = piece.length

section Accepted

variable {results : Nat → Int} {handed : List (List Byte)} {piece : List Byte}

theorem accepted_concat : accepted results (handed ++ [piece]) =
    accepted results handed ++ piece.take (results handed.length).toNat := by
  rw [accepted, List.mapIdx_concat, List.flatten_append, List.flatten_singleton, accepted]

theorem Complete.accepted (h : Complete results handed) :
    accepted results handed = handed.flatten := by
  have hsame : (handed.mapIdx fun i piece => piece.take (results i).toNat) = handed := by
    apply List.ext_getElem?
    intro i
    rw [List.getElem?_mapIdx]
    cases hi : handed[i]? with
    | none => rfl
    | some piece =>
      show some (piece.take (results i).toNat) = some piece
      rw [h i piece hi, Int.toNat_natCast, List.take_length]
  rw [Usb.accepted, hsame]

theorem Complete.concat (h : Complete results handed)
    (hpiece : results handed.length = piece.length) : Complete results (handed ++ [piece]) := by
  intro i p hi
  rcases Nat.lt_trichotomy i handed.length with hlt | rfl | hgt
  · rw [List.getElem?_append_left hlt] at hi
    exact h i p hi
  · rw [List.getElem?_concat_length] at hi
    obtain rfl := Option.some.inj hi
    exact hpiece
  · rw [List.getElem?_eq_none (by rw [List.length_append, List.length_singleton]; omega)] at hi
    cases hi

end Accepted

/-! ## What is handed over -/

variable {data : List Byte} {results : Nat → Int}

/-- Before a piece: what was handed over is the data up to the position, and was accepted. -/
structure InFlight (data : List Byte) (results : Nat → Int) (rest : List Nat) (s : Sending) :
    Prop where
  cut : s.handed.map List.length ++ rest = pieces maxPayloadSize data.length
  taken : s.handed.flatten = data.take s.transfer.data
  position : s.transfer.data = s.handed.flatten.length
  complete : Complete results s.handed
  completed : s.transfer.completed.toNat = s.transfer.data

/-- After the last piece: pieces of the data in order, all but the last of them accepted in full,
and the count of the bytes that were accepted. -/
structure HandedOver (data : List Byte) (results : Nat → Int) (s : Sending) : Prop where
  prefixed : s.handed.flatten <+: data
  sizes : ∀ piece ∈ s.handed, piece.length ≤ maxPayloadSize
  goesOn : ∀ i piece, s.handed[i]? = some piece → i + 1 < s.handed.length →
    results i = piece.length
  stops : s.handed.flatten = data ∨
    ∃ before piece, s.handed = before ++ [piece] ∧ results before.length < piece.length
  completed : s.transfer.completed.toNat = (accepted results s.handed).length
  front : accepted results s.handed <+: data

theorem InFlight.length_left {rest : List Nat} {s : Sending} (h : InFlight data results rest s) :
    s.transfer.data + rest.sum = data.length := by
  have hsum := congrArg List.sum h.cut
  rw [List.sum_append, sum_pieces (by decide), ← List.length_flatten, ← h.position] at hsum
  exact hsum

theorem InFlight.done {s : Sending} (h : InFlight data results [] s) :
    HandedOver data results s := by
  have hlength : s.transfer.data = data.length := by
    have := h.length_left
    rwa [List.sum_nil, Nat.add_zero] at this
  have hall : s.handed.flatten = data := by
    rw [h.taken, hlength, List.take_length]
  refine ⟨⟨[], by rw [hall, List.append_nil]⟩, ?_, fun i piece hi _ => h.complete i piece hi,
    .inl hall, ?_, ?_⟩
  · intro piece hpiece
    have hmem : piece.length ∈ pieces maxPayloadSize data.length := by
      rw [← h.cut, List.append_nil]
      exact List.mem_map_of_mem hpiece
    exact le_of_mem_pieces hmem (by decide)
  · rw [h.completed, h.complete.accepted, h.position]
  · exact ⟨[], by rw [h.complete.accepted, hall, List.append_nil]⟩

/-- What is handed over next. -/
structure NextPiece (data : List Byte) (piece : Nat) (s : Sending) (next : List Byte) : Prop where
  length : next.length = piece
  taken : (s.handed ++ [next]).flatten = data.take (s.transfer.data + piece)
  small : ∀ p ∈ s.handed ++ [next], p.length ≤ maxPayloadSize
  which : (pieces maxPayloadSize data.length)[s.handed.length]? = some piece

theorem InFlight.nextPiece {piece : Nat} {rest : List Nat} {s : Sending}
    (h : InFlight data results (piece :: rest) s) :
    NextPiece data piece s ((data.drop s.transfer.data).take piece) := by
  have hleft := h.length_left
  rw [List.sum_cons] at hleft
  have hlength : ((data.drop s.transfer.data).take piece).length = piece := by
    rw [List.length_take, List.length_drop]
    omega
  have hmem : ∀ size ∈ s.handed.map List.length ++ piece :: rest, size ≤ maxPayloadSize := by
    intro size hsize
    rw [h.cut] at hsize
    exact le_of_mem_pieces hsize (by decide)
  refine ⟨hlength, ?_, ?_, ?_⟩
  · rw [List.flatten_append, List.flatten_singleton, h.taken, ← List.take_add]
  · intro p hp
    rcases List.mem_append.mp hp with hp | hp
    · exact hmem p.length (List.mem_append_left _ (List.mem_map_of_mem hp))
    · obtain rfl := List.mem_singleton.mp hp
      rw [hlength]
      exact hmem piece (List.mem_append_right _ List.mem_cons_self)
  · rw [← h.cut, List.getElem?_append_right (by rw [List.length_map]), List.length_map,
      Nat.sub_self, List.getElem?_cons_zero]

/-- A piece that was accepted in full keeps the invariant. -/
theorem InFlight.full {piece : Nat} {rest : List Nat} {s s' : Sending}
    (h : InFlight data results (piece :: rest) s) (hint : data.length < 2 ^ 31)
    (hall : results s.handed.length = piece)
    (hs' : s' = ⟨⟨s.transfer.data + piece, s.transfer.completed + BitVec.ofNat 32 piece⟩,
      s.handed ++ [(data.drop s.transfer.data).take piece]⟩) :
    InFlight data results rest s' := by
  subst hs'
  have hnext := h.nextPiece
  have hleft := h.length_left
  rw [List.sum_cons] at hleft
  refine ⟨?_, hnext.taken, ?_, ?_, ?_⟩
  · show (s.handed ++ [_]).map List.length ++ rest = _
    rw [← h.cut, List.map_append, List.map_singleton, hnext.length, List.append_assoc,
      List.singleton_append]
  · show s.transfer.data + piece = (s.handed ++ [_]).flatten.length
    rw [hnext.taken, List.length_take]
    omega
  · exact h.complete.concat (by rw [hnext.length, hall])
  · show (s.transfer.completed + BitVec.ofNat 32 piece).toNat = s.transfer.data + piece
    rw [BitVec.toNat_add, BitVec.toNat_ofNat, h.completed]
    omega

/-- After a piece that was not, it is over. -/
theorem InFlight.short {piece : Nat} {rest : List Nat} {s s' : Sending}
    (h : InFlight data results (piece :: rest) s) (hint : data.length < 2 ^ 31)
    (hless : results s.handed.length < piece)
    (hs' : s' = ⟨⟨s.transfer.data,
      s.transfer.completed + BitVec.ofNat 32 (results s.handed.length).toNat⟩,
      s.handed ++ [(data.drop s.transfer.data).take piece]⟩) :
    HandedOver data results s' := by
  subst hs'
  have hnext := h.nextPiece
  have hleft := h.length_left
  rw [List.sum_cons] at hleft
  have htaken : (results s.handed.length).toNat ≤ piece := by omega
  have hfront : accepted results (s.handed ++ [(data.drop s.transfer.data).take piece]) =
      data.take (s.transfer.data + (results s.handed.length).toNat) := by
    rw [accepted_concat, h.complete.accepted, h.taken, List.take_take, Nat.min_eq_left htaken,
      ← List.take_add]
  refine ⟨?_, hnext.small, ?_, .inr ⟨s.handed, _, rfl, by rwa [hnext.length]⟩, ?_, ?_⟩
  · rw [hnext.taken]
    exact List.take_prefix _ _
  · intro i p hi hlt
    rw [List.length_append, List.length_singleton] at hlt
    rw [List.getElem?_append_left (by omega)] at hi
    exact h.complete i p hi
  · show (s.transfer.completed + BitVec.ofNat 32 _).toNat = (accepted results (s.handed ++ [_])).length
    rw [hfront, List.length_take, BitVec.toNat_add, BitVec.toNat_ofNat, h.completed]
    omega
  · rw [hfront]
    exact List.take_prefix _ _

/-- One piece of data that was not accepted before. -/
theorem sendChunk_inFlight {piece : Nat} {rest : List Nat} {s : Sending}
    (h : InFlight data results (piece :: rest) s) (hint : data.length < 2 ^ 31)
    (hresults : ∀ (i chunk : Nat), (pieces maxPayloadSize data.length)[i]? = some chunk →
      results i ≤ chunk) :
    (∃ s', sendChunk data results piece s = some (true, s') ∧ InFlight data results rest s') ∨
      ∃ s', sendChunk data results piece s = some (false, s') ∧ HandedOver data results s' := by
  have hmost := hresults _ _ h.nextPiece.which
  by_cases herror : results s.handed.length < 0
  · have hnone : (results s.handed.length).toNat = 0 := by omega
    right
    refine ⟨_, ?_, h.short hint (by omega) rfl⟩
    simp [sendChunk, Transfer.chunkDone, herror, hnone]
  by_cases hless : results s.handed.length < piece
  · right
    refine ⟨_, ?_, h.short hint hless rfl⟩
    have hcount : BitVec.ofInt 32 (results s.handed.length) =
        BitVec.ofNat 32 (results s.handed.length).toNat := by
      rw [← BitVec.ofInt_natCast, Int.toNat_of_nonneg (by omega)]
    simp [sendChunk, Transfer.chunkDone, herror, hless, hcount]
  · left
    refine ⟨_, ?_, h.full hint (by omega) rfl⟩
    simp [sendChunk, Transfer.chunkDone, herror, hless]

/-- Sending ends, with a prefix of the data handed over in pieces; it counts the bytes that the
device accepted, and succeeds when these are all. -/
theorem driver_usb_send (hint : data.length < 2 ^ 31)
    (hresults : ∀ (i chunk : Nat), (pieces maxPayloadSize data.length)[i]? = some chunk →
      results i ≤ chunk) :
    ∃ result s, DriverUsbSend data results result s ∧ HandedOver data results s ∧
      (result = true ↔ accepted results s.handed = data) := by
  have hstart : InFlight data results (pieces maxPayloadSize data.length) ⟨⟨0, 0⟩, []⟩ :=
    ⟨rfl, rfl, rfl, fun i piece hi => by simp at hi, rfl⟩
  have hends : ∃ went s, Chunked (sendChunk data results) ⟨⟨0, 0⟩, []⟩ maxPayloadSize data.length
      (some (went, s)) ∧ HandedOver data results s := by
    have hpiece : ∀ piece rest s, InFlight data results (piece :: rest) s →
        (∃ s', sendChunk data results piece s = some (true, s') ∧ InFlight data results rest s') ∨
          ∃ s', sendChunk data results piece s = some (false, s') ∧ HandedOver data results s' :=
      fun piece rest s h => sendChunk_inFlight h hint hresults
    have hpositive : 0 < maxPayloadSize := by decide
    rcases chunked_rule hpositive hpiece hstart with ⟨s, hrun, hs⟩ | ⟨s, hrun, hs⟩
    · exact ⟨true, s, hrun, hs.done⟩
    · exact ⟨false, s, hrun, hs⟩
  obtain ⟨went, s, hrun, hs⟩ := hends
  refine ⟨_, s, ⟨⟨went, hrun⟩, rfl⟩, hs, ?_⟩
  have hle := hs.front.length_le
  have hcount := hs.completed
  rw [beq_iff_eq]
  constructor
  · intro h
    apply hs.front.eq_of_length
    rw [← hcount, h, BitVec.toNat_ofNat, Nat.mod_eq_of_lt (by omega)]
  · intro h
    apply BitVec.eq_of_toNat_eq
    rw [hcount, h, BitVec.toNat_ofNat, Nat.mod_eq_of_lt (by omega)]

/-- Five thousand bytes, of which the device accepts all of the first piece and ten of the second. -/
theorem driver_usb_send_short : ∃ result s,
    DriverUsbSend (List.replicate 5000 0) (fun i => if i = 0 then 4096 else 10) result s ∧
      HandedOver (List.replicate 5000 0) (fun i => if i = 0 then 4096 else 10) s ∧
      (result = true ↔ accepted (fun i => if i = 0 then 4096 else 10) s.handed =
        List.replicate 5000 0) := by
  have hcut : pieces maxPayloadSize (List.replicate 5000 (0 : Byte)).length = [4096, 904] := by
    rw [List.length_replicate, pieces_more (by decide) (by decide), pieces_last (by decide)]
    rfl
  refine driver_usb_send (by rw [List.length_replicate]; decide) fun i chunk hchunk => ?_
  rw [hcut] at hchunk
  cases i with
  | zero =>
    obtain rfl := Option.some.inj hchunk
    decide
  | succ i =>
    cases i with
    | zero =>
      obtain rfl := Option.some.inj hchunk
      decide
    | succ i => cases hchunk

end Xlink.Usb

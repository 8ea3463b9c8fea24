import Xlink.Serial.Acks
import Xlink.Usb.Send

/-!
# Receiving over USB

The two sides of a receive: `driver_usb_receive` of `src/driver/usb.c` asks for the data in control
transfers of at most 4096 bytes, and `Receive` of `src/driver/at90usb162/xlink.c` answers each in
packets of the endpoint's size, and gives up when the Commodore does not acknowledge a byte in time.
Both say what was read from the port.

`driver_usb_receive` is about buffers of up to 65536 bytes and a transfer that stops where the
Commodore does, or at its end. That packets arrive in order, and that a short one ends the stage, is
what is assumed of the two USB libraries (`dataStage`). A control transfer that fails is not in it.
-/

namespace Xlink.Usb

open Word (Byte)
open Host (Chunked pieces sum_pieces chunked_rule)
open Serial hiding receive

/-! ## The firmware -/

/-- `FIXED_CONTROL_ENDPOINT_SIZE` of `config/LUFAConfig.h`. -/
def endpointSize : Nat := 64

/-- The firmware between two packets: the level it remembers, the number of the byte it waits for,
and what it did on the port. -/
structure Device where
  last : Bool
  byte : Nat
  events : List Event
  deriving DecidableEq, Repr

section Firmware

variable (timeout : BitVec 16) (polls : Nat → List Poll) (port : Nat → Byte)

/-- The bytes of a packet, `left` before its end, and whether they are all there. -/
def fillPacket : (left : Nat) → Device → Option (Bool × List Byte × Device)
  | 0, d => some (true, [], d)
  | left + 1, d =>
    match waitAck d.last (timeout.setWidth 32) (polls d.byte) with
    | none => none
    | some .timedOut => some (false, [], { d with events := d.events ++ [.timedOut] })
    | some (.acked pin) =>
      (fillPacket left
        ⟨pin, d.byte + 1, d.events ++ [.acked, .read (port d.byte), .strobe]⟩).map
        fun (filled, packet, after) => (filled, port d.byte :: packet, after)

/-- `Receive`: the packets it sends, the last one short when it gives up. -/
def receive (bytesToReceive : Nat) (d : Device) : Option (List (List Byte) × Device) :=
  if _h : bytesToReceive = 0 then some ([], d)
  else
    let bytesInPacket := if endpointSize ≤ bytesToReceive then endpointSize else bytesToReceive
    match fillPacket timeout polls port bytesInPacket d with
    | none => none
    | some (false, packet, d) => some ([packet], d)
    | some (true, packet, d) =>
      (receive (bytesToReceive - bytesInPacket) d).map
        fun (packets, d) => (packet :: packets, d)
termination_by bytesToReceive
decreasing_by
  show bytesToReceive - (if 64 ≤ bytesToReceive then 64 else bytesToReceive) < bytesToReceive
  split <;> omega

/-! ## The host -/

/-- The bytes of a data stage: its packets in order, up to one that is shorter than the endpoint's
size. -/
def dataStage : List (List Byte) → List Byte
  | [] => []
  | packet :: packets =>
    if packet.length < endpointSize then packet else packet ++ dataStage packets

/-- The buffer with bytes stored from a position on. -/
def store (buffer : List Byte) (position : Nat) (bytes : List Byte) : List Byte :=
  buffer.take position ++ bytes ++ buffer.drop (position + bytes.length)

/-- The transfer, the buffer of the caller and the device. -/
structure Receiving where
  transfer : Transfer
  buffer : List Byte
  device : Device
  deriving DecidableEq, Repr

/-- `receive_chunk`, whose control transfer returns the number of bytes of the data stage. -/
def receiveChunk (chunk : Nat) (s : Receiving) : Option (Bool × Receiving) :=
  match receive timeout polls port chunk s.device with
  | none => none
  | some (packets, device) =>
    let got := dataStage packets
    let (result, transfer) := s.transfer.chunkDone chunk got.length
    some (result, ⟨transfer, store s.buffer s.transfer.data got, device⟩)

/-- `driver_usb_receive` returns `result`, for a device that remembers the level `last`. -/
def DriverUsbReceive (last : Bool) (buffer : List Byte) (result : Bool) (s : Receiving) : Prop :=
  (∃ went, Chunked (receiveChunk timeout polls port) ⟨⟨0, 0⟩, buffer, ⟨last, 0, []⟩⟩
    maxPayloadSize buffer.length (some (went, s))) ∧
  result = (s.transfer.completed == BitVec.ofNat 32 buffer.length)

end Firmware

/-! ## What is read -/

/-- Reading `k` bytes: every one is acknowledged, read and strobed. -/
def readEvents (port : Nat → Byte) (k : Nat) : List Event :=
  (List.range k).flatMap fun i => [.acked, .read (port i), .strobe]

theorem readEvents_succ (port : Nat → Byte) (k : Nat) :
    readEvents port (k + 1) = readEvents port k ++ [.acked, .read (port k), .strobe] := by
  rw [readEvents, List.range_succ, List.flatMap_append, List.flatMap_singleton, readEvents]

/-- The device after `k` bytes. -/
def Device.after (last : Bool) (port : Nat → Byte) (k : Nat) : Device :=
  ⟨levelAfter last k, k, readEvents port k⟩

/-- The device that gave up after `k` bytes. -/
def Device.gaveUp (last : Bool) (port : Nat → Byte) (k : Nat) : Device :=
  ⟨levelAfter last k, k, readEvents port k ++ [.timedOut]⟩

section Stops

variable {timeout : BitVec 16} {polls : Nat → List Poll} {last : Bool} {size k : Nat}
variable (port : Nat → Byte)

/-- Before the stop a packet is filled. -/
theorem fillPacket_filled (h : StopsAt (timeout.setWidth 32) polls last size k) (left i : Nat)
    (hleft : i + left ≤ k) :
    fillPacket timeout polls port left (.after last port i) =
      some (true, reads port i left, .after last port (i + left)) := by
  induction left generalizing i with
  | zero => rfl
  | succ left ih =>
    have hnext : Device.mk (levelAfter last (i + 1)) (i + 1)
        (readEvents port i ++ [.acked, .read (port i), .strobe]) = .after last port (i + 1) := by
      rw [Device.after, readEvents_succ]
    have hack := h.acked i (by omega)
    simp only [fillPacket, Device.after, hack]
    rw [hnext, ih (i + 1) (by omega), Option.map_some, reads_succ, Nat.add_right_comm]
    rfl

/-- The packet of the stop is cut off there. -/
theorem fillPacket_gaveUp (h : StopsAt (timeout.setWidth 32) polls last size k) (left i : Nat)
    (hfrom : i ≤ k) (hto : k < i + left) (hsize : k < size) :
    fillPacket timeout polls port left (.after last port i) =
      some (false, reads port i (k - i), .gaveUp last port k) := by
  induction left generalizing i with
  | zero => omega
  | succ left ih =>
    rcases Nat.eq_or_lt_of_le hfrom with rfl | hlt
    · have htimes := h.timedOut hsize
      simp only [fillPacket, Device.after, htimes]
      rw [Nat.sub_self, reads_zero, Device.gaveUp]
    · have hnext : Device.mk (levelAfter last (i + 1)) (i + 1)
          (readEvents port i ++ [.acked, .read (port i), .strobe]) = .after last port (i + 1) := by
        rw [Device.after, readEvents_succ]
      have hack := h.acked i (by omega)
      have hcount : k - i = k - (i + 1) + 1 := by omega
      simp only [fillPacket, Device.after, hack]
      rw [hnext, ih (i + 1) (by omega) (by omega), Option.map_some, hcount, reads_succ]

/-- Before the stop a control transfer delivers what it was asked for. -/
theorem receive_filled (h : StopsAt (timeout.setWidth 32) polls last size k) (n i : Nat)
    (hn : i + n ≤ k) :
    ∃ packets, receive timeout polls port n (.after last port i) =
      some (packets, .after last port (i + n)) ∧ dataStage packets = reads port i n := by
  induction hsame : n using Nat.strongRecOn generalizing n i with
  | _ m ih =>
    subst hsame
    by_cases hnone : n = 0
    · subst hnone
      exact ⟨[], by rw [receive, dif_pos rfl, Nat.add_zero], rfl⟩
    rw [receive, dif_neg hnone]
    by_cases hfull : endpointSize ≤ n
    · have hpositive : 0 < endpointSize := by decide
      obtain ⟨packets, hrun, hstage⟩ :=
        ih (n - endpointSize) (by omega) (n - endpointSize) (i + endpointSize) (by omega) rfl
      have hpacket := fillPacket_filled port h endpointSize i (by omega)
      refine ⟨reads port i endpointSize :: packets, ?_, ?_⟩
      · simp only [if_pos hfull, hpacket, hrun, Option.map_some]
        congr 3
        omega
      · rw [dataStage, length_reads, if_neg (Nat.lt_irrefl _), hstage, ← reads_add]
        congr 1
        omega
    · have hpacket := fillPacket_filled port h n i hn
      refine ⟨[reads port i n], ?_, ?_⟩
      · simp only [if_neg hfull, hpacket, Nat.sub_self]
        rw [receive, dif_pos rfl, Option.map_some]
      · rw [dataStage, length_reads, if_pos (by omega)]

/-- The control transfer of the stop delivers what was read. -/
theorem receive_gaveUp (h : StopsAt (timeout.setWidth 32) polls last size k) (n i : Nat)
    (hfrom : i ≤ k) (hto : k < i + n) (hsize : k < size) :
    ∃ packets, receive timeout polls port n (.after last port i) =
      some (packets, .gaveUp last port k) ∧ dataStage packets = reads port i (k - i) := by
  induction hsame : n using Nat.strongRecOn generalizing n i with
  | _ m ih =>
    subst hsame
    rw [receive, dif_neg (by omega)]
    by_cases hhere : k < i + (if endpointSize ≤ n then endpointSize else n)
    · -- the packet that is cut off is shorter than the endpoint's size
      have hpacket := fillPacket_gaveUp port h _ i hfrom hhere hsize
      refine ⟨[reads port i (k - i)], ?_, ?_⟩
      · simp only [hpacket]
      · rw [dataStage, length_reads, if_pos]
        split at hhere <;> omega
    · have hfull : endpointSize ≤ n := by
        by_contra hless
        rw [if_neg hless] at hhere
        exact hhere hto
      rw [if_pos hfull] at hhere ⊢
      have hpositive : 0 < endpointSize := by decide
      obtain ⟨packets, hrun, hstage⟩ := ih (n - endpointSize) (by omega) (n - endpointSize)
        (i + endpointSize) (by omega) (by omega) rfl
      have hpacket := fillPacket_filled port h endpointSize i (by omega)
      refine ⟨reads port i endpointSize :: packets, ?_, ?_⟩
      · simp only [hpacket, hrun, Option.map_some]
      · rw [dataStage, length_reads, if_neg (Nat.lt_irrefl _), hstage, ← reads_add]
        congr 1
        omega

/-! ## Both sides -/

variable {buffer : List Byte}

theorem store_reads (buffer : List Byte) (i n : Nat) :
    store (reads port 0 i ++ buffer.drop i) i (reads port i n) =
      reads port 0 (i + n) ++ buffer.drop (i + n) := by
  have hfront : (reads port 0 i ++ buffer.drop i).take i = reads port 0 i :=
    List.take_left' (length_reads port 0 i)
  have hback : (reads port 0 i ++ buffer.drop i).drop (i + n) = buffer.drop (i + n) := by
    rw [← List.drop_drop, List.drop_left' (length_reads port 0 i), List.drop_drop]
  rw [store, length_reads, hfront, hback, reads_add, Nat.zero_add]

/-- Before a chunk: the buffer begins with the bytes that were read, and the transfer counts them. -/
structure BeforeStop (last : Bool) (port : Nat → Byte) (buffer : List Byte) (k : Nat)
    (rest : List Nat) (s : Receiving) : Prop where
  length : s.transfer.data + rest.sum = buffer.length
  le : s.transfer.data ≤ k
  completed : s.transfer.completed = BitVec.ofNat 32 s.transfer.data
  buffer : s.buffer = reads port 0 s.transfer.data ++ buffer.drop s.transfer.data
  device : s.device = .after last port s.transfer.data

/-- After the chunk of the stop: the buffer begins with all the bytes that are read. -/
structure AtStop (last : Bool) (port : Nat → Byte) (buffer : List Byte) (k : Nat)
    (s : Receiving) : Prop where
  lt : k < buffer.length
  completed : s.transfer.completed = BitVec.ofNat 32 k
  buffer : s.buffer = reads port 0 k ++ buffer.drop k
  device : s.device = .gaveUp last port k

/-- A chunk before the stop keeps the invariant, and the one of the stop ends the loop. -/
theorem receiveChunk_beforeStop
    (h : StopsAt (timeout.setWidth 32) polls last buffer.length k) {chunk : Nat}
    {rest : List Nat} {s : Receiving} (hs : BeforeStop last port buffer k (chunk :: rest) s) :
    (∃ s', receiveChunk timeout polls port chunk s = some (true, s') ∧
      BeforeStop last port buffer k rest s') ∨
    ∃ s', receiveChunk timeout polls port chunk s = some (false, s') ∧
      AtStop last port buffer k s' := by
  obtain ⟨⟨i, completed⟩, stored, device⟩ := s
  obtain ⟨hlength, hfrom, hcompleted, hstored, hdevice⟩ := hs
  replace hfrom : i ≤ k := hfrom
  replace hlength : i + (chunk + rest.sum) = buffer.length := hlength
  obtain rfl : completed = BitVec.ofNat 32 i := hcompleted
  obtain rfl : stored = reads port 0 i ++ buffer.drop i := hstored
  obtain rfl : device = .after last port i := hdevice
  by_cases hto : i + chunk ≤ k
  · left
    obtain ⟨packets, hrun, hstage⟩ := receive_filled port h chunk i hto
    refine ⟨⟨⟨i + chunk, BitVec.ofNat 32 (i + chunk)⟩,
      reads port 0 (i + chunk) ++ buffer.drop (i + chunk), .after last port (i + chunk)⟩, ?_, ?_⟩
    · have hnonneg : ¬(chunk : Int) < 0 := by omega
      simp only [receiveChunk, hrun, hstage, length_reads, Transfer.chunkDone, if_neg hnonneg,
        Int.lt_irrefl, if_false, store_reads, ← BitVec.ofNat_add]
    · exact ⟨by rw [Nat.add_assoc]; exact hlength, hto, rfl, rfl, rfl⟩
  · right
    have hsize : k < buffer.length := by omega
    obtain ⟨packets, hrun, hstage⟩ :=
      receive_gaveUp port h chunk i hfrom (by omega) hsize
    have hat : i + (k - i) = k := by omega
    refine ⟨⟨⟨i, BitVec.ofNat 32 k⟩, reads port 0 k ++ buffer.drop k, .gaveUp last port k⟩, ?_,
      hsize, rfl, rfl, rfl⟩
    have hnonneg : ¬((k - i : Nat) : Int) < 0 := by omega
    have hless : ((k - i : Nat) : Int) < chunk := by omega
    simp only [receiveChunk, hrun, hstage, length_reads, Transfer.chunkDone, if_neg hnonneg,
      if_pos hless, BitVec.ofInt_natCast, store_reads, ← BitVec.ofNat_add, hat]

theorem count_readEvents (k : Nat) :
    (readEvents port k).count .strobe = k := by
  induction k with
  | zero => rfl
  | succ k ih =>
    rw [readEvents_succ, List.count_append, ih]
    rfl

/-- A receive ends with the bytes that were read before the stop in front of the buffer, one strobe
for each; it counts them, and succeeds when they fill the buffer. -/
theorem driver_usb_receive (hsize : buffer.length ≤ 65536)
    (h : StopsAt (timeout.setWidth 32) polls last buffer.length k) :
    ∃ result s, DriverUsbReceive timeout polls port last buffer result s ∧
      s.buffer = reads port 0 k ++ buffer.drop k ∧ s.transfer.completed.toNat = k ∧
      s.device.events = readEvents port k ++ (if k < buffer.length then [.timedOut] else []) ∧
      s.device.events.count .strobe = k ∧ (result = true ↔ k = buffer.length) := by
  have hpositive : 0 < maxPayloadSize := by decide
  have hle := h.le
  have hresult : (BitVec.ofNat 32 k == BitVec.ofNat 32 buffer.length) = true ↔
      k = buffer.length := by
    rw [beq_iff_eq, ← BitVec.toNat_inj, BitVec.toNat_ofNat, BitVec.toNat_ofNat]
    omega
  have hcount : (BitVec.ofNat 32 k).toNat = k := by
    rw [BitVec.toNat_ofNat]
    omega
  have hstart : BeforeStop last port buffer k (pieces maxPayloadSize buffer.length)
      ⟨⟨0, 0⟩, buffer, ⟨last, 0, []⟩⟩ := by
    refine ⟨?_, Nat.zero_le k, rfl, rfl, rfl⟩
    rw [sum_pieces hpositive, Nat.zero_add]
  have hpiece : ∀ chunk rest s, BeforeStop last port buffer k (chunk :: rest) s →
      (∃ s', receiveChunk timeout polls port chunk s = some (true, s') ∧
        BeforeStop last port buffer k rest s') ∨
      ∃ s', receiveChunk timeout polls port chunk s = some (false, s') ∧
        AtStop last port buffer k s' := fun chunk rest s => receiveChunk_beforeStop port h
  rcases chunked_rule hpositive hpiece hstart with ⟨s, hrun, hs⟩ | ⟨s, hrun, hs⟩
  · have hall : s.transfer.data = k := by
      have hlength := hs.length
      have hfrom := hs.le
      rw [List.sum_nil] at hlength
      omega
    have hfull : k = buffer.length := by
      have hlength := hs.length
      rw [List.sum_nil] at hlength
      omega
    have hevents : s.device.events = readEvents port k := by
      rw [hs.device, hall]
      rfl
    refine ⟨_, s, ⟨⟨true, hrun⟩, rfl⟩, ?_, ?_, ?_, ?_, ?_⟩
    · rw [hs.buffer, hall]
    · rw [hs.completed, hall, hcount]
    · rw [hevents, if_neg (by omega), List.append_nil]
    · rw [hevents, count_readEvents]
    · rw [hs.completed, hall, hresult]
  · have hevents : s.device.events = readEvents port k ++ [.timedOut] := by
      rw [hs.device]
      rfl
    refine ⟨_, s, ⟨⟨false, hrun⟩, rfl⟩, hs.buffer, ?_, ?_, ?_, ?_⟩
    · rw [hs.completed, hcount]
    · rw [hevents, if_pos hs.lt]
    · rw [hevents, List.count_append, count_readEvents]
      rfl
    · rw [hs.completed, hresult]

/-- A Commodore that acknowledges two bytes of three. -/
theorem driver_usb_receive_two : ∃ result s,
    DriverUsbReceive 2 (fun i => [⟨i == 0, 0⟩, ⟨i == 0, 2⟩]) (fun _ => 0x2a) false [1, 2, 3]
      result s ∧
    s.buffer = reads (fun _ => 0x2a) 0 2 ++ [1, 2, 3].drop 2 ∧ s.transfer.completed.toNat = 2 ∧
    s.device.events = readEvents (fun _ => 0x2a) 2 ++ (if 2 < 3 then [.timedOut] else []) ∧
    s.device.events.count .strobe = 2 ∧ (result = true ↔ 2 = 3) := by
  have hbuffer : ([1, 2, 3] : List Byte).length ≤ 65536 := by decide
  refine driver_usb_receive _ hbuffer ⟨by decide, ?_, fun _ => by decide⟩
  intro i hi
  rcases Nat.lt_succ_iff_lt_or_eq.mp hi with hlt | rfl
  · obtain rfl : i = 0 := by omega
    decide
  · decide

end Stops

end Xlink.Usb

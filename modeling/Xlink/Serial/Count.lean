import Xlink.Serial.Acks

/-!
# The count of a transfer

`driver_serial_send` and `driver_serial_receive` take a transfer for a success when the firmware's
count is the size they asked for. The firmware counts the byte it gives up on, so that its count
is wrong after every timeout, and a transfer that times out at its last byte is reported as a
success. `driver_parport_send` counts the bytes before it.

`transfer_honest` is an equivalence over every request, every behaviour of the Commodore and every
timeout, as long as time goes on. The serial line itself is not in it: a count arrives as it was
sent (`Link`, `Read` and `Write` have what can go wrong there).
-/

namespace Xlink.Serial

open Word (Byte)

/-! ## The two ends -/

/-- The timeout of the host's transfers, in seconds. -/
def hostTimeout : Uint := 2

/-- The port while a transfer is made. The timer runs, so that every wait ends. -/
structure Port where
  last : Bool
  polls : Nat → List Poll
  data : Nat → Byte
  clock : ∀ i, ∃ p ∈ polls i, hostTimeout ≤ p.elapsed.setWidth 32

/-- `main` of the firmware, for the frames of the transfers. -/
def serve (port : Port) (input : List Byte) : Option Transfer :=
  match Frame.parse (input.take 9) with
  | none => none
  | some f =>
    if f.cmd = Frame.cmdSend then send f.arg2 port.polls f.arg1 port.last (input.drop 9)
    else if f.cmd = Frame.cmdReceive then receive f.arg2 port.polls port.data f.arg1 port.last
    else none

/-- `XLINK_ERROR_SERIAL`: the count and the size its message names. -/
structure SerialError where
  count : Uint
  size : Uint
  verb : String
  deriving DecidableEq, Repr

def SerialError.message (e : SerialError) : String :=
  s!"transfer timeout ({e.count.toInt} of {e.size.toInt} bytes {e.verb})"

/-- What the host has when a transfer call returns: its result, the error it set, and the caller's
buffer. -/
structure Result where
  result : Bool
  error : Option SerialError
  buffer : List Byte
  deriving DecidableEq, Repr

/-- The end of both calls: the count is compared with the size. -/
def Result.of (count size : Uint) (verb : String) (buffer : List Byte) : Result where
  result := count = size
  error := if count = size then none else some ⟨count, size, verb⟩
  buffer := buffer

def driver_serial_send (port : Port) (data : List Byte) : Option (Transfer × Result) :=
  let size := BitVec.ofNat 32 data.length
  match serve port ((Frame.mk Frame.cmdSend size hostTimeout).bytes ++ data) with
  | none => none
  | some t =>
    match readCount (t.answer.take 4) with
    | none => none
    | some bytesSent => some (t, .of bytesSent size "sent" data)

def driver_serial_receive (port : Port) (size : Uint) : Option (Transfer × Result) :=
  match serve port (Frame.mk Frame.cmdReceive size hostTimeout).bytes with
  | none => none
  | some t =>
    match readCount ((t.answer.drop size.toNat).take 4) with
    | none => none
    | some bytesReceived =>
      some (t, .of bytesReceived size "received" (t.answer.take size.toNat))

/-- The two transfers. -/
inductive Request where
  | send (data : List Byte)
  | receive (size : Uint)

namespace Request

def size : Request → Nat
  | .send data => data.length
  | .receive size => size.toNat

def run (port : Port) : Request → Option (Transfer × Result)
  | .send data => driver_serial_send port data
  | .receive size => driver_serial_receive port size

end Request

/-! ## Handshakes -/

/-- The bytes that were handshaken: written, strobed and acknowledged, or acknowledged, read and
strobed. -/
def handshaken : List Event → List Byte
  | .wrote b :: .strobe :: .acked :: events => b :: handshaken events
  | .acked :: .read b :: .strobe :: events => b :: handshaken events
  | _ :: events => handshaken events
  | [] => []

/-- A transfer call tells what was handshaken: it succeeds when all the bytes of the buffer were,
and otherwise its error has their number. -/
structure Honest (t : Transfer) (r : Result) : Prop where
  success : r.result = true ↔ handshaken t.events = r.buffer
  count : ∀ e, r.error = some e → e.count.toNat = (handshaken t.events).length

/-- The Commodore does not acknowledge byte `i` in time. -/
def Port.TimesOut (port : Port) (i : Nat) : Prop :=
  waitAck (levelAfter port.last i) hostTimeout (port.polls i) = some .timedOut

instance (port : Port) (i : Nat) : Decidable (port.TimesOut i) :=
  inferInstanceAs (Decidable (_ = _))

theorem Port.waits (port : Port) (i : Nat) :
    port.TimesOut i ∨ (¬port.TimesOut i ∧
      waitAck (levelAfter port.last i) hostTimeout (port.polls i) =
        some (.acked (levelAfter port.last (i + 1)))) := by
  obtain ⟨answer, h⟩ := @waitAck_isSome (levelAfter port.last i) _ _ (by decide) (port.clock i)
  cases answer with
  | timedOut => exact .inl h
  | acked pin =>
    right
    rw [Port.TimesOut, h, waitAck_acked h]
    refine ⟨?_, rfl⟩
    intro htimes
    cases htimes

/-- How a transfer of `left` bytes from byte `i` on ends: `n` bytes are handshaken, and it gives up
at the next one if that is not the end. -/
structure Ends (port : Port) (size : Uint) (left i n : Nat) (count : Uint) : Prop where
  acked : ∀ j, i ≤ j → j < i + n → ¬port.TimesOut j
  done : n = left → count = size
  gaveUp : n ≠ left → n < left ∧ port.TimesOut (i + n) ∧ count = givenUp (i + n)

theorem Ends.next {port : Port} {size : Uint} {left i n : Nat} {count : Uint}
    (hack : ¬port.TimesOut i) (h : Ends port size left (i + 1) n count) :
    Ends port size (left + 1) i (n + 1) count where
  acked := by
    intro j hij hj
    rcases Nat.eq_or_lt_of_le hij with heq | hlt
    · rw [← heq]
      exact hack
    · exact h.acked j hlt (by omega)
  done := by
    intro hn
    exact h.done (by omega)
  gaveUp := by
    intro hn
    obtain ⟨hlt, htimes, hcount⟩ := h.gaveUp (by omega)
    have hat : i + (n + 1) = i + 1 + n := by omega
    rw [hat]
    exact ⟨by omega, htimes, hcount⟩

theorem Ends.now {port : Port} {size : Uint} {left i : Nat} (htimes : port.TimesOut i) :
    Ends port size (left + 1) i 0 (givenUp i) where
  acked := by
    intro j hij hj
    omega
  done := by
    intro hn
    omega
  gaveUp _ := ⟨by omega, htimes, rfl⟩

theorem Ends.all {port : Port} {size : Uint} {i : Nat} : Ends port size 0 i 0 size where
  acked := by
    intro j hij hj
    omega
  done _ := rfl
  gaveUp h := absurd rfl h

theorem sendFrom_ends (port : Port) (size : Uint) (left i : Nat) (input : List Byte)
    (hinput : input.length = left) :
    ∃ t n count,
      sendFrom hostTimeout port.polls size left i (levelAfter port.last i) input = some t ∧
      Ends port size left i n count ∧ t.answer = wordBytes count ∧
      handshaken t.events = input.take n := by
  induction left generalizing i input with
  | zero => exact ⟨_, 0, size, rfl, .all, rfl, rfl⟩
  | succ left ih =>
    obtain ⟨b, input, rfl⟩ := List.exists_cons_of_length_eq_add_one hinput
    rw [sendFrom]
    rcases port.waits i with htimes | ⟨hin, hack⟩
    · have h : waitAck (levelAfter port.last i) hostTimeout (port.polls i) = some .timedOut :=
        htimes
      rw [h]
      exact ⟨_, 0, _, rfl, .now htimes, rfl, rfl⟩
    · rw [hack]
      obtain ⟨t, n, count, hrun, hends, hanswer, hshaken⟩ :=
        ih (i + 1) input (by simpa using hinput)
      refine ⟨.after [.wrote b, .strobe, .acked] [] t, n + 1, count, ?_, hends.next hin, hanswer,
        ?_⟩
      · show Option.map _ (sendFrom _ _ _ _ _ _ _) = _
        rw [hrun]
        rfl
      · show b :: handshaken t.events = _
        rw [hshaken, List.take_succ_cons]

theorem receiveFrom_ends (port : Port) (size : Uint) (left i : Nat) :
    ∃ t n count,
      receiveFrom hostTimeout port.polls port.data size left i (levelAfter port.last i) = some t ∧
      Ends port size left i n count ∧ handshaken t.events = reads port.data i n ∧
      t.answer = reads port.data i n ++ (List.replicate (left - n) 0xff#8 ++ wordBytes count) := by
  induction left generalizing i with
  | zero => exact ⟨_, 0, size, rfl, .all, rfl, rfl⟩
  | succ left ih =>
    rw [receiveFrom]
    rcases port.waits i with htimes | ⟨hin, hack⟩
    · have h : waitAck (levelAfter port.last i) hostTimeout (port.polls i) = some .timedOut :=
        htimes
      rw [h]
      exact ⟨_, 0, _, rfl, .now htimes, rfl, rfl⟩
    · rw [hack]
      obtain ⟨t, n, count, hrun, hends, hshaken, hanswer⟩ := ih (i + 1)
      refine ⟨.after [.acked, .read (port.data i), .strobe] [port.data i] t, n + 1, count, ?_,
        hends.next hin, ?_, ?_⟩
      · show Option.map _ (receiveFrom _ _ _ _ _ _ _) = _
        rw [hrun]
        rfl
      · show port.data i :: handshaken t.events = _
        rw [hshaken]
        rfl
      · show port.data i :: t.answer = _
        rw [hanswer, Nat.add_sub_add_right]
        rfl

/-! ## The calls -/

theorem toNat_givenUp {n : Nat} {size : Uint} (h : n < size.toNat) :
    (givenUp n).toNat = n + 1 := by
  have := size.isLt
  rw [givenUp, BitVec.toNat_ofNat]
  omega

/-- A call is honest when its transfer has not given up: the count of one that has is one too
many. -/
theorem honest_iff {port : Port} {size count : Uint} {n : Nat} {t : Transfer} {verb : String}
    {buffer : List Byte} (hends : Ends port size size.toNat 0 n count)
    (hshaken : (handshaken t.events).length = n) (hbuffer : buffer.length = size.toNat)
    (hall : n = size.toNat → handshaken t.events = buffer) :
    Honest t (.of count size verb buffer) ↔ n = size.toNat := by
  constructor
  · intro honest
    by_contra hn
    obtain ⟨hlt, -, hcount⟩ := hends.gaveUp hn
    rw [Nat.zero_add] at hcount
    have hone : count.toNat = n + 1 := by rw [hcount, toNat_givenUp hlt]
    by_cases heq : count = size
    · have hfull : handshaken t.events = buffer := honest.success.mp (decide_eq_true heq)
      rw [← hshaken, hfull, hbuffer] at hn
      exact hn rfl
    · have herror := honest.count ⟨count, size, verb⟩ (if_neg heq)
      rw [hone, hshaken] at herror
      omega
  · intro hn
    have heq : count = size := hends.done hn
    constructor
    · exact iff_of_true (decide_eq_true heq) (hall hn)
    · intro e he
      rw [Result.of, if_pos heq] at he
      cases he

/-- No byte times out when the transfer has not given up. -/
theorem Ends.iff {port : Port} {size count : Uint} {left n : Nat}
    (h : Ends port size left 0 n count) : n = left ↔ ∀ i < left, ¬port.TimesOut i := by
  constructor
  · intro hn i hi
    exact h.acked i (Nat.zero_le i) (by omega)
  · intro hnone
    by_contra hn
    obtain ⟨hlt, htimes, -⟩ := h.gaveUp hn
    rw [Nat.zero_add] at htimes
    exact hnone n hlt htimes

theorem serve_send (port : Port) (size : Uint) (data : List Byte) :
    serve port ((Frame.mk Frame.cmdSend size hostTimeout).bytes ++ data) =
      send hostTimeout port.polls size port.last data := by
  have hhead : ((Frame.mk Frame.cmdSend size hostTimeout).bytes ++ data).take 9 =
      (Frame.mk Frame.cmdSend size hostTimeout).bytes := rfl
  rw [serve, hhead, Frame.parse_bytes]
  rfl

theorem serve_receive (port : Port) (size : Uint) :
    serve port (Frame.mk Frame.cmdReceive size hostTimeout).bytes =
      receive hostTimeout port.polls port.data size port.last := by
  have hhead : (Frame.mk Frame.cmdReceive size hostTimeout).bytes.take 9 =
      (Frame.mk Frame.cmdReceive size hostTimeout).bytes := rfl
  rw [serve, hhead, Frame.parse_bytes]
  rfl

/-- **A send tells what was handshaken when no byte times out, and only then.** -/
theorem send_honest (port : Port) (data : List Byte) (hsize : data.length < 2 ^ 31) :
    ∃ t r, driver_serial_send port data = some (t, r) ∧
      (Honest t r ↔ ∀ i < data.length, ¬port.TimesOut i) := by
  have hlen : (BitVec.ofNat 32 data.length : Uint).toNat = data.length := by
    rw [BitVec.toNat_ofNat]
    omega
  generalize hword : (BitVec.ofNat 32 data.length : Uint) = size at hlen
  obtain ⟨t, n, count, hrun, hends, hanswer, hshaken⟩ :=
    sendFrom_ends port size data.length 0 data rfl
  rw [← hlen] at hends hrun
  refine ⟨t, .of count size "sent" data, ?_, ?_⟩
  · have hsend : send hostTimeout port.polls size port.last data = some t := hrun
    have hfour : (wordBytes count).take 4 = wordBytes count := rfl
    simp only [driver_serial_send, hword, serve_send, hsend, hanswer, hfour, readCount_wordBytes]
  · rw [← hlen, ← hends.iff]
    have hn : n ≤ size.toNat := by
      by_cases hn : n = size.toNat
      · omega
      · exact (hends.gaveUp hn).1.le
    apply honest_iff hends
    · rw [hshaken, List.length_take]
      omega
    · exact hlen.symm
    · intro hall
      rw [hshaken, hall, hlen, List.take_length]

/-- **A receive tells what was handshaken when no byte times out, and only then.** -/
theorem receive_honest (port : Port) (size : Uint) :
    ∃ t r, driver_serial_receive port size = some (t, r) ∧
      (Honest t r ↔ ∀ i < size.toNat, ¬port.TimesOut i) := by
  obtain ⟨t, n, count, hrun, hends, hshaken, hanswer⟩ := receiveFrom_ends port size size.toNat 0
  have hn : n ≤ size.toNat := by
    by_cases hn : n = size.toNat
    · omega
    · exact (hends.gaveUp hn).1.le
  have hreads : (reads port.data 0 n).length = n := length_reads _ _ _
  have hstored : t.answer.take size.toNat =
      reads port.data 0 n ++ List.replicate (size.toNat - n) 0xff#8 := by
    rw [hanswer, ← List.append_assoc, List.take_left']
    rw [List.length_append, hreads, List.length_replicate]
    omega
  have hcount : (t.answer.drop size.toNat).take 4 = wordBytes count := by
    rw [hanswer, ← List.append_assoc, List.drop_left']
    · rfl
    · rw [List.length_append, hreads, List.length_replicate]
      omega
  refine ⟨t, .of count size "received" (t.answer.take size.toNat), ?_, ?_⟩
  · have hreceive : receive hostTimeout port.polls port.data size port.last = some t := hrun
    simp only [driver_serial_receive, serve_receive, hreceive, hcount, readCount_wordBytes]
  · rw [← hends.iff]
    apply honest_iff hends
    · rw [hshaken, hreads]
    · rw [hstored, List.length_append, hreads, List.length_replicate]
      omega
    · intro hall
      rw [hstored, hshaken, hall, Nat.sub_self, List.replicate_zero, List.append_nil]

/-- **A transfer tells what was handshaken**, in its result and in its error, when every byte is
acknowledged in time, and only then. -/
theorem transfer_honest (port : Port) (req : Request) (hint : req.size < 2 ^ 31) :
    ∃ t r, req.run port = some (t, r) ∧ (Honest t r ↔ ∀ i < req.size, ¬port.TimesOut i) := by
  cases req with
  | send data => exact send_honest port data hint
  | receive size => exact receive_honest port size

/-- A Commodore that acknowledges the first byte and then no more. -/
def oncePort : Port where
  last := true
  polls _ := [⟨false, 0⟩, ⟨false, 2⟩]
  data _ := 0x2a#8
  clock _ := ⟨⟨false, 2⟩, by decide, by decide⟩

theorem transfer_honest_received :
    ∃ t r, (Request.receive 1).run oncePort = some (t, r) ∧
      (Honest t r ↔ ∀ i < 1, ¬oncePort.TimesOut i) :=
  transfer_honest oncePort (.receive 1) (by decide)

/-- A Commodore that acknowledges nothing. -/
def silentPort : Port where
  last := true
  polls _ := [⟨true, 0⟩, ⟨true, 2⟩]
  data _ := 0x00#8
  clock _ := ⟨⟨true, 2⟩, by decide, by decide⟩

/-- One byte is sent, nothing is acknowledged, and the send succeeds. -/
theorem silence_succeeds : ∃ t r, (Request.send [0x2a#8]).run silentPort = some (t, r) ∧
    r.result = true ∧ handshaken t.events = [] ∧ ¬Honest t r := by
  refine ⟨_, _, rfl, rfl, rfl, ?_⟩
  intro honest
  have hshaken := honest.success.mp rfl
  cases hshaken

end Xlink.Serial

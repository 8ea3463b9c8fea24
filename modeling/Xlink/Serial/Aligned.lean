import Xlink.Serial.Link

/-!
# The serial link stays aligned

There is no marker in the host's stream that says where a frame begins. The firmware finds the next
frame because it has read all that came before it, and it loses its place when a byte is dropped,
or when a `Send` gives up and flushes the ring before the rest of its payload has arrived: what
arrives then is read as frames. In a run without such steps the firmware dispatches the frames that
were sent, in order, and a send that is reported as a success has forwarded its payload.
-/

namespace Xlink.Serial

open Word (Byte)

/-- What the link promises: the frames dispatched are the first of those sent; the `Send` under way
has forwarded the beginning of its payload and has the rest still to read; a send that returned a
success has forwarded its payload. -/
structure State.Aligned (s : State) : Prop where
  dispatched : s.dispatched <+: s.issued.map Call.frame
  sending : ∀ size timeout i,
    s.firmware = .sendNext size timeout i ∨ s.firmware = .sendWait size timeout i →
      ∃ data, s.issued.getLast? = some (.send data) ∧ s.fwd ++ s.unread = data.val
  reported : ∀ (k : Nat) (data : List Byte), s.reported[k]? = some (data, true) →
    s.forwarded[k]? = some data

/-! ## Where the link is -/

/-- What a finished `Send` has forwarded, and what its call was told. -/
def Kept (fwd : List Byte) (told : List Byte × Bool) : Prop := told.2 = true → fwd = told.1

/-- The calls that were sent and not dispatched: the one the host is in comes last, and only that
one has an answer. -/
def Owes : Option (Call × List Byte) → List Call → Prop
  | none, pending => ∀ c ∈ pending, c.answers = 0
  | some (c, got), pending =>
    got = [] ∧ ∃ before, pending = before ++ [c] ∧ ∀ d ∈ before, d.answers = 0

/-- The answer to a call, as much of it as the host has read and the firmware has written: all of
it, and for a send a count that tells what was forwarded. -/
inductive Answered (forwarded : List (List Byte)) (reported : List (List Byte × Bool)) :
    Call → List Byte → Prop
  | send (data : Payload) (bytes : List Byte) (before : List (List Byte)) (fwd : List Byte)
      (count : Uint) (hbytes : bytes = wordBytes count) (hforwarded : forwarded = before ++ [fwd])
      (hkept : List.Forall₂ Kept before reported)
      (hcount : count = BitVec.ofNat 32 data.val.length → fwd = data.val) :
      Answered forwarded reported (.send data) bytes
  | other (c : Call) (bytes : List Byte) (hc : ∀ data, c ≠ .send data)
      (hlen : bytes.length = c.answers) (hkept : List.Forall₂ Kept forwarded reported) :
      Answered forwarded reported c bytes

/-- The firmware runs the last call that was sent. -/
structure Running (s : State) (c : Call) : Prop where
  issued : ∃ before, s.issued = before ++ [c]
  dispatched : s.dispatched = s.issued.map Call.frame

/-- A `Send` is under way. -/
structure Sending (s : State) (data : Payload) : Prop where
  running : Running s (.send data)
  current : s.host.current = some (.send data, [])
  reply : s.reply = []
  stream : s.fwd ++ s.unread = data.val
  kept : List.Forall₂ Kept s.forwarded s.reported

/-- Where the link is: before a frame, after the answer of a call, or in a transfer. -/
inductive Phase (s : State) : Prop
  | main (got : List Byte) (done pending : List Call) (hfirmware : s.firmware = .main got)
      (hgot : got.length < 9) (hissued : s.issued = done ++ pending)
      (hdispatched : s.dispatched = done.map Call.frame)
      (hstream : got ++ s.unread = pending.flatMap Call.bytes)
      (howes : Owes s.host.current pending) (hreply : s.reply = [])
      (hkept : List.Forall₂ Kept s.forwarded s.reported)
  | answered (c : Call) (got : List Byte) (hfirmware : s.firmware = .main [])
      (hrunning : Running s c) (hstream : s.unread = [])
      (hcurrent : s.host.current = some (c, got))
      (hanswered : Answered s.forwarded s.reported c (got ++ s.reply))
  | sendNext (data : Payload) (timeout : Uint)
      (hfirmware : s.firmware = .sendNext (BitVec.ofNat 32 data.val.length) timeout s.fwd.length)
      (hsending : Sending s data)
  | sendWait (data : Payload) (timeout : Uint) (i : Nat)
      (hfirmware : s.firmware = .sendWait (BitVec.ofNat 32 data.val.length) timeout i)
      (hlen : s.fwd.length = i + 1) (hsending : Sending s data)
  | receiveWait (size : Fin (2 ^ 31)) (timeout : Uint) (i : Nat) (got : List Byte)
      (hfirmware : s.firmware = .receiveWait (BitVec.ofNat 32 size) timeout i) (hi : i < size)
      (hrunning : Running s (.receive size)) (hstream : s.unread = [])
      (hcurrent : s.host.current = some (.receive size, got))
      (hlen : (got ++ s.reply).length = i) (hkept : List.Forall₂ Kept s.forwarded s.reported)

/-- What the firmware says about the phase. -/
def Phase.At (s : State) : Firmware → Prop
  | .main got => s.unread = [] ∨ ∃ done pending, got.length < 9 ∧ s.issued = done ++ pending ∧
    s.dispatched = done.map Call.frame ∧ got ++ s.unread = pending.flatMap Call.bytes ∧
    Owes s.host.current pending ∧ s.reply = [] ∧ List.Forall₂ Kept s.forwarded s.reported
  | .sendNext size _ i => ∃ data : Payload, size = BitVec.ofNat 32 data.val.length ∧
    i = s.fwd.length ∧ Sending s data
  | .sendWait size _ i => ∃ data : Payload, size = BitVec.ofNat 32 data.val.length ∧
    s.fwd.length = i + 1 ∧ Sending s data
  | .receiveWait size _ i => ∃ (n : Fin (2 ^ 31)) (got : List Byte), size = BitVec.ofNat 32 n ∧
    i < n ∧ Running s (.receive n) ∧ s.unread = [] ∧ s.host.current = some (.receive n, got) ∧
    (got ++ s.reply).length = i ∧ List.Forall₂ Kept s.forwarded s.reported

theorem Phase.at_firmware {s : State} (h : Phase s) : Phase.At s s.firmware := by
  cases h with
  | main got done pending hfirmware hgot hissued hdispatched hstream howes hreply hkept =>
    rw [hfirmware]
    exact .inr ⟨done, pending, hgot, hissued, hdispatched, hstream, howes, hreply, hkept⟩
  | answered c got hfirmware hrunning hstream =>
    rw [hfirmware]
    exact .inl hstream
  | sendNext data timeout hfirmware hsending =>
    rw [hfirmware]
    exact ⟨data, rfl, rfl, hsending⟩
  | sendWait data timeout i hfirmware hlen hsending =>
    rw [hfirmware]
    exact ⟨data, rfl, hlen, hsending⟩
  | receiveWait size timeout i got hfirmware hi hrunning hstream hcurrent hlen hkept =>
    rw [hfirmware]
    exact ⟨size, got, rfl, hi, hrunning, hstream, hcurrent, hlen, hkept⟩

theorem phase_init : Phase .init :=
  .main [] [] [] rfl (by decide) rfl rfl rfl (fun _ h => absurd h List.not_mem_nil) rfl .nil

variable {s t : State}

/-- A `Send` ends when all of its payload has been read or flushed. -/
theorem Phase.sent {data : Payload} {count : Uint} (hrunning : Running s (.send data))
    (hcurrent : s.host.current = some (.send data, [])) (hreply : s.reply = [])
    (hkept : List.Forall₂ Kept s.forwarded s.reported) (hnone : s.unread = [])
    (hcount : count = BitVec.ofNat 32 data.val.length → s.fwd = data.val) :
    Phase (s.sent count) := by
  apply Phase.answered (.send data) []
  · rfl
  · exact ⟨hrunning.issued, hrunning.dispatched⟩
  · exact hnone
  · exact hcurrent
  · show Answered (s.forwarded ++ [s.fwd]) s.reported (.send data) (s.reply ++ wordBytes count)
    rw [hreply]
    exact .send data _ s.forwarded s.fwd count rfl rfl hkept hcount

/-! ## The host's steps -/

/-- Bytes that move on, none lost, change nothing else. -/
theorem Phase.moved (h : Phase s) {host : Host} {wire ring : List Byte}
    (hcurrent : host.current = s.host.current)
    (hunread : ring ++ (wire ++ host.unwritten) = s.unread) :
    Phase { s with host := host, wire := wire, ring := ring } := by
  cases h with
  | main got done pending hfirmware hgot hissued hdispatched hstream howes hreply hkept =>
    rw [← hunread] at hstream
    rw [← hcurrent] at howes
    exact .main got done pending hfirmware hgot hissued hdispatched hstream howes hreply hkept
  | answered c got hfirmware hrunning hstream hc hanswered =>
    rw [← hunread] at hstream
    rw [← hcurrent] at hc
    exact .answered c got hfirmware ⟨hrunning.1, hrunning.2⟩ hstream hc hanswered
  | sendNext data timeout hfirmware h =>
    have hstream := h.stream
    have hc := h.current
    rw [← hunread] at hstream
    rw [← hcurrent] at hc
    exact .sendNext data timeout hfirmware
      ⟨⟨h.running.1, h.running.2⟩, hc, h.reply, hstream, h.kept⟩
  | sendWait data timeout i hfirmware hlen h =>
    have hstream := h.stream
    have hc := h.current
    rw [← hunread] at hstream
    rw [← hcurrent] at hc
    exact .sendWait data timeout i hfirmware hlen
      ⟨⟨h.running.1, h.running.2⟩, hc, h.reply, hstream, h.kept⟩
  | receiveWait size timeout i got hfirmware hi hrunning hstream hc hlen hkept =>
    rw [← hunread] at hstream
    rw [← hcurrent] at hc
    exact .receiveWait size timeout i got hfirmware hi ⟨hrunning.1, hrunning.2⟩ hstream hc hlen
      hkept

/-- A call without an answer returns. -/
theorem Owes.idle {c : Call} {got : List Byte} {pending : List Call}
    (h : Owes (some (c, got)) pending) (hlen : got.length = c.answers) : Owes none pending := by
  obtain ⟨rfl, before, rfl, hbefore⟩ := h
  intro d hd
  rcases List.mem_append.mp hd with hd | hd
  · exact hbefore d hd
  · rw [List.mem_singleton.mp hd, ← hlen]
    rfl

/-- The host is between two calls. -/
def State.idle (s : State) : State := { s with host := .idle }

theorem Phase.idle {c : Call} {got : List Byte} (h : Phase s) (hhost : s.host = .busy c [] got)
    (hlen : got.length = c.answers) (hc : ∀ data, c ≠ .send data) : Phase s.idle := by
  have hcurrent : s.host.current = some (c, got) := by rw [hhost]; rfl
  have hunread : s.idle.unread = s.unread := by rw [State.unread, State.unread, hhost]; rfl
  cases h with
  | main got' done pending hfirmware hgot hissued hdispatched hstream howes hreply hkept =>
    rw [hcurrent] at howes
    rw [← hunread] at hstream
    exact .main got' done pending hfirmware hgot hissued hdispatched hstream (howes.idle hlen)
      hreply hkept
  | answered c' got' hfirmware hrunning hstream hc' hanswered =>
    rw [hcurrent] at hc'
    cases hc'
    rw [← hunread] at hstream
    obtain ⟨before, hissued⟩ := hrunning.issued
    cases hanswered with
    | send data => exact absurd rfl (hc data)
    | other _ _ _ hfull hkept =>
      have hreply : s.reply = [] := by
        rw [List.length_append] at hfull
        exact List.length_eq_zero_iff.mp (by omega)
      refine .main [] s.issued [] hfirmware (by decide) (List.append_nil _).symm
        hrunning.dispatched hstream ?_ hreply hkept
      exact fun _ h => absurd h List.not_mem_nil
  | sendNext data timeout hfirmware h =>
    have := h.current
    rw [hcurrent] at this
    cases this
    exact absurd rfl (hc data)
  | sendWait data timeout i hfirmware _ h =>
    have := h.current
    rw [hcurrent] at this
    cases this
    exact absurd rfl (hc data)
  | receiveWait size timeout i got' hfirmware hi hrunning hstream hc' hi' hkept =>
    rw [hcurrent] at hc'
    cases hc'
    rw [List.length_append] at hi'
    simp only [Call.answers] at hlen
    omega

/-- A send returns, with the result that the count of its answer gives. -/
theorem Phase.returned {data : Payload} {got : List Byte} (h : Phase s)
    (hhost : s.host = .busy (.send data) [] got) (hlen : got.length = 4) :
    Phase { s.idle with reported := s.reported ++ [(data.val, State.sendResult data got)] } := by
  have hcurrent : s.host.current = some (.send data, got) := by rw [hhost]; rfl
  cases h with
  | main got' done pending hfirmware hgot hissued hdispatched hstream howes hreply hkept =>
    rw [hcurrent] at howes
    rw [howes.1] at hlen
    cases hlen
  | answered c got' hfirmware hrunning hstream hc hanswered =>
    rw [hcurrent] at hc
    cases hc
    cases hanswered with
    | send _ _ before fwd count hbytes hforwarded hkept hcount =>
      have hreply : s.reply = [] := by
        have hfour : (got ++ s.reply).length = 4 := by rw [hbytes, length_wordBytes]
        rw [List.length_append] at hfour
        exact List.length_eq_zero_iff.mp (by omega)
      rw [hreply, List.append_nil] at hbytes
      have hunread : s.idle.unread = [] := by
        rw [← hstream, State.unread, State.unread, hhost]
        rfl
      refine .main [] s.issued [] hfirmware (by decide) (List.append_nil _).symm
        hrunning.dispatched hunread (fun _ h => absurd h List.not_mem_nil) hreply ?_
      show List.Forall₂ Kept s.forwarded (s.reported ++ [(data.val, State.sendResult data got)])
      rw [hforwarded]
      apply List.rel_append hkept
      apply List.Forall₂.cons _ .nil
      intro htrue
      apply hcount
      rw [State.sendResult, hbytes, readCount_wordBytes] at htrue
      exact Option.some.inj (of_decide_eq_true htrue)
    | other _ _ hc => exact absurd rfl (hc data)
  | sendNext data' timeout hfirmware h =>
    have hc := h.current
    rw [hcurrent] at hc
    cases hc
    cases hlen
  | sendWait data' timeout i hfirmware _ h =>
    have hc := h.current
    rw [hcurrent] at hc
    cases hc
    cases hlen
  | receiveWait size timeout i got' hfirmware hi hrunning hstream hc =>
    rw [hcurrent] at hc
    cases hc

/-- A host that may return is as good as one that has. -/
theorem Phase.settle (h : Phase s) : Phase s.settle := by
  unfold State.settle
  split
  next data got hhost =>
    split
    next hlen => exact h.returned hhost hlen
    next => exact h
  next call got hsend hhost =>
    split
    next hlen => exact h.idle hhost hlen fun data heq => hsend data heq
    next => exact h
  next => exact h

/-- The next call begins: what it writes comes after all that was sent. -/
theorem Phase.call {c : Call} (h : Phase s) (hact : s.call c = some t) : Phase t := by
  unfold State.call at hact
  split at hact
  next hhost =>
    cases hact
    have hcurrent : s.host.current = none := by rw [hhost]; rfl
    cases h with
    | main got done pending hfirmware hgot hissued hdispatched hstream howes hreply hkept =>
      rw [hcurrent] at howes
      refine .main got done (pending ++ [c]) hfirmware hgot ?_ hdispatched ?_
        ⟨rfl, pending, rfl, howes⟩ hreply hkept
      · rw [← List.append_assoc, ← hissued]
      · rw [List.flatMap_append, ← hstream]
        simp [State.unread, hhost, Host.unwritten]
    | answered _ _ _ _ _ hc =>
      rw [hcurrent] at hc
      cases hc
    | sendNext _ _ _ h =>
      have hc := h.current
      rw [hcurrent] at hc
      cases hc
    | sendWait _ _ _ _ _ h =>
      have hc := h.current
      rw [hcurrent] at hc
      cases hc
    | receiveWait _ _ _ _ _ _ _ _ hc =>
      rw [hcurrent] at hc
      cases hc
  next => cases hact

theorem Phase.write (h : Phase s) (hact : s.write = some t) : Phase t := by
  unfold State.write at hact
  split at hact
  next c chunk chunks got hhost =>
    cases hact
    apply Phase.settle
    apply @Phase.moved _ h (.busy c chunks got)
    · rw [hhost]
      rfl
    · simp [State.unread, hhost, Host.unwritten]
  next => cases hact

theorem Phase.arrive {ringSize : Nat} (h : Phase s) (hroom : s.ring.length < ringSize)
    (hact : s.arrive ringSize = some t) : Phase t := by
  unfold State.arrive at hact
  split at hact
  next => cases hact
  next b wire hwire =>
    cases hact
    rw [if_pos hroom]
    apply h.moved rfl
    simp [State.unread, hwire]

theorem Phase.fetch (h : Phase s) (hact : s.fetch = some t) : Phase t := by
  unfold State.fetch at hact
  split at hact
  next c got b reply hhost hreply =>
    cases hact
    apply Phase.settle
    have hcurrent : s.host.current = some (c, got) := by rw [hhost]; rfl
    have hunread : ({ s with host := .busy c [] (got ++ [b]), reply := reply } : State).unread =
        s.unread := by
      rw [State.unread, State.unread, hhost]
      rfl
    have hread : got ++ [b] ++ reply = got ++ s.reply := by rw [hreply, List.append_assoc]; rfl
    cases h with
    | main _ _ _ _ _ _ _ _ _ hnone =>
      rw [hreply] at hnone
      cases hnone
    | answered c' got' hfirmware hrunning hstream hc hanswered =>
      rw [hcurrent] at hc
      cases hc
      rw [← hread] at hanswered
      rw [← hunread] at hstream
      exact .answered c (got ++ [b]) hfirmware ⟨hrunning.1, hrunning.2⟩ hstream rfl hanswered
    | sendNext _ _ _ h =>
      have hnone := h.reply
      rw [hreply] at hnone
      cases hnone
    | sendWait _ _ _ _ _ h =>
      have hnone := h.reply
      rw [hreply] at hnone
      cases hnone
    | receiveWait size timeout i got' hfirmware hi hrunning hstream hc hlen hkept =>
      rw [hcurrent] at hc
      cases hc
      rw [← hread] at hlen
      rw [← hunread] at hstream
      exact .receiveWait size timeout i (got ++ [b]) hfirmware hi ⟨hrunning.1, hrunning.2⟩ hstream
        rfl hlen hkept
  next => cases hact

/-! ## The firmware's steps -/

/-- A call that has an answer is the one the host is in, and the last. -/
theorem Owes.last {current : Option (Call × List Byte)} {c : Call} {rest : List Call}
    (h : Owes current (c :: rest)) (hc : c.answers ≠ 0) : current = some (c, []) ∧ rest = [] := by
  cases current with
  | none => exact absurd (h c List.mem_cons_self) hc
  | some call =>
    obtain ⟨d, got⟩ := call
    obtain ⟨rfl, before, hpending, hbefore⟩ := h
    cases before with
    | nil =>
      cases hpending
      exact ⟨rfl, rfl⟩
    | cons e before =>
      cases hpending
      exact absurd (hbefore c List.mem_cons_self) hc

/-- The `switch` does nothing more for a call without an answer. -/
theorem dispatch_silent {c : Call} (pins : Pins) (hc : c.answers = 0) :
    s.dispatch pins c.frame = s.taken c.frame := by
  cases c with
  | acked | read | send | receive => simp [Call.answers] at hc
  | _ => rfl

theorem toNat_length (data : Payload) :
    (BitVec.ofNat 32 data.val.length : Uint).toNat = data.val.length := by
  have := data.property
  rw [BitVec.toNat_ofNat]
  omega

theorem toNat_size (size : Fin (2 ^ 31)) : (BitVec.ofNat 32 size : Uint).toNat = size := by
  have := size.isLt
  rw [BitVec.toNat_ofNat]
  omega

/-- A whole answer at once, to a call that is not a send. -/
theorem Phase.answer {c : Call} {got bytes : List Byte} (hrunning : Running s c)
    (hnone : s.unread = []) (hcurrent : s.host.current = some (c, got))
    (hc : ∀ data, c ≠ .send data) (hlen : (got ++ (s.reply ++ bytes)).length = c.answers)
    (hkept : List.Forall₂ Kept s.forwarded s.reported) : Phase (s.answer bytes) :=
  .answered c got rfl ⟨hrunning.1, hrunning.2⟩ hnone hcurrent (.other c _ hc hlen hkept)

/-- The head of the loop of `Send`, with the bytes before `i` forwarded. -/
theorem Sending.top {data : Payload} {i : Nat} (h : Sending s data) (timeout : Uint)
    (hlen : s.fwd.length = i) : Phase (s.sendTop (BitVec.ofNat 32 data.val.length) timeout i) := by
  unfold State.sendTop
  split
  next hlt =>
    refine .sendNext data timeout ?_ ⟨⟨h.running.1, h.running.2⟩, h.current, h.reply, h.stream,
      h.kept⟩
    rw [← hlen]
  next hge =>
    rw [toNat_length] at hge
    have hall : s.fwd.length + s.unread.length = data.val.length := by
      rw [← List.length_append, h.stream]
    have hnone : s.unread = [] := List.length_eq_zero_iff.mp (by omega)
    apply Phase.sent h.running h.current h.reply h.kept hnone
    intro _
    rw [← h.stream, hnone, List.append_nil]

/-- The head of the loop of `Receive`. -/
theorem Phase.top {size : Fin (2 ^ 31)} {i : Nat} {got : List Byte} (timeout : Uint)
    (hrunning : Running s (.receive size)) (hnone : s.unread = [])
    (hcurrent : s.host.current = some (.receive size, got)) (hi : i ≤ size)
    (hlen : (got ++ s.reply).length = i) (hkept : List.Forall₂ Kept s.forwarded s.reported) :
    Phase (s.receiveTop (BitVec.ofNat 32 size) timeout i) := by
  unfold State.receiveTop
  split
  next hlt =>
    rw [toNat_size] at hlt
    exact .receiveWait size timeout i got rfl hlt ⟨hrunning.1, hrunning.2⟩ hnone hcurrent hlen hkept
  next hge =>
    rw [toNat_size] at hge
    apply Phase.answer hrunning hnone hcurrent
    · intro data hc
      cases hc
    · rw [← List.append_assoc, List.length_append, hlen, length_wordBytes, Call.answers]
      omega
    · exact hkept

/-- The frame of the first call that was not dispatched is dispatched. -/
theorem phase_dispatch {c : Call} {done rest : List Call} (pins : Pins)
    (hissued : s.issued = done ++ c :: rest) (hdispatched : s.dispatched = done.map Call.frame)
    (hstream : s.unread = c.payload ++ rest.flatMap Call.bytes)
    (howes : Owes s.host.current (c :: rest)) (hreply : s.reply = [])
    (hkept : List.Forall₂ Kept s.forwarded s.reported) : Phase (s.dispatch pins c.frame) := by
  have hnext : s.dispatched ++ [c.frame] = (done ++ [c]).map Call.frame := by
    rw [hdispatched, List.map_append, List.map_singleton]
  by_cases hc : c.answers = 0
  · rw [dispatch_silent pins hc]
    have hpayload : c.payload = [] := by
      cases c with
      | send data => simp [Call.answers] at hc
      | _ => rfl
    rw [hpayload, List.nil_append] at hstream
    have hissued' : s.issued = done ++ [c] ++ rest := by rw [hissued, List.append_assoc]; rfl
    cases hcurrent : s.host.current with
    | none =>
      rw [hcurrent] at howes
      refine .main [] (done ++ [c]) rest rfl (by decide) hissued' hnext hstream ?_ hreply hkept
      show Owes s.host.current rest
      rw [hcurrent]
      exact fun d hd => howes d (List.mem_cons_of_mem c hd)
    | some call =>
      obtain ⟨d, got⟩ := call
      rw [hcurrent] at howes
      obtain ⟨rfl, before, hpending, hbefore⟩ := howes
      cases before with
      | nil =>
        cases hpending
        refine .answered c [] rfl ⟨⟨done, hissued⟩, ?_⟩ hstream hcurrent
          (.other c _ ?_ ?_ hkept)
        · show s.dispatched ++ [c.frame] = s.issued.map Call.frame
          rw [hnext, hissued]
        · rintro data rfl
          simp [Call.answers] at hc
        · rw [hc]
          show s.reply.length = 0
          rw [hreply]
          rfl
      | cons e before =>
        cases hpending
        refine .main [] (done ++ [c]) (before ++ [d]) rfl (by decide) hissued' hnext hstream ?_
          hreply hkept
        show Owes s.host.current (before ++ [d])
        rw [hcurrent]
        exact ⟨rfl, before, rfl, fun x hx => hbefore x (List.mem_cons_of_mem c hx)⟩
  · obtain ⟨hcurrent, rfl⟩ := howes.last hc
    rw [List.flatMap_nil, List.append_nil] at hstream
    have hrunning : Running (s.taken c.frame) c := by
      refine ⟨⟨done, hissued⟩, ?_⟩
      show s.dispatched ++ [c.frame] = s.issued.map Call.frame
      rw [hnext, hissued]
    have hone : ∀ b, ([] ++ (s.reply ++ [b])).length = 1 := by
      intro b
      rw [hreply]
      rfl
    cases c with
    | acked =>
      show Phase (State.ackedSince _ pins)
      unfold State.ackedSince
      split
      · exact Phase.answer hrunning hstream hcurrent (fun _ h => by cases h) (hone _) hkept
      · exact Phase.answer ⟨hrunning.1, hrunning.2⟩ hstream hcurrent (fun _ h => by cases h)
          (hone _) hkept
    | read => exact Phase.answer hrunning hstream hcurrent (fun _ h => by cases h) (hone _) hkept
    | send data => exact Sending.top ⟨hrunning, hcurrent, hreply, hstream, hkept⟩ 2 rfl
    | receive size =>
      apply Phase.top 2 hrunning hstream hcurrent (Nat.zero_le _) _ hkept
      show ([] ++ s.reply).length = 0
      rw [hreply]
      rfl
    | _ => exact absurd rfl hc

theorem Phase.read {pins : Pins} (h : Phase s) (hact : s.read pins = some t) : Phase t := by
  have hat := h.at_firmware
  unfold State.read at hact
  split at hact
  next b ring got hring hfirmware =>
    have hunread : s.unread = b :: (ring ++ (s.wire ++ s.host.unwritten)) := by
      rw [State.unread, hring, List.cons_append]
    rw [hfirmware] at hat
    obtain hnone | ⟨done, pending, hgot, hissued, hdispatched, hstream, howes, hreply, hkept⟩ := hat
    · rw [hunread] at hnone
      cases hnone
    have hstream' : got ++ [b] ++ (ring ++ (s.wire ++ s.host.unwritten)) =
        pending.flatMap Call.bytes := by
      rw [← hstream, hunread, List.append_assoc]
      rfl
    split at hact
    next f hparse =>
      cases hact
      have hnine : (got ++ [b]).length = 9 := Frame.parse_isSome.mp (by rw [hparse]; rfl)
      cases pending with
      | nil =>
        rw [List.flatMap_nil, List.append_assoc] at hstream'
        cases (List.append_eq_nil_iff.mp hstream').2
      | cons c rest =>
        rw [List.flatMap_cons, Call.bytes, List.append_assoc c.frame.bytes] at hstream'
        obtain ⟨hframe, hrest⟩ := List.append_inj hstream' (by rw [hnine, Frame.length_bytes])
        rw [hframe, Frame.parse_bytes] at hparse
        cases hparse
        exact phase_dispatch pins hissued hdispatched hrest howes hreply hkept
    next hparse =>
      cases hact
      have hshort : (got ++ [b]).length < 9 := by
        have hnot : ¬(got ++ [b]).length = 9 := by
          intro hnine
          have := Frame.parse_isSome.mpr hnine
          rw [hparse] at this
          cases this
        rw [List.length_append, List.length_singleton] at hnot ⊢
        omega
      exact .main (got ++ [b]) done pending rfl hshort hissued hdispatched hstream' howes hreply
        hkept
  next b ring size timeout i hring hfirmware =>
    cases hact
    rw [hfirmware] at hat
    obtain ⟨data, rfl, rfl, h⟩ := hat
    refine .sendWait data timeout _ rfl (by rw [List.length_append]; rfl)
      ⟨⟨h.running.1, h.running.2⟩, h.current, h.reply, ?_, h.kept⟩
    rw [← h.stream, State.unread, hring]
    simp [State.unread]
  next => cases hact

theorem Phase.wait {ringSize : Nat} {polls : List Poll} {data : Byte} (h : Phase s)
    (hcareful : s.Careful ringSize (.wait polls data)) (hact : s.wait polls data = some t) :
    Phase t := by
  have hat := h.at_firmware
  unfold State.wait at hact
  split at hact
  next size timeout i hfirmware =>
    rw [hfirmware] at hat
    obtain ⟨payload, rfl, hlen, h⟩ := hat
    split at hact
    next => cases hact
    next pin hack =>
      cases hact
      have hsending : Sending { s with last := pin } payload :=
        ⟨⟨h.running.1, h.running.2⟩, h.current, h.reply, h.stream, h.kept⟩
      exact hsending.top timeout hlen
    next hgave =>
      cases hact
      have hgives : s.givesUp (.wait polls data) = true := by
        simp only [State.givesUp, hfirmware, hgave, decide_true]
      obtain ⟨hwire, hunwritten⟩ := hcareful.2 hgives
      have hrunning : Running { s with ring := [] } (.send payload) :=
        ⟨h.running.1, h.running.2⟩
      apply Phase.sent hrunning h.current h.reply h.kept
      · show [] ++ (s.wire ++ s.host.unwritten) = []
        rw [hwire, hunwritten]
        rfl
      -- the count is the size when the last byte was given up on
      · intro hcount
        have hsplit := congrArg List.length h.stream
        have hbound := payload.property
        have hnat := congrArg BitVec.toNat hcount
        rw [List.length_append] at hsplit
        rw [toNat_length, givenUp, BitVec.toNat_ofNat, Nat.mod_eq_of_lt (by omega)] at hnat
        have hnone : s.unread = [] := List.length_eq_zero_iff.mp (by omega)
        rw [← h.stream, hnone, List.append_nil]
  next size timeout i hfirmware =>
    rw [hfirmware] at hat
    obtain ⟨n, got, rfl, hi, hrunning, hstream, hcurrent, hlen, hkept⟩ := hat
    split at hact
    next => cases hact
    next pin hack =>
      cases hact
      have hrunning' : Running { s with last := pin, reply := s.reply ++ [data] } (.receive n) :=
        ⟨hrunning.1, hrunning.2⟩
      apply Phase.top timeout hrunning' hstream hcurrent hi _ hkept
      show (got ++ (s.reply ++ [data])).length = i + 1
      rw [← List.append_assoc, List.length_append, hlen]
      rfl
    next hgave =>
      cases hact
      apply Phase.answer hrunning hstream hcurrent (fun _ h => by cases h) _ hkept
      rw [← List.append_assoc, List.length_append, hlen, List.length_append,
        List.length_replicate, length_wordBytes, toNat_size, Call.answers]
      omega
  next => cases hact

/-! ## Runs -/

theorem Phase.act {ringSize : Nat} {a : Action} (h : Phase s) (hcareful : s.Careful ringSize a)
    (hact : act ringSize s a = some t) : Phase t := by
  cases a with
  | call c => exact h.call hact
  | write => exact h.write hact
  | arrive => exact h.arrive (hcareful.1 rfl) hact
  | read pins => exact h.read hact
  | wait polls data => exact h.wait hcareful hact
  | fetch => exact h.fetch hact

/-- What was told of the sends before one that is not told of yet. -/
theorem Kept.get {forwarded : List (List Byte)} {reported : List (List Byte × Bool)}
    (h : List.Forall₂ Kept forwarded reported) {k : Nat} {data : List Byte}
    (hk : reported[k]? = some (data, true)) : forwarded[k]? = some data := by
  obtain ⟨hlt, hget⟩ := List.getElem?_eq_some_iff.mp hk
  have hlt' : k < forwarded.length := by rw [h.length_eq]; exact hlt
  have hkept := h.get hlt' hlt
  rw [List.get_eq_getElem, List.get_eq_getElem, hget] at hkept
  rw [List.getElem?_eq_getElem hlt', hkept rfl]

theorem Running.first {c : Call} (h : Running s c) :
    s.dispatched <+: s.issued.map Call.frame := by
  rw [h.dispatched]

theorem Sending.last {data : Payload} (h : Sending s data) :
    s.issued.getLast? = some (.send data) := by
  obtain ⟨before, hissued⟩ := h.running.issued
  rw [hissued, List.getLast?_concat]

/-- A `Send` is under way when the firmware is in one. -/
theorem Phase.sending {size timeout : Uint} {i : Nat} (h : Phase s)
    (hfirmware : s.firmware = .sendNext size timeout i ∨ s.firmware = .sendWait size timeout i) :
    ∃ data : Payload, s.issued.getLast? = some (.send data) ∧ s.fwd ++ s.unread = data.val := by
  have hat := h.at_firmware
  rcases hfirmware with hfirmware | hfirmware
  · rw [hfirmware] at hat
    obtain ⟨data, -, -, hsending⟩ := hat
    exact ⟨data, hsending.last, hsending.stream⟩
  · rw [hfirmware] at hat
    obtain ⟨data, -, -, hsending⟩ := hat
    exact ⟨data, hsending.last, hsending.stream⟩

theorem Phase.aligned (h : Phase s) : s.Aligned := by
  have hsending : ∀ size timeout i, s.firmware = .sendNext size timeout i ∨
      s.firmware = .sendWait size timeout i → ∃ data : Payload,
        s.issued.getLast? = some (.send data) ∧ s.fwd ++ s.unread = data.val :=
    fun _ _ _ hfirmware => h.sending hfirmware
  cases h with
  | main got done pending hfirmware hgot hissued hdispatched hstream howes hreply hkept =>
    refine ⟨?_, hsending, fun k data => Kept.get hkept⟩
    rw [hissued, hdispatched, List.map_append]
    exact List.prefix_append _ _
  | answered c got hfirmware hrunning hstream hc hanswered =>
    refine ⟨hrunning.first, hsending, ?_⟩
    intro k data hk
    cases hanswered with
    | send _ _ before fwd count hbytes hforwarded hkept =>
      have hget := Kept.get hkept hk
      obtain ⟨hlt, -⟩ := List.getElem?_eq_some_iff.mp hget
      rw [hforwarded, List.getElem?_append_left hlt]
      exact hget
    | other _ _ _ _ hkept => exact Kept.get hkept hk
  | sendNext data timeout hfirmware h =>
    exact ⟨h.running.first, hsending, fun k data => Kept.get h.kept⟩
  | sendWait data timeout i hfirmware hlen h =>
    exact ⟨h.running.first, hsending, fun k data => Kept.get h.kept⟩
  | receiveWait size timeout i got hfirmware hi hrunning hstream hc hlen hkept =>
    exact ⟨hrunning.first, hsending, fun k data => Kept.get hkept⟩

/-- **The link is aligned** in every state of a run that loses no byte and in which no `Send` gives
up before its payload has arrived, whatever the ring can hold. -/
theorem link_aligned {ringSize : Nat}
    (h : Transition.Reach (act ringSize) (State.Careful ringSize) .init s) : s.Aligned :=
  Phase.aligned (h.invariant phase_init fun _ _ _ hs hcareful hact => hs.act hcareful hact)

/-- A send of one byte that is acknowledged. -/
def acknowledged : List Action :=
  .call (.send ⟨[0x2a#8], by decide⟩) :: .write :: .write ::
    (List.replicate 10 .arrive ++ List.replicate 10 (.read ⟨true, 0x00#8⟩) ++
      .wait [⟨false, 0⟩] 0x00#8 :: List.replicate 4 .fetch)

theorem link_aligned_acknowledged : ∃ s, Transition.run (act 127) .init acknowledged = some s ∧
    s.reported = [([0x2a#8], true)] ∧ s.Aligned :=
  ⟨_, rfl, rfl, link_aligned (.of_run (by decide : Transition.Allowed (act 127)
    (State.Careful 127) .init acknowledged) rfl)⟩

/-- A send of two bytes that gives up at the first one, with the other on its way. The byte that is
left behind becomes the command of the next frame: the host asks for `Input`, and the firmware
resets the machine. -/
def leftBehind : List Action :=
  .call (.send ⟨[0x00#8, Frame.cmdReset], by decide⟩) :: .write :: .write ::
    (List.replicate 10 .arrive ++ List.replicate 10 (.read ⟨true, 0x00#8⟩) ++
      .wait [⟨true, 2⟩] 0x00#8 :: List.replicate 4 .fetch ++
      .call .input :: .write :: List.replicate 9 .arrive ++
      List.replicate 9 (.read ⟨true, 0x00#8⟩))

theorem link_misaligned : ∃ s, Transition.run (act 127) .init leftBehind = some s ∧
    s.dispatched.map Frame.cmd = [Frame.cmdSend, Frame.cmdReset] ∧
    s.issued.map (Frame.cmd ∘ Call.frame) = [Frame.cmdSend, Frame.cmdInput] ∧ ¬s.Aligned := by
  refine ⟨_, rfl, rfl, rfl, ?_⟩
  intro h
  have hfirst := h.dispatched
  revert hfirst
  decide

end Xlink.Serial

import Xlink.Port.Plan

/-!
# The strobe/ack handshake

`Phase` is the invariant of a call that meets no timeout: where the two parties can be at the same
time, what the latch, the level and the directions are there, and which of the two logs of a
direction is one byte ahead. There is one phase for each stretch between two accesses that the other
party can see. `Phase.client` and `Phase.server` are the two step lemmas; the handshake's property
is read off the phases.

`handshake` is about one call, of any size, and every order of the two parties' accesses. What a
timeout of the client leaves behind is in `Ping`, and when the port is driven from both sides is in
`Direction`.
-/

namespace Xlink.Port

open Word Transition

/-! ## The phases of a call -/

/-- The client has seen the last acknowledgement and the latch is clear. -/
structure State.Quiescent (s : State) : Prop where
  flag : s.flag = false
  last : s.last = s.pa2

/-- Nothing is on its way in either direction. -/
structure State.Even (s : State) : Prop where
  read : s.serverRead = s.written
  received : s.received = s.serverWritten

/-- The client has written a byte the server has not read. -/
structure State.ClientAhead (s : State) : Prop where
  written : s.written = s.serverRead ++ [s.data]
  received : s.received = s.serverWritten

/-- The server has written a byte the client has not read. -/
structure State.ServerAhead (s : State) : Prop where
  read : s.serverRead = s.written
  serverWritten : s.serverWritten = s.received ++ [s.dd01]

/-- The client has strobed a byte and waits, the server has read `got` before it. -/
structure State.Sending (s : State) (got : List Byte) : Prop where
  last : s.last = s.pa2
  driving : s.driving = true
  ddr : s.ddr = false
  ahead : s.ClientAhead
  ops : ∃ w ops, s.ops = w :: ops ∧ w.Awaits ∧ Sent (got ++ [s.data]) ops

/-- The server answers, and the client has only bytes to receive. -/
structure State.Answered (s : State) : Prop where
  driving : s.driving = false
  ops : Receiving s.ops

/-- Where client, server and port can be during a call. -/
inductive Phase (d : Driver) (s : State) : Prop
  /-- the parallel port is about to look at PA2 for the first time -/
  | opening (ops : List Op) (hops : s.ops = .open :: ops)
      (hinit : d = .parport ∧ s.initialized = false) (hserver : s.server = .poll [])
      (hflag : s.flag = false) (hddr : s.ddr = false) (heven : s.Even)
      (hplan : Plan [] false ops)
  /-- between two bytes -/
  | ready (hq : s.Quiescent) (hddr : s.ddr = false) (heven : s.Even)
      (hrest : Rest s.server s.driving s.ops)
  /-- a byte is on the lines, not yet strobed -/
  | strobing (got : List Byte) (o w : Op) (ops : List Op) (hq : s.Quiescent)
      (hddr : s.ddr = false) (hdriving : s.driving = true) (hahead : s.ClientAhead)
      (hserver : s.server = .poll got) (hops : s.ops = o :: w :: ops) (hshake : Shake o w)
      (hsent : Sent (got ++ [s.data]) ops)
  /-- strobed, not yet seen -/
  | strobed (got : List Byte) (hserver : s.server = .poll got) (hflag : s.flag = true)
      (hsending : s.Sending got)
  /-- seen, not yet read -/
  | loading (got : List Byte) (hserver : s.server = .load got) (hflag : s.flag = false)
      (hsending : s.Sending got)
  /-- read, not yet acknowledged -/
  | acking (got : List Byte) (w : Op) (ops : List Op) (hserver : s.server = .ack got)
      (hq : s.Quiescent) (hddr : s.ddr = false) (hdriving : s.driving = true) (heven : s.Even)
      (hops : s.ops = w :: ops) (hawaits : w.Awaits) (hsent : Sent got ops)
  /-- acknowledged, not yet seen by the client -/
  | acked (w : Op) (ops : List Op) (hflag : s.flag = false) (hlast : s.last ≠ s.pa2)
      (hddr : s.ddr = false) (hdriving : s.driving = true) (heven : s.Even)
      (hops : s.ops = w :: ops) (hawaits : w.Awaits) (hrest : Rest s.server true ops)
  /-- the client's port is turned around, the strobe not yet seen -/
  | asked (reply : List Byte) (hserver : s.server = .turn reply) (hflag : s.flag = true)
      (hlast : s.last = s.pa2) (hddr : s.ddr = false) (heven : s.Even) (hans : s.Answered)
  /-- seen, port B not yet turned around -/
  | turned (reply : List Byte) (hserver : s.server = .drive reply) (hq : s.Quiescent)
      (hddr : s.ddr = false) (heven : s.Even) (hans : s.Answered)
  /-- between two bytes of the answer -/
  | storing (reply : List Byte) (hserver : s.server = .store reply) (hq : s.Quiescent)
      (hddr : s.ddr = true) (heven : s.Even) (hans : s.Answered)
  /-- a byte of the answer is on the lines -/
  | flipping (reply : List Byte) (hserver : s.server = .flip reply) (hq : s.Quiescent)
      (hddr : s.ddr = true) (hahead : s.ServerAhead) (hans : s.Answered)
  /-- PA2 is flipped, not yet seen -/
  | offered (reply : List Byte) (hserver : s.server = .taken reply) (hflag : s.flag = false)
      (hlast : s.last ≠ s.pa2) (hddr : s.ddr = true) (hahead : s.ServerAhead) (hans : s.Answered)
  /-- seen, the byte not yet read -/
  | reading (reply : List Byte) (ops : List Op) (hserver : s.server = .taken reply)
      (hq : s.Quiescent) (hddr : s.ddr = true) (hahead : s.ServerAhead)
      (hdriving : s.driving = false)
      (hops : s.ops = .read :: .strobe :: ops ∧ Receiving ops ∨ s.ops = [.size, .close])
  /-- read, not yet strobed -/
  | answering (reply : List Byte) (ops : List Op) (hserver : s.server = .taken reply)
      (hq : s.Quiescent) (hddr : s.ddr = true) (heven : s.Even) (hdriving : s.driving = false)
      (hops : s.ops = .strobe :: ops) (hrec : Receiving ops)
  /-- strobed, not yet seen -/
  | took (reply : List Byte) (hserver : s.server = .taken reply) (hflag : s.flag = true)
      (hlast : s.last = s.pa2) (hddr : s.ddr = true) (heven : s.Even) (hans : s.Answered)
  /-- the answer is over, port B not yet turned around -/
  | releasing (hserver : s.server = .release) (hq : s.Quiescent) (heven : s.Even)
      (hans : s.Answered)

/-! ## What the client can do -/

section Client

variable {d : Driver} {lines : Byte} {s t : State}

/-- A wait takes nothing but a change of PA2. -/
theorem client_awaits {w : Op} {ops : List Op} (hops : s.ops = w :: ops) (hw : w.Awaits)
    (h : client d lines s = some t) : s.last ≠ s.pa2 ∧ t = { s with ops := ops, last := s.pa2 } := by
  unfold client at h
  rw [hops] at h
  cases w with
  | wait _ | pong =>
    dsimp only at h
    split at h
    next hne => exact ⟨hne, (Option.some.inj h).symm⟩
    next => cases h
  | _ => exact hw.elim

/-- Without a change of PA2 a client that only receives can do no more than close the device. -/
theorem client_receiving (hrec : Receiving s.ops) (hlast : s.last = s.pa2)
    (h : client d lines s = some t) : t = { s with ops := [], driving := false } := by
  unfold Receiving at hrec
  split at hrec
  · rename_i hops
    simp [client, hops] at h
  · rename_i ops hops
    subst hrec
    simpa [client, hops] using h.symm
  · rename_i hops
    exact absurd hlast (client_awaits hops trivial h).1
  · rename_i hops
    exact absurd hlast (client_awaits hops trivial h).1
  · exact hrec.elim

theorem State.Even.close (h : s.Even) : { s with ops := [], driving := false }.Even :=
  ⟨h.read, h.received⟩

theorem State.Quiescent.close (h : s.Quiescent) :
    { s with ops := [], driving := false }.Quiescent :=
  ⟨h.flag, h.last⟩

/-- The client's step when the server waits for a byte: it gets a byte on the lines, or does
something the server takes no notice of. -/
theorem Phase.client_plan {got : List Byte} (hq : s.Quiescent) (hddr : s.ddr = false)
    (heven : s.Even) (hserver : s.server = .poll got) (hplan : Plan got s.driving s.ops)
    (h : client d lines s = some t) : Phase d t := by
  have hready : ∀ {driving last initialized ops}, last = s.pa2 → Plan got driving ops →
      Phase d { s with
        ops := ops, driving := driving, last := last, initialized := initialized } :=
    fun hlast hplan => .ready ⟨hq.flag, hlast⟩ hddr ⟨heven.read, heven.received⟩
      (by rw [show _ = Server.poll got from hserver]; exact hplan)
  cases hops : s.ops with
  | nil => simp [Port.client, hops] at h
  | cons o ops =>
    rw [hops] at hplan
    have hstep := h
    simp only [Port.client, hops] at h
    cases o with
    | «open» =>
      dsimp only at h
      split at h <;> cases h
      · exact hready rfl hplan
      · exact hready hq.last hplan
    | close =>
      cases h
      refine hready hq.last ?_
      rw [show ops = [] from hplan]
      trivial
    | output =>
      cases h
      exact hready hq.last hplan
    | write b =>
      cases h
      match ops, hplan with
      | o :: w :: ops, hplan =>
        obtain ⟨hdriving, hshake, hsent⟩ := plan_write.mp hplan
        exact .strobing got o w ops ⟨hq.flag, hq.last⟩ hddr hdriving
          ⟨congrArg (· ++ [b]) heven.read.symm, heven.received⟩ hserver rfl hshake hsent
    | wait _ => exact absurd hq.last (client_awaits hops trivial hstep).1
    | _ => exact absurd hplan (by simp [Plan])

/-- Between two bytes the client gets a byte on the lines, turns the port around, or does something
the server takes no notice of. -/
theorem Phase.client_ready (hq : s.Quiescent) (hddr : s.ddr = false) (heven : s.Even)
    (hrest : Rest s.server s.driving s.ops) (h : client d lines s = some t) : Phase d t := by
  cases hserver : s.server with
  | poll got =>
    rw [hserver] at hrest
    exact Phase.client_plan hq hddr heven hserver hrest h
  | turn reply =>
    rw [hserver] at hrest
    rcases hrest with ⟨rest, hops, hrec⟩ | ⟨hdriving, rest, hops, hrec⟩
    · simp only [Port.client, hops, Option.some.injEq] at h
      subst h
      refine .ready ⟨hq.flag, hq.last⟩ hddr ⟨heven.read, heven.received⟩ ?_
      rw [show _ = Server.turn reply from hserver]
      exact .inr ⟨rfl, rest, rfl, hrec⟩
    · simp only [Port.client, hops, Option.some.injEq] at h
      subst h
      exact .asked reply hserver rfl hq.last hddr ⟨heven.read, heven.received⟩ ⟨hdriving, hrec⟩
  | gone =>
    rw [hserver] at hrest
    rcases hrest with hops | hops
    · simp [Port.client, hops] at h
    · simp only [Port.client, hops, Option.some.injEq] at h
      subst h
      refine .ready hq.close hddr heven.close ?_
      rw [show _ = Server.gone from hserver]
      exact .inl rfl
  | _ =>
    rw [hserver] at hrest
    exact hrest.elim

/-- The client sees the flip that offers a byte. -/
theorem Phase.client_offered {reply : List Byte} (hserver : s.server = .taken reply)
    (hflag : s.flag = false) (hlast : s.last ≠ s.pa2) (hddr : s.ddr = true)
    (hahead : s.ServerAhead) (hans : s.Answered) (h : client d lines s = some t) : Phase d t := by
  have hrec := hans.ops
  unfold Receiving at hrec
  split at hrec
  · rename_i hops
    simp [Port.client, hops] at h
  · rename_i ops hops
    subst hrec
    simp only [Port.client, hops, Option.some.injEq] at h
    subst h
    exact .offered reply hserver hflag hlast hddr ⟨hahead.read, hahead.serverWritten⟩
      ⟨rfl, trivial⟩
  · rename_i ops hops
    obtain ⟨-, rfl⟩ := client_awaits hops trivial h
    exact .reading reply ops hserver ⟨hflag, rfl⟩ hddr ⟨hahead.read, hahead.serverWritten⟩
      hans.driving (.inl ⟨rfl, hrec⟩)
  · rename_i ops hops
    subst hrec
    obtain ⟨-, rfl⟩ := client_awaits hops trivial h
    exact .reading reply [] hserver ⟨hflag, rfl⟩ hddr ⟨hahead.read, hahead.serverWritten⟩
      hans.driving (.inr rfl)
  · exact hrec.elim

/-- **A step of the client goes from phase to phase.** -/
theorem Phase.client (hphase : Phase d s) (h : client d lines s = some t) : Phase d t := by
  cases hphase with
  | opening ops hops hinit hserver hflag hddr heven hplan =>
    simp only [Port.client, hops, hinit, and_self, ↓reduceIte, Option.some.injEq] at h
    subst h
    refine .ready ⟨hflag, rfl⟩ hddr ⟨heven.read, heven.received⟩ ?_
    rw [show _ = Server.poll [] from hserver]
    exact hplan
  | ready hq hddr heven hrest => exact Phase.client_ready hq hddr heven hrest h
  | strobing got o w ops hq hddr hdriving hahead hserver hops hshake hsent =>
    have ht : t = { s with ops := w :: ops, flag := true, acked := false } ∧ w.Awaits := by
      unfold Port.client at h
      rw [hops] at h
      unfold Shake at hshake
      split at hshake
      · exact ⟨(Option.some.inj h).symm, trivial⟩
      · exact ⟨(Option.some.inj h).symm, trivial⟩
      · exact hshake.elim
    obtain ⟨rfl, hawaits⟩ := ht
    exact .strobed got hserver rfl
      ⟨hq.last, hdriving, hddr, ⟨hahead.written, hahead.received⟩, w, ops, rfl, hawaits, hsent⟩
  | strobed got hserver hflag hsending =>
    obtain ⟨w, ops, hops, hawaits, -⟩ := hsending.ops
    exact absurd hsending.last (client_awaits hops hawaits h).1
  | loading got hserver hflag hsending =>
    obtain ⟨w, ops, hops, hawaits, -⟩ := hsending.ops
    exact absurd hsending.last (client_awaits hops hawaits h).1
  | acking got w ops hserver hq hddr hdriving heven hops hawaits hsent =>
    exact absurd hq.last (client_awaits hops hawaits h).1
  | acked w ops hflag hlast hddr hdriving heven hops hawaits hrest =>
    obtain ⟨-, rfl⟩ := client_awaits hops hawaits h
    refine .ready ⟨hflag, rfl⟩ hddr ⟨heven.read, heven.received⟩ ?_
    rw [show _ = true from hdriving]
    exact hrest
  | asked reply hserver hflag hlast hddr heven hans =>
    obtain rfl := client_receiving hans.ops hlast h
    exact .asked reply hserver hflag hlast hddr heven.close ⟨rfl, trivial⟩
  | turned reply hserver hq hddr heven hans =>
    obtain rfl := client_receiving hans.ops hq.last h
    exact .turned reply hserver hq.close hddr heven.close ⟨rfl, trivial⟩
  | storing reply hserver hq hddr heven hans =>
    obtain rfl := client_receiving hans.ops hq.last h
    exact .storing reply hserver hq.close hddr heven.close ⟨rfl, trivial⟩
  | flipping reply hserver hq hddr hahead hans =>
    obtain rfl := client_receiving hans.ops hq.last h
    exact .flipping reply hserver hq.close hddr ⟨hahead.read, hahead.serverWritten⟩ ⟨rfl, trivial⟩
  | offered reply hserver hflag hlast hddr hahead hans =>
    exact Phase.client_offered hserver hflag hlast hddr hahead hans h
  | reading reply ops hserver hq hddr hahead hdriving hops =>
    have hsees : s.clientSees lines = s.dd01 := by simp [State.clientSees, hddr, hdriving]
    rcases hops with ⟨hops, hrec⟩ | hops
    · simp only [Port.client, hops, hsees, Option.some.injEq] at h
      subst h
      exact .answering reply ops hserver ⟨hq.flag, hq.last⟩ hddr
        ⟨hahead.read, hahead.serverWritten.symm⟩ hdriving rfl hrec
    · simp only [Port.client, hops, hsees, Option.some.injEq] at h
      subst h
      exact .answering reply _ hserver ⟨hq.flag, hq.last⟩ hddr
        ⟨hahead.read, hahead.serverWritten.symm⟩ hdriving rfl (receiving_receiveIdentity d _)
  | answering reply ops hserver hq hddr heven hdriving hops hrec =>
    simp only [Port.client, hops, Option.some.injEq] at h
    subst h
    exact .took reply hserver rfl hq.last hddr ⟨heven.read, heven.received⟩ ⟨hdriving, hrec⟩
  | took reply hserver hflag hlast hddr heven hans =>
    obtain rfl := client_receiving hans.ops hlast h
    exact .took reply hserver hflag hlast hddr heven.close ⟨rfl, trivial⟩
  | releasing hserver hq heven hans =>
    obtain rfl := client_receiving hans.ops hq.last h
    exact .releasing hserver hq.close heven.close ⟨rfl, trivial⟩

end Client

/-! ## What the server can do -/

section Server

variable {d : Driver} {lines : Byte} {answer : List Byte} {s t : State}

/-- **A step of the server goes from phase to phase.** -/
theorem Phase.server (hphase : Phase d s) (h : server lines answer s = some t) : Phase d t := by
  cases hphase with
  | opening ops hops hinit hserver hflag hddr heven hplan =>
    simp [Port.server, hserver, hflag] at h
  | ready hq hddr heven hrest =>
    cases hserver : s.server with
    | poll got => simp [Port.server, hserver, hq.flag] at h
    | turn reply => simp [Port.server, hserver, hq.flag] at h
    | gone =>
      simp only [Port.server, hserver, Option.some.injEq] at h
      subst h
      rw [hserver] at hrest
      exact .ready ⟨hq.flag, hq.last⟩ hddr ⟨heven.read, heven.received⟩ (hrest.plan [] _)
    | _ =>
      rw [hserver] at hrest
      exact hrest.elim
  | strobing got o w ops hq hddr hdriving hahead hserver hops hshake hsent =>
    simp [Port.server, hserver, hq.flag] at h
  | strobed got hserver hflag hsending =>
    simp only [Port.server, hserver, hflag, ↓reduceIte, Option.some.injEq] at h
    subst h
    exact .loading got rfl rfl ⟨hsending.last, hsending.driving, hsending.ddr,
      ⟨hsending.ahead.written, hsending.ahead.received⟩, hsending.ops⟩
  | loading got hserver hflag hsending =>
    have hsees : s.serverSees lines = s.data := by
      simp [State.serverSees, hsending.ddr, hsending.driving]
    obtain ⟨w, ops, hops, hawaits, hsent⟩ := hsending.ops
    simp only [Port.server, hserver, hsees, Option.some.injEq] at h
    subst h
    exact .acking (got ++ [s.data]) w ops rfl ⟨hflag, hsending.last⟩ hsending.ddr
      hsending.driving ⟨hsending.ahead.written.symm, hsending.ahead.received⟩ hops hawaits hsent
  | acking got w ops hserver hq hddr hdriving heven hops hawaits hsent =>
    simp only [Port.server, hserver] at h
    split at h
    next server hafter =>
      cases h
      refine .acked w ops hq.flag ?_ hddr hdriving ⟨heven.read, heven.received⟩ hops hawaits
        (hsent.rest hafter)
      rw [show s.last = s.pa2 from hq.last]
      exact Bool.eq_not_self s.pa2 |>.mp
    next => cases h
  | acked w ops hflag hlast hddr hdriving heven hops hawaits hrest =>
    cases hserver : s.server with
    | poll got => simp [Port.server, hserver, hflag] at h
    | turn reply => simp [Port.server, hserver, hflag] at h
    | gone =>
      simp only [Port.server, hserver, Option.some.injEq] at h
      subst h
      rw [hserver] at hrest
      exact .acked w ops hflag hlast hddr hdriving ⟨heven.read, heven.received⟩ hops hawaits
        (hrest.plan [] _)
    | _ =>
      rw [hserver] at hrest
      exact hrest.elim
  | asked reply hserver hflag hlast hddr heven hans =>
    simp only [Port.server, hserver, hflag, ↓reduceIte, Option.some.injEq] at h
    subst h
    exact .turned reply rfl ⟨rfl, hlast⟩ hddr ⟨heven.read, heven.received⟩ ⟨hans.driving, hans.ops⟩
  | turned reply hserver hq hddr heven hans =>
    simp only [Port.server, hserver, Option.some.injEq] at h
    subst h
    exact .storing reply rfl ⟨hq.flag, hq.last⟩ rfl ⟨heven.read, heven.received⟩
      ⟨hans.driving, hans.ops⟩
  | storing reply hserver hq hddr heven hans =>
    cases reply with
    | nil =>
      simp only [Port.server, hserver, Option.some.injEq] at h
      subst h
      exact .releasing rfl ⟨hq.flag, hq.last⟩ ⟨heven.read, heven.received⟩ ⟨hans.driving, hans.ops⟩
    | cons b reply =>
      simp only [Port.server, hserver, Option.some.injEq] at h
      subst h
      exact .flipping reply rfl ⟨hq.flag, hq.last⟩ hddr
        ⟨heven.read, congrArg (· ++ [b]) heven.received.symm⟩ ⟨hans.driving, hans.ops⟩
  | flipping reply hserver hq hddr hahead hans =>
    simp only [Port.server, hserver, Option.some.injEq] at h
    subst h
    refine .offered reply rfl hq.flag ?_ hddr ⟨hahead.read, hahead.serverWritten⟩
      ⟨hans.driving, hans.ops⟩
    rw [show s.last = s.pa2 from hq.last]
    exact Bool.eq_not_self s.pa2 |>.mp
  | offered reply hserver hflag hlast hddr hahead hans =>
    simp [Port.server, hserver, hflag] at h
  | reading reply ops hserver hq hddr hahead hdriving hops =>
    simp [Port.server, hserver, hq.flag] at h
  | answering reply ops hserver hq hddr heven hdriving hops hrec =>
    simp [Port.server, hserver, hq.flag] at h
  | took reply hserver hflag hlast hddr heven hans =>
    cases reply with
    | nil =>
      simp only [Port.server, hserver, hflag, ↓reduceIte, Option.some.injEq] at h
      subst h
      exact .releasing rfl ⟨rfl, hlast⟩ ⟨heven.read, heven.received⟩ ⟨hans.driving, hans.ops⟩
    | cons b reply =>
      simp only [Port.server, hserver, hflag, ↓reduceIte, Option.some.injEq] at h
      subst h
      exact .storing (b :: reply) rfl ⟨rfl, hlast⟩ hddr ⟨heven.read, heven.received⟩
        ⟨hans.driving, hans.ops⟩
  | releasing hserver hq heven hans =>
    simp only [Port.server, hserver, Option.some.injEq] at h
    subst h
    exact .ready ⟨hq.flag, hq.last⟩ rfl ⟨heven.read, heven.received⟩ (hans.ops.plan [] _)

end Server

/-! ## The property of the handshake -/

/-- A call that begins while nothing is under way begins in a phase. -/
theorem Phase.issue {d : Driver} {s : State} (hs : s.Settled d) (hddr : s.ddr = false) {c : Call}
    (hc : c.OneRequest) : Phase d (s.issue d c) := by
  obtain ⟨hserver, hflag, hlast⟩ := hs
  have hplan := Call.plan d c hc s.driving
  rcases hlast with hlast | hinit
  · refine .ready ⟨hflag, hlast⟩ hddr ⟨rfl, rfl⟩ ?_
    rw [show (s.issue d c).server = Server.poll [] from hserver]
    exact hplan
  · cases c <;> exact .opening _ rfl hinit hserver hflag hddr ⟨rfl, rfl⟩ hplan

/-- One log follows another at a distance of at most one byte. -/
def Follows (behind ahead : List Byte) : Prop :=
  behind <+: ahead ∧ ahead.length ≤ behind.length + 1

theorem Follows.refl (log : List Byte) : Follows log log :=
  ⟨List.prefix_refl log, Nat.le_succ _⟩

theorem Follows.snoc (log : List Byte) (b : Byte) : Follows log (log ++ [b]) :=
  ⟨List.prefix_append log [b], by simp⟩

theorem State.Even.follows {s : State} (h : s.Even) :
    Follows s.serverRead s.written ∧ Follows s.received s.serverWritten := by
  rw [h.read, h.received]
  exact ⟨.refl _, .refl _⟩

theorem State.ClientAhead.follows {s : State} (h : s.ClientAhead) :
    Follows s.serverRead s.written ∧ Follows s.received s.serverWritten := by
  rw [h.written, h.received]
  exact ⟨.snoc _ _, .refl _⟩

theorem State.ServerAhead.follows {s : State} (h : s.ServerAhead) :
    Follows s.serverRead s.written ∧ Follows s.received s.serverWritten := by
  rw [h.read, h.serverWritten]
  exact ⟨.refl _, .snoc _ _⟩

theorem Phase.follows {d : Driver} {s : State} (h : Phase d s) :
    Follows s.serverRead s.written ∧ Follows s.received s.serverWritten := by
  cases h with
  | opening ops _ _ _ _ _ heven _ => exact heven.follows
  | ready _ _ heven _ => exact heven.follows
  | strobing got o w ops _ _ _ hahead _ _ _ _ => exact hahead.follows
  | strobed got _ _ hsending => exact hsending.ahead.follows
  | loading got _ _ hsending => exact hsending.ahead.follows
  | acking got w ops _ _ _ _ heven _ _ _ => exact heven.follows
  | acked w ops _ _ _ _ heven _ _ _ => exact heven.follows
  | asked reply _ _ _ _ heven _ => exact heven.follows
  | turned reply _ _ _ heven _ => exact heven.follows
  | storing reply _ _ _ heven _ => exact heven.follows
  | flipping reply _ _ _ hahead _ => exact hahead.follows
  | offered reply _ _ _ _ hahead _ => exact hahead.follows
  | reading reply ops _ _ _ hahead _ _ => exact hahead.follows
  | answering reply ops _ _ _ heven _ _ _ => exact heven.follows
  | took reply _ _ _ _ heven _ => exact heven.follows
  | releasing _ _ heven _ => exact heven.follows

/-- When both parties are at the end of the call nothing is on its way. -/
theorem Phase.even {d : Driver} {s : State} (h : Phase d s) (hops : s.ops = [])
    (hserver : s.server.Finished) : s.Even := by
  cases h with
  | opening ops hops' => simp [hops'] at hops
  | ready _ _ heven _ => exact heven
  | strobing got o w ops _ _ _ _ _ hops' => simp [hops'] at hops
  | strobed got _ _ hsending | loading got _ _ hsending =>
    obtain ⟨w, ops, hops', -⟩ := hsending.ops
    simp [hops'] at hops
  | acking got w ops _ _ _ _ heven _ _ _ => exact heven
  | acked w ops _ _ _ _ heven _ _ _ => exact heven
  | asked reply _ _ _ _ heven _ => exact heven
  | turned reply _ _ _ heven _ => exact heven
  | storing reply _ _ _ heven _ => exact heven
  | flipping reply hserver' | offered reply hserver' | reading reply ops hserver' =>
    simp [Server.Finished, hserver'] at hserver
  | answering reply ops _ _ _ heven _ _ _ => exact heven
  | took reply _ _ _ _ heven _ => exact heven
  | releasing _ _ heven _ => exact heven

/-- A step of one of the two parties, with no timeout. -/
def Untimed : State → Action → Prop
  | _, .client _ => True
  | _, .server _ _ => True
  | _, _ => False

theorem Phase.act {d : Driver} {s t : State} {a : Action} (hphase : Phase d s)
    (ha : Untimed s a) (h : act d s a = some t) : Phase d t := by
  cases a with
  | client lines => exact hphase.client h
  | server lines answer => exact hphase.server h
  | _ => exact ha.elim

/-- **The handshake neither loses, duplicates nor reorders bytes.** In every interleaving of one
call that meets no timeout with an idle server, what a party has read is what the other has written
but for at most the last byte; and it is all of it when both are at the end. -/
theorem handshake (c : Call) (hc : c.OneRequest) (s₀ s : State) (hserver : s₀.server = .poll [])
    (hflag : s₀.flag = false) (hlast : s₀.last = s₀.pa2) (hddr : s₀.ddr = false)
    (h : Reach (act .parport) Untimed (s₀.issue .parport c) s) :
    (s.serverRead <+: s.written ∧ s.written.length ≤ s.serverRead.length + 1) ∧
      (s.received <+: s.serverWritten ∧ s.serverWritten.length ≤ s.received.length + 1) ∧
      (s.ops = [] → s.server.Finished →
        s.serverRead = s.written ∧ s.received = s.serverWritten) := by
  have hissue : Phase .parport (s₀.issue .parport c) :=
    Phase.issue ⟨hserver, hflag, .inl hlast⟩ hddr hc
  have hphase : Phase .parport s :=
    h.invariant hissue fun _ _ _ hphase ha ht => hphase.act ha ht
  obtain ⟨hsent, hreply⟩ := hphase.follows
  exact ⟨hsent, hreply, fun hops hfinished =>
    let heven := hphase.even hops hfinished
    ⟨heven.read, heven.received⟩⟩

/-- A byte the client sends and the server reads, after which the server is told `answer`. -/
def sendByte (answer : List Byte) : List Action :=
  [.client 0, .client 0, .server 0 [], .server 0 [], .server 0 answer, .client 0]

/-- A peek up to the strobe of its answer: the ping, five bytes of request, the turnaround, the
answer. -/
def peekSteps : List Action :=
  [.client 0, .client 0] ++ sendByte [] ++ [.client 0] ++
    sendByte [] ++ sendByte [] ++ sendByte [] ++ sendByte [] ++ sendByte [0x2a] ++
    [.client 0, .client 0, .server 0 [], .server 0 [], .server 0 [], .server 0 [],
      .client 0, .client 0, .client 0]

instance : ∀ s a, Decidable (Untimed s a)
  | _, .client _ | _, .server _ _ => .isTrue trivial
  | _, .call _ | _, .reset | _, .timeout | _, .lapse => .isFalse id

/-- At the end of a peek the client has what the server sent. -/
theorem handshake_peek : ∃ s, run (act .parport)
      ((State.init .parport true).issue .parport (.peek 0x37 0 0x0400))
      (peekSteps ++ [.server 0 [], .server 0 [], .client 0]) = some s ∧
    s.serverRead = s.written ∧ s.received = s.serverWritten ∧ s.received = [0x2a] := by
  have hrun : (run (act .parport)
      ((State.init .parport true).issue .parport (.peek 0x37 0 0x0400))
      (peekSteps ++ [.server 0 [], .server 0 [], .client 0])).map
        (fun s => (s.ops, s.server, s.received)) = some ([], .poll [], [0x2a]) := by
    decide +kernel
  obtain ⟨s, hrun, hs⟩ := Option.map_eq_some_iff.mp hrun
  obtain ⟨hops, hserver, hreceived⟩ := Prod.mk.inj hs |>.imp_right Prod.mk.inj
  have hreach : Reach (act .parport) Untimed
      ((State.init .parport true).issue .parport (.peek 0x37 0 0x0400)) s :=
    Reach.of_run (by decide +kernel) hrun
  obtain ⟨hread, heven⟩ := (handshake (.peek 0x37 0 0x0400) trivial (State.init .parport true) s
    rfl rfl rfl rfl hreach).2.2 hops (.inl hserver)
  exact ⟨s, hrun, hread, heven, hreceived⟩

end Xlink.Port

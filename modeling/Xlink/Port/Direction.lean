import Xlink.Port.Handshake

/-!
# Who drives the data lines

Each party turns its own side of the data lines around. The client's turn to input is covered by the
handshake, the server waits for the strobe after it; the server's turn back to input is not, nothing
tells the client that it has happened. So the lines are safe in every run whose calls begin after
the server has come back to its dispatch loop (`not_contended`), whatever times out within a call,
and a call that begins earlier meets a server that still drives (`contended_early`).

A call is in a phase of the handshake, or has given up with its device still open (`GivenUp`), or
has its port in input mode and will not leave it (`Mute`).
-/

namespace Xlink.Port

open Word Transition

/-! ## The direction register follows the server -/

/-- The stretches of the server's code between `output()` and `input()`. -/
def Server.drives : Server → Bool
  | .store _ | .flip _ | .taken _ | .release => true
  | _ => false

theorem after_drives {got answer : List Byte} {server : Server}
    (h : after got answer = some server) : server.drives = false := by
  unfold after at h
  split at h
  · cases h; rfl
  · cases h; rfl
  · cases h; rfl
  · split at h <;> cases h
    rfl

section

variable {d : Driver} {lines : Byte} {answer : List Byte} {s t : State}

theorem server_drives (hs : s.ddr = s.server.drives) (h : server lines answer s = some t) :
    t.ddr = t.server.drives := by
  unfold server at h
  cases hserver : s.server with
  | poll got | turn reply =>
    simp only [hserver] at h hs
    split at h <;> cases h
    exact hs
  | ack got =>
    simp only [hserver] at h hs
    split at h
    next hafter =>
      cases h
      rw [after_drives hafter]
      exact hs
    next => cases h
  | store reply =>
    simp only [hserver] at h hs
    cases reply <;> cases h <;> exact hs
  | taken reply =>
    simp only [hserver] at h hs
    split at h <;> cases h
    cases reply <;> exact hs
  | _ =>
    simp only [hserver] at h hs
    cases h
    first
      | exact hs
      | rfl

/-- The client touches neither the server nor its direction register. -/
theorem client_server (h : client d lines s = some t) : t.server = s.server ∧ t.ddr = s.ddr := by
  unfold client at h
  split at h
  all_goals first
    | cases h; exact ⟨rfl, rfl⟩
    | split at h <;> cases h <;> exact ⟨rfl, rfl⟩
    | cases h

/-! ## Calls that have timed out -/

/-- The call has given up and has yet to close the device; the server gets no further strobe that
would let it drive. -/
structure GivenUp (s : State) : Prop where
  ops : s.ops = [.close]
  ddr : s.ddr = false
  server : match s.server with
    | .poll _ => True
    | .load _ | .ack _ | .turn _ | .gone | .off => s.flag = false
    | _ => False

/-- The client's port is in input mode and stays there. -/
structure Mute (s : State) : Prop where
  driving : s.driving = false
  ops : ∀ o ∈ s.ops, o ≠ .output

theorem GivenUp.client (hs : GivenUp s) (h : client d lines s = some t) : Mute t := by
  simp only [Port.client, hs.ops, Option.some.injEq] at h
  subst h
  exact ⟨rfl, fun _ ho => absurd ho List.not_mem_nil⟩

theorem GivenUp.serverStep (hs : GivenUp s) (h : Port.server lines answer s = some t) :
    GivenUp t := by
  have hserver := hs.server
  cases hcase : s.server with
  | poll got =>
    simp only [Port.server, hcase] at h
    split at h <;> cases h
    exact ⟨hs.ops, hs.ddr, rfl⟩
  | load got =>
    simp only [Port.server, hcase, Option.some.injEq] at h hserver
    subst h
    exact ⟨hs.ops, hs.ddr, hserver⟩
  | ack got =>
    simp only [Port.server, hcase] at h hserver
    unfold after at h
    split at h
    next hafter =>
      cases h
      refine ⟨hs.ops, hs.ddr, ?_⟩
      split at hafter
      · cases hafter; trivial
      · cases hafter; trivial
      · cases hafter; exact hserver
      · split at hafter <;> cases hafter
        exact hserver
    next => cases h
  | turn reply =>
    simp only [hcase] at hserver
    simp [Port.server, hcase, hserver] at h
  | gone =>
    simp only [Port.server, hcase, Option.some.injEq] at h
    subst h
    exact ⟨hs.ops, hs.ddr, trivial⟩
  | off =>
    simp only [Port.server, hcase, Option.some.injEq] at h
    subst h
    exact ⟨hs.ops, hs.ddr, trivial⟩
  | _ => simp only [hcase] at hserver

theorem mem_receives {o : Op} {i n : Nat} {rest : List Op} (h : o ∈ receives d i n ++ rest) :
    o ≠ .output ∨ o ∈ rest := by
  induction n generalizing i with
  | zero => exact .inr h
  | succ n ih =>
    simp only [receives, List.cons_append, List.mem_cons] at h
    rcases h with rfl | rfl | rfl | h
    · exact .inl (by simp)
    · exact .inl (by simp)
    · exact .inl (by simp)
    · exact ih h

theorem mem_receive {o : Op} {n : Nat} {rest : List Op} (h : o ∈ receive d n rest) :
    o ≠ .output ∨ o ∈ rest := by
  unfold receive at h
  split at h
  · rw [List.mem_singleton.mp h]
    exact .inl nofun
  · exact mem_receives h

theorem mem_receiveIdentity {o : Op} {size : Byte} {rest : List Op}
    (h : o ∈ receiveIdentity d size rest) : o ≠ .output ∨ o ∈ rest := by
  rcases mem_receive h with h | h
  · exact .inl h
  · exact mem_receive h

theorem Mute.client (hs : Mute s) (h : client d lines s = some t) : Mute t := by
  have hmem := hs.ops
  cases hops : s.ops with
  | nil => simp [Port.client, hops] at h
  | cons o ops =>
    rw [hops] at hmem
    have htail : ∀ o ∈ ops, o ≠ .output := fun o ho => hmem o (List.mem_cons_of_mem _ ho)
    simp only [Port.client, hops] at h
    cases o with
    | output => exact absurd rfl (hmem .output List.mem_cons_self)
    | «open» =>
      dsimp only at h
      split at h <;> cases h <;> exact ⟨rfl, htail⟩
    | close | input =>
      cases h
      exact ⟨rfl, htail⟩
    | wait _ | pong =>
      dsimp only at h
      split at h <;> cases h
      exact ⟨hs.driving, htail⟩
    | size =>
      cases h
      refine ⟨hs.driving, fun o ho => ?_⟩
      rcases List.mem_cons.mp ho with rfl | ho
      · simp
      · exact (mem_receiveIdentity ho).elim id (htail o)
    | _ =>
      cases h
      exact ⟨hs.driving, htail⟩

/-- The server does not touch the client. -/
theorem server_client (h : server lines answer s = some t) :
    t.ops = s.ops ∧ t.driving = s.driving := by
  unfold server at h
  split at h
  all_goals first
    | (cases h; exact ⟨rfl, rfl⟩)
    | (split at h <;> cases h; exact ⟨rfl, rfl⟩)

theorem Mute.serverStep (hs : Mute s) (h : server lines answer s = some t) : Mute t := by
  obtain ⟨hops, hdriving⟩ := server_client h
  exact ⟨hdriving.trans hs.driving, by rw [hops]; exact hs.ops⟩

theorem Mute.timeout (hs : Mute s) (h : timeout s = some t) : Mute t := by
  unfold Port.timeout at h
  split at h
  · cases h
    exact ⟨hs.driving, by simp⟩
  · cases h
    exact ⟨hs.driving, by simp⟩
  · cases h

/-- A call that gives up in a phase: either it was still sending, and then the server does not
drive, or its port was turned around. -/
theorem Phase.timeout (hphase : Phase d s) (h : timeout s = some t) : GivenUp t ∨ Mute t := by
  have ht : t = { s with ops := [.close] } ∧ ∃ w ops, s.ops = w :: ops ∧ w.Awaits := by
    unfold Port.timeout at h
    split at h
    · rename_i hops
      exact ⟨(Option.some.inj h).symm, _, _, hops, trivial⟩
    · rename_i hops
      exact ⟨(Option.some.inj h).symm, _, _, hops, trivial⟩
    · cases h
  obtain ⟨rfl, w, ops, hops, hawaits⟩ := ht
  have hmute : s.driving = false → Mute { s with ops := [.close] } :=
    fun hdriving => ⟨hdriving, by simp⟩
  cases hphase with
  | opening ops' hops' =>
    rw [hops'] at hops
    cases hops
    exact hawaits.elim
  | ready hq hddr heven hrest =>
    refine .inl ⟨rfl, hddr, ?_⟩
    cases hserver : s.server with
    | poll got => trivial
    | turn reply | gone => exact hq.flag
    | _ =>
      rw [hserver] at hrest
      exact hrest.elim
  | strobing got o w' ops' hq hddr hdriving hahead hserver hops' hshake hsent =>
    rw [hops'] at hops
    cases hops
    cases w with
    | wait _ | pong => exact hshake.elim
    | _ => exact hawaits.elim
  | strobed got hserver hflag hsending =>
    refine .inl ⟨rfl, hsending.ddr, ?_⟩
    simp only [hserver]
  | loading got hserver hflag hsending =>
    refine .inl ⟨rfl, hsending.ddr, ?_⟩
    simpa only [hserver] using hflag
  | acking got w' ops' hserver hq hddr hdriving heven hops' hawaits' hsent =>
    refine .inl ⟨rfl, hddr, ?_⟩
    simpa only [hserver] using hq.flag
  | acked w' ops' hflag hlast hddr hdriving heven hops' hawaits' hrest =>
    refine .inl ⟨rfl, hddr, ?_⟩
    cases hserver : s.server with
    | poll got => trivial
    | turn reply | gone => exact hflag
    | _ =>
      rw [hserver] at hrest
      exact hrest.elim
  | asked reply _ _ _ _ _ hans | turned reply _ _ _ _ hans | storing reply _ _ _ _ hans
  | flipping reply _ _ _ _ hans | offered reply _ _ _ _ _ hans | took reply _ _ _ _ _ hans
  | releasing _ _ _ hans => exact .inr (hmute hans.driving)
  | reading reply ops' _ _ _ _ hdriving _ => exact .inr (hmute hdriving)
  | answering reply ops' _ _ _ _ hdriving _ _ => exact .inr (hmute hdriving)

/-! ## The invariant -/

/-- Where a run can be whose calls all begin while nothing is under way. -/
structure Orderly (d : Driver) (s : State) : Prop where
  wired : s.ddr = s.server.drives
  cases : Phase d s ∨ GivenUp s ∨ Mute s

/-- A call begins while nothing is under way, and no firmware reports a transfer it gave up in as
complete. -/
def InTurn (d : Driver) : State → Action → Prop
  | s, .call c => s.Settled d ∧ c.OneRequest
  | _, .lapse => False
  | _, _ => True

instance : ∀ s a, Decidable (InTurn d s a)
  | s, .call c => inferInstanceAs (Decidable (s.Settled d ∧ c.OneRequest))
  | _, .lapse => .isFalse id
  | _, .reset | _, .client _ | _, .timeout | _, .server _ _ => .isTrue trivial

theorem Orderly.act {a : Action} (hs : Orderly d s) (ha : InTurn d s a)
    (h : act d s a = some t) : Orderly d t := by
  cases a with
  | call c =>
    simp only [Port.act] at h
    split at h <;> cases h
    obtain ⟨hsettled, hc⟩ := ha
    have hddr : s.ddr = false := by
      rw [hs.wired, hsettled.1]
      rfl
    exact ⟨hs.wired, .inl (Phase.issue hsettled hddr hc)⟩
  | reset =>
    simp only [Port.act] at h
    split at h <;> cases h
    next hops => exact ⟨rfl, .inr (.inr ⟨rfl, by simp [State.reset, hops]⟩)⟩
  | client lines =>
    obtain ⟨hserver, hddr⟩ := client_server h
    refine ⟨by rw [hserver, hddr, hs.wired], ?_⟩
    rcases hs.cases with hphase | hgiven | hmute
    · exact .inl (hphase.client h)
    · exact .inr (.inr (hgiven.client h))
    · exact .inr (.inr (hmute.client h))
  | timeout =>
    refine ⟨?_, ?_⟩
    · simp only [Port.act, Port.timeout] at h
      split at h <;> cases h <;> exact hs.wired
    · rcases hs.cases with hphase | hgiven | hmute
      · exact .inr (hphase.timeout h)
      · simp [Port.act, Port.timeout, hgiven.ops] at h
      · exact .inr (.inr (hmute.timeout h))
  | lapse => exact ha.elim
  | server lines answer =>
    refine ⟨server_drives hs.wired h, ?_⟩
    rcases hs.cases with hphase | hgiven | hmute
    · exact .inl (hphase.server h)
    · exact .inr (.inl (hgiven.serverStep h))
    · exact .inr (.inr (hmute.serverStep h))

theorem Phase.not_contended (hphase : Phase d s) : ¬ s.Contended := by
  rintro ⟨hdriving, hddr⟩
  have hno : s.driving = false ∨ s.ddr = false := by
    cases hphase with
    | opening _ _ _ _ _ h _ _ | ready _ h _ _ | strobing _ _ _ _ _ h _ _ _ _ _ _
    | acking _ _ _ _ _ h _ _ _ _ _ | acked _ _ _ _ h _ _ _ _ _ | asked _ _ _ _ h _ _
    | turned _ _ _ h _ _ => exact .inr h
    | strobed _ _ _ h | loading _ _ _ h => exact .inr h.ddr
    | storing _ _ _ _ _ h | flipping _ _ _ _ _ h | offered _ _ _ _ _ _ h | took _ _ _ _ _ _ h
    | releasing _ _ _ h => exact .inl h.driving
    | reading _ _ _ _ _ _ h _ | answering _ _ _ _ _ _ h _ _ => exact .inl h
  rcases hno with h | h
  · rw [h] at hdriving
    cases hdriving
  · rw [h] at hddr
    cases hddr

theorem Orderly.not_contended (hs : Orderly d s) : ¬ s.Contended := by
  rcases hs.cases with hphase | hgiven | hmute
  · exact hphase.not_contended
  · rintro ⟨-, hddr⟩
    rw [hgiven.ddr] at hddr
    cases hddr
  · rintro ⟨hdriving, -⟩
    rw [hmute.driving] at hdriving
    cases hdriving

end

/-! ## The data lines -/

/-- **The two sides never drive the data lines at the same time, if every call begins while nothing
is under way.** In every run whose calls begin with the server back in its dispatch loop, a clear
latch and the remembered level equal to PA2, whatever is called, whatever times out and however the
steps interleave. -/
theorem lines_not_contended (d : Driver) (pa2 : Bool) (s : State)
    (h : Reach (act d) (InTurn d) (State.init d pa2) s) : ¬ s.Contended := by
  have hinit : Orderly d (State.init d pa2) := ⟨rfl, .inr (.inr ⟨rfl, by simp [State.init]⟩)⟩
  have hinv : Orderly d s := h.invariant hinit fun _ _ _ hs ha ht => hs.act ha ht
  exact hinv.not_contended

/-- A peek up to the strobe of its answer. -/
def peekAnswered : List Action := .call (.peek 0x37 0 0x0400) :: peekSteps

/-- While a peek is answered the server drives the lines alone. -/
theorem lines_not_contended_peek :
    ∃ s, run (act .parport) (State.init .parport true) peekAnswered = some s ∧
      s.ddr = true ∧ s.received = [0x2a] ∧ ¬ s.Contended := by
  have hrun : (run (act .parport) (State.init .parport true) peekAnswered).map
      (fun s => (s.ddr, s.received)) = some (true, [0x2a]) := by
    decide +kernel
  obtain ⟨s, hrun, hs⟩ := Option.map_eq_some_iff.mp hrun
  obtain ⟨hddr, hreceived⟩ := Prod.mk.inj hs
  have hreach : Reach (act .parport) (InTurn .parport) (State.init .parport true) s :=
    Reach.of_run (by decide +kernel) hrun
  exact ⟨s, hrun, hddr, hreceived, lines_not_contended .parport true s hreach⟩

/-- A ping that begins as soon as a peek has its answer finds the server still driving. -/
theorem contended_early : ¬ ∀ (d : Driver) (pa2 : Bool) (s : State),
    Reach (act d) (fun _ _ => True) (State.init d pa2) s → ¬ s.Contended := by
  intro h
  have hrun : (run (act .parport) (State.init .parport true)
      (peekAnswered ++ [.client 0, .call .ping, .client 0, .client 0])).map
        (fun s => decide s.Contended) = some true := by
    decide +kernel
  obtain ⟨s, hrun, hs⟩ := Option.map_eq_some_iff.mp hrun
  have hreach := Reach.of_run (Allowed.of_forall (fun _ _ => trivial) _ _) hrun
  exact h .parport true s hreach (of_decide_eq_true hs)

end Xlink.Port

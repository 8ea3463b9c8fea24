import Xlink.Port.System

/-!
# What a ping proves

A ping is a strobe and a wait for PA2 to differ from the level the client remembers. `Paired` is the
shape of every call's steps, a ping's wait right after its strobe and nowhere else, and `Shaped`
keeps it through every interleaving. From it `Awaiting` follows a ping from its strobe to its wait:
if the strobe was issued with the remembered level equal to PA2, a difference means that the server
has flipped PA2 since. `ping_acked` says so of each ping of a run by itself, whatever the pings
before it were like.

The level is remembered across close and open, and an acknowledgement that comes after the client
gave up is not seen by anyone. The next ping then finds the difference at once (`ping_stale`), which
is why the condition is exact.
-/

namespace Xlink.Port

open Word Transition

/-! ## A ping's strobe and wait -/

/-- Every ping's strobe is followed by its wait, and there is no other such wait. -/
def Paired : List Op → Prop
  | [] => True
  | .ping :: .pong :: ops => Paired ops
  | .ping :: _ => False
  | .pong :: _ => False
  | _ :: ops => Paired ops

theorem paired_sends (d : Driver) (i : Nat) (bs : List Byte) {rest : List Op} (h : Paired rest) :
    Paired (sends d i bs ++ rest) := by
  induction bs generalizing i with
  | nil => exact h
  | cons b bs ih => exact ih (i + 1)

theorem paired_receives (d : Driver) (i n : Nat) {rest : List Op} (h : Paired rest) :
    Paired (receives d i n ++ rest) := by
  induction n generalizing i with
  | zero => exact h
  | succ n ih => exact ih (i + 1)

theorem paired_send (d : Driver) (bs : List Byte) {rest : List Op} (h : Paired rest) :
    Paired (send d bs rest) := by
  rw [send]
  split
  · trivial
  · exact paired_sends d 0 bs h

theorem paired_receive (d : Driver) (n : Nat) {rest : List Op} (h : Paired rest) :
    Paired (receive d n rest) := by
  rw [receive]
  split
  · trivial
  · exact paired_receives d 0 n h

theorem paired_receiveIdentity (d : Driver) (size : Byte) {rest : List Op} (h : Paired rest) :
    Paired (receiveIdentity d size rest) :=
  paired_receive d _ (paired_receive d 9 h)

theorem paired_request (d : Driver) (bs : List Byte) {rest : List Op} (h : Paired rest) :
    Paired (request d bs rest) :=
  paired_send d bs h

theorem paired_inquiry (d : Driver) (bs : List Byte) {rest : List Op} (h : Paired rest) :
    Paired (inquiry d bs rest) :=
  paired_request d bs h

theorem Call.paired (d : Driver) (c : Call) : Paired (c.ops d) := by
  have hclose : Paired [.close] := trivial
  cases c with
  | ready | ping => trivial
  | load memory bank address data => exact paired_request d _ (paired_send d data hclose)
  | save memory bank address size => exact paired_inquiry d _ (paired_receive d size hclose)
  | peek memory bank address => exact paired_inquiry d _ (paired_receive d 1 hclose)
  | identify =>
    have hsize : Paired [.wait true, .size, .close] := trivial
    exact paired_inquiry d _ hsize
  | poke memory bank address value => exact paired_request d _ hclose
  | jump memory bank address => exact paired_request d _ hclose
  | run => exact paired_request d _ hclose
  | inject address => exact paired_request d _ hclose

/-- Dropping the rest of a transfer drops no half of a ping. -/
theorem paired_afterTransfer (d : Driver) {ops : List Op} :
    (Paired ops → Paired (afterTransfer d ops)) ∧
      (∀ rest, ops = .pong :: rest → Paired rest → Paired (afterTransfer d ops)) := by
  fun_induction afterTransfer d ops with
  | case1 ops => exact ⟨id, fun _ h => nomatch h⟩
  | case2 ops => exact ⟨fun h => paired_receiveIdentity d _ h, fun _ h => nomatch h⟩
  | case3 ops => exact ⟨id, fun _ h => nomatch h⟩
  | case4 o ops _ _ _ ih =>
    constructor
    · intro h
      cases o with
      | ping =>
        cases ops with
        | nil => exact h.elim
        | cons w ops =>
          cases w with
          | pong => exact ih.2 ops rfl h
          | _ => exact h.elim
      | pong => exact h.elim
      | _ => exact ih.1 h
    · intro rest hops h
      cases hops
      exact ih.1 h
  | case5 => exact ⟨id, fun _ h => nomatch h⟩

/-! ## The invariant -/

/-- The rest of a call is paired, or a ping is waited for before it. -/
def Shaped (s : State) : Prop :=
  Paired s.ops ∨ ∃ ops, s.ops = .pong :: ops ∧ Paired ops

/-- If the client waits in a ping, a difference it can see is an acknowledgement of that ping. -/
def Awaiting (s : State) : Prop :=
  ∀ ops, s.ops = .pong :: ops → s.last ≠ s.pa2 → s.acked = true

/-- A ping is strobed with the remembered level equal to PA2. -/
def FreshPing : State → Action → Prop
  | s, .client _ => s.ops.head? = some .ping → s.last = s.pa2
  | _, _ => True

/-- No ping is strobed. -/
def NoPing : State → Action → Prop
  | s, .client _ => s.ops.head? ≠ some .ping
  | _, _ => True

theorem NoPing.fresh {s : State} {a : Action} (h : NoPing s a) : FreshPing s a := by
  cases a with
  | client lines => exact fun hping => absurd hping h
  | _ => trivial

theorem Awaiting.of_paired {s : State} (h : Paired s.ops) : Awaiting s := by
  intro ops hops
  rw [hops] at h
  exact h.elim

section

variable {d : Driver} {lines : Byte} {answer : List Byte} {s t : State}

/-- After a step that does not strobe a ping the rest of the steps are paired. -/
theorem paired_client (hpaired : Paired s.ops) (hping : ∀ ops, s.ops ≠ .ping :: ops)
    (h : client d lines s = some t) : Paired t.ops := by
  cases hops : s.ops with
  | nil => simp [client, hops] at h
  | cons o ops =>
    rw [hops] at hpaired
    simp only [client, hops] at h
    cases o with
    | ping => exact absurd hops (hping ops)
    | pong => exact hpaired.elim
    | «open» =>
      dsimp only at h
      split at h <;> cases h <;> exact hpaired
    | wait _ =>
      dsimp only at h
      split at h <;> cases h
      exact hpaired
    | size =>
      cases h
      exact paired_receiveIdentity d _ hpaired
    | _ =>
      cases h
      exact hpaired

/-- A ping's strobe has its wait. -/
theorem Shaped.ping {rest : List Op} (hs : Shaped s) (hping : s.ops = .ping :: rest) :
    ∃ ops, rest = .pong :: ops := by
  rcases hs with hpaired | ⟨ops, hpong, -⟩
  · rw [hping] at hpaired
    cases rest with
    | nil => exact hpaired.elim
    | cons w ops =>
      cases w with
      | pong => exact ⟨ops, rfl⟩
      | _ => exact hpaired.elim
  · rw [hping] at hpong
    cases hpong

/-- A step of the client strobes a ping, or leaves paired steps. -/
theorem Shaped.client_cases (hs : Shaped s) (h : client d lines s = some t) : Paired t.ops ∨
    ∃ ops, s.ops = .ping :: .pong :: ops ∧ Paired ops ∧
      t = { s with ops := .pong :: ops, flag := true, acked := false } := by
  by_cases hping : ∃ rest, s.ops = .ping :: rest
  · obtain ⟨rest, hops⟩ := hping
    obtain ⟨ops, rfl⟩ := hs.ping hops
    rcases hs with hpaired | ⟨ops', hpong, -⟩
    · rw [hops] at hpaired
      simp only [client, hops, Option.some.injEq] at h
      exact .inr ⟨ops, hops, hpaired, h.symm⟩
    · rw [hops] at hpong
      cases hpong
  rcases hs with hpaired | ⟨ops, hops, hpaired⟩
  · exact .inl (paired_client hpaired (not_exists.mp hping) h)
  · left
    simp only [client, hops] at h
    split at h <;> cases h
    exact hpaired

/-- The server changes PA2 only by an acknowledgement. -/
theorem server_pa2 (h : server lines answer s = some t) :
    t.ops = s.ops ∧ t.last = s.last ∧ (t.pa2 = s.pa2 ∧ t.acked = s.acked ∨ t.acked = true) := by
  unfold server at h
  split at h
  all_goals first
    | (cases h; exact ⟨rfl, rfl, .inl ⟨rfl, rfl⟩⟩)
    | (cases h; exact ⟨rfl, rfl, .inr rfl⟩)
    | (split at h <;> cases h
       first
        | exact ⟨rfl, rfl, .inl ⟨rfl, rfl⟩⟩
        | exact ⟨rfl, rfl, .inr rfl⟩)

theorem paired_timeout (h : timeout s = some t) : Paired t.ops := by
  unfold timeout at h
  split at h <;> cases h <;> trivial

theorem Shaped.paired_lapse (hs : Shaped s) (h : lapse d s = some t) : Paired t.ops := by
  unfold lapse at h
  split at h
  · cases h
  · rename_i last ops hops
    cases h
    rcases hs with hpaired | ⟨ops', hpong, -⟩
    · rw [hops] at hpaired
      exact (paired_afterTransfer _).1 hpaired
    · rw [hops] at hpong
      cases hpong
  · cases h

/-- After a step of any other kind than the server's, and but for a ping's strobe, the steps are
paired. -/
theorem Shaped.act_cases {a : Action} (hs : Shaped s) (h : act d s a = some t) : Paired t.ops ∨
    (∃ ops lines, a = .client lines ∧ s.ops = .ping :: .pong :: ops ∧ Paired ops ∧
      t = { s with ops := .pong :: ops, flag := true, acked := false }) ∨
    (t.ops = s.ops ∧ t.last = s.last ∧ (t.pa2 = s.pa2 ∧ t.acked = s.acked ∨ t.acked = true)) := by
  cases a with
  | call c =>
    simp only [act] at h
    split at h <;> cases h
    exact .inl (Call.paired d c)
  | reset =>
    simp only [act] at h
    split at h <;> cases h
    next hops =>
    left
    rw [show (s.reset d).ops = [] from hops]
    trivial
  | client lines =>
    rcases hs.client_cases h with hpaired | ⟨ops, hops, hpaired, ht⟩
    · exact .inl hpaired
    · exact .inr (.inl ⟨ops, lines, rfl, hops, hpaired, ht⟩)
  | timeout => exact .inl (paired_timeout h)
  | lapse => exact .inl (hs.paired_lapse h)
  | server lines answer => exact .inr (.inr (server_pa2 h))

theorem Shaped.act {a : Action} (hs : Shaped s) (h : act d s a = some t) : Shaped t := by
  rcases hs.act_cases h with hpaired | ⟨ops, -, -, -, hpaired, rfl⟩ | ⟨hops, -⟩
  · exact .inl hpaired
  · exact .inr ⟨ops, rfl, hpaired⟩
  · rw [Shaped, hops]
    exact hs

theorem Awaiting.act {a : Action} (hs : Shaped s) (hawaiting : Awaiting s) (hfresh : FreshPing s a)
    (h : act d s a = some t) : Awaiting t := by
  rcases hs.act_cases h with hpaired | ⟨ops, lines, rfl, hops, -, rfl⟩ | ⟨hops, hlast, hpa2⟩
  · exact .of_paired hpaired
  · have hlevel : s.last = s.pa2 := hfresh (by rw [hops]; rfl)
    exact fun _ _ hne => absurd hlevel hne
  · intro ops hpong hne
    rw [hops] at hpong
    rcases hpa2 with ⟨hsame, hstill⟩ | hnow
    · rw [hlast, hsame] at hne
      rw [hstill]
      exact hawaiting ops hpong hne
    · exact hnow

theorem shaped_init (d : Driver) (pa2 : Bool) : Shaped (State.init d pa2) := .inl trivial

/-- Both are kept by a run in which the pings are fresh. -/
theorem Awaiting.reach (hs : Shaped s) (hawaiting : Awaiting s)
    (h : Reach (Port.act d) FreshPing s t) : Shaped t ∧ Awaiting t := by
  induction h with
  | refl => exact ⟨hs, hawaiting⟩
  | step _ hfresh ht ih => exact ⟨ih.1.act ht, Awaiting.act ih.1 ih.2 hfresh ht⟩

/-- A wait that returns has seen a difference. -/
theorem Awaiting.acked {ops : List Op} (hawaiting : Awaiting s) (hpong : s.ops = .pong :: ops)
    (h : Port.act d s (.client lines) = some t) : s.acked = true := by
  simp only [Port.act, client, hpong] at h
  split at h
  next hne => exact hawaiting ops hpong hne
  next => cases h

end

/-! ## Fresh and stale acknowledgements -/

/-- A ping strobed with the remembered level different from PA2 can return true before the server
has done anything. -/
theorem ping_stale (d : Driver) (s : State) (ops : List Op) (lines : Byte)
    (hops : s.ops = .ping :: .pong :: ops) (hlast : s.last ≠ s.pa2) :
    ∃ t u, act d s (.client lines) = some t ∧ act d t (.client lines) = some u ∧
      t.ops = .pong :: ops ∧ t.acked = false := by
  simp [act, client, hops, hlast]

/-- **A successful ping means a fresh acknowledgement, exactly if it is strobed with the remembered
level equal to PA2.** Of every ping in every run, over any history of calls, timeouts and late
acknowledgements and whatever comes between its strobe and its wait: that the wait returns true only
after the server has flipped PA2 since the strobe is the same as that the levels were equal. -/
theorem ping_acked (d : Driver) (pa2 : Bool) (s t : State) (rest : List Op) (strobed : Byte)
    (h : Reach (act d) (fun _ _ => True) (State.init d pa2) s) (hping : s.ops = .ping :: rest)
    (ht : act d s (.client strobed) = some t) :
    (∀ u v ops lines, Reach (act d) NoPing t u → u.ops = .pong :: ops →
      act d u (.client lines) = some v → u.acked = true) ↔ s.last = s.pa2 := by
  have hshaped : Shaped s :=
    h.invariant (shaped_init d pa2) fun _ _ _ hs _ ht => hs.act ht
  obtain ⟨ops, rfl⟩ := hshaped.ping hping
  constructor
  · intro hacked
    by_contra hne
    obtain ⟨t', v, ht', hv, hpong, hnot⟩ := ping_stale d s ops strobed hping hne
    obtain rfl : t = t' := Option.some.inj (ht.symm.trans ht')
    rw [hacked t v ops strobed .refl hpong hv] at hnot
    cases hnot
  · intro hlevel u v ops lines hreach hpong hv
    have hfresh : FreshPing s (.client strobed) := fun _ => hlevel
    have hbefore : Awaiting s := fun ops hops => by
      rw [hping] at hops
      cases hops
    have hmore := hreach.mono fun _ _ => NoPing.fresh
    obtain ⟨-, hawaiting⟩ := Awaiting.reach (hshaped.act ht) (.act hshaped hbefore hfresh ht) hmore
    exact hawaiting.acked hpong hv

/-- So in a run whose pings all are strobed with equal levels every ping that succeeds has been
acknowledged. -/
theorem pings_acked (d : Driver) (pa2 : Bool) (s t : State) (ops : List Op) (lines : Byte)
    (h : Reach (act d) FreshPing (State.init d pa2) s) (hpong : s.ops = .pong :: ops)
    (hret : act d s (.client lines) = some t) : s.acked = true :=
  (Awaiting.reach (shaped_init d pa2) (.of_paired trivial) h).2.acked hpong hret

/-- A ping up to its strobe: the client opens the device and puts the byte on the lines. -/
def pingBegun : List Action := [.call .ping, .client 0, .client 0, .client 0]

theorem ping_acked_once : ∃ s t, run (act .parport) (State.init .parport true) pingBegun = some s ∧
    act .parport s (.client 0) = some t ∧ s.last = s.pa2 ∧
    ((∀ u v ops lines, Reach (act .parport) NoPing t u → u.ops = .pong :: ops →
      act .parport u (.client lines) = some v → u.acked = true) ↔ s.last = s.pa2) := by
  have hrun : (run (act .parport) (State.init .parport true) pingBegun).map
      (fun s => (s.ops, (act .parport s (.client 0)).isSome, decide (s.last = s.pa2))) =
        some ([.ping, .pong, .close], true, true) := by
    decide +kernel
  obtain ⟨s, hrun, hs⟩ := Option.map_eq_some_iff.mp hrun
  obtain ⟨hops, hret, hlevel⟩ := Prod.mk.inj hs |>.imp_right Prod.mk.inj
  obtain ⟨t, ht⟩ := Option.isSome_iff_exists.mp hret
  have hreach : Reach (act .parport) (fun _ _ => True) (State.init .parport true) s :=
    Reach.of_run (Allowed.of_forall (fun _ _ => trivial) _ _) hrun
  exact ⟨s, t, hrun, ht, of_decide_eq_true hlevel,
    ping_acked .parport true s t [.pong, .close] 0 hreach hops ht⟩

/-- A ping that times out, is acknowledged after the client has closed the device, and is followed
by another. -/
def pingLate : List Action :=
  [.call .ping, .client 0, .client 0, .client 0, .client 0, .timeout, .client 0,
    .server 0 [], .server 0 [], .server 0 [],
    .call .ping, .client 0, .client 0, .client 0, .client 0]

/-- The ping after a late acknowledgement returns true although the server has not seen it. -/
theorem ping_late : ¬ ∀ (d : Driver) (pa2 : Bool) (s t : State) (ops : List Op) (lines : Byte),
    Reach (act d) (fun _ _ => True) (State.init d pa2) s → s.ops = .pong :: ops →
      act d s (.client lines) = some t → s.acked = true := by
  intro h
  have hrun : (run (act .parport) (State.init .parport true) pingLate).map
      (fun s => (s.ops, (act .parport s (.client 0)).isSome, s.acked)) =
        some ([.pong, .close], true, false) := by
    decide +kernel
  obtain ⟨s, hrun, hs⟩ := Option.map_eq_some_iff.mp hrun
  obtain ⟨hops, hret, hacked⟩ := Prod.mk.inj hs |>.imp_right Prod.mk.inj
  obtain ⟨t, ht⟩ := Option.isSome_iff_exists.mp hret
  have hreach := Reach.of_run (Allowed.of_forall (fun _ _ => trivial) _ _) hrun
  have := h .parport true s t [.close] 0 hreach hops ht
  rw [hacked] at this
  cases this

end Xlink.Port

import Xlink.Host.Setup

/-!
# Turnarounds of a session

`xlink_begin`, `xlink_send`, `xlink_receive` and `xlink_end` keep the direction of the session in
`driver->state`. What they owe is `expected`: one strobe when the session turns from sending to
receiving, one wait when it turns back. `SessionCall.Regular` says when they pay it.

`turnaround` is about every call of every session that begins with an idle library and whose
openings succeed. The drivers answer as they like, so transfers that fail part way are in it. What a
strobe or a wait does on the cable is not (`Port.Direction`).
-/

namespace Xlink.Host

open Word Program Program.Prog

/-! ## Sessions -/

/-- The calls of a session. -/
inductive SessionCall where
  | xlinkBegin
  | xlinkSend (data : List Byte)
  | xlinkReceive (size : BitVec 32)
  | xlinkEnd
deriving DecidableEq

def SessionCall.prog (device : Option String) : SessionCall → Prog Bool
  | xlinkBegin => do
    xlink_begin
    pure true
  | xlinkSend data => returned (xlink_send device data)
  | xlinkReceive size => returned (xlink_receive device size)
  | xlinkEnd => do
    xlink_end
    pure true

/-- The calls of a driver that move bytes, or turn the direction they move in. -/
inductive Turn where
  | strobe
  | wait
  | send
  | receive
deriving DecidableEq

def Event.turn : Event → Option Turn
  | ⟨.prim _ .strobe, _⟩ => some .strobe
  | ⟨.prim _ (.wait _), _⟩ => some .wait
  | ⟨.prim _ (.send _), _⟩ => some .send
  | ⟨.prim _ (.receive _), _⟩ => some .receive
  | _ => none

def turns (tr : List Event) : List Turn := tr.filterMap Event.turn

/-- The device opens, if the call needs it. -/
def SessionCall.Opens : SessionCall → List Event → Prop
  | xlinkSend _, tr => lastOpening tr = some true
  | xlinkReceive _, tr => lastOpening tr = some true
  | _, _ => True

/-- Calls with their traces, the newest first, and the state they come to. -/
inductive Session (device : Option String) : List (SessionCall × List Event) → Lib → Prop
  | start {s : Lib} (h : s.state = .idle) : Session device [] s
  | call {hist : List (SessionCall × List Event)} {s t : Lib} {c : SessionCall} {tr : List Event}
      {r : Bool} (h : Session device hist s) (hrun : (c.prog device).Runs s tr r t)
      (hopens : c.Opens tr) : Session device ((c, tr) :: hist) t

/-! ## What is owed -/

/-- The preceding transfer of the session. -/
def preceding : List SessionCall → Option Turn
  | .xlinkSend _ :: _ => some .send
  | .xlinkReceive _ :: _ => some .receive
  | _ => none

/-- One turnaround for each change of direction. -/
def expected : SessionCall → List SessionCall → List Turn
  | .xlinkSend _, hist => (if preceding hist = some .receive then [.wait] else []) ++ [.send]
  | .xlinkReceive _, hist => (if preceding hist = some .send then [.strobe] else []) ++ [.receive]
  | _, _ => []

/-- Something has been sent in the session. -/
def sent : List SessionCall → Bool
  | .xlinkSend _ :: _ => true
  | .xlinkReceive _ :: hist => sent hist
  | _ => false

/-- What `driver->state` is after the calls. -/
def tracked : List SessionCall → DriverState
  | .xlinkSend _ :: _ => .output
  | .xlinkReceive _ :: hist => if tracked hist = .output then .input else tracked hist
  | _ => .idle

theorem tracked_output (hist : List SessionCall) :
    tracked hist = .output ↔ preceding hist = some .send := by
  cases hist with
  | nil => exact iff_of_false (by decide) (by decide)
  | cons c hist =>
    cases c with
    | xlinkReceive size =>
      simp only [tracked, preceding]
      split
      · exact iff_of_false (by decide) (by decide)
      next hne => exact iff_of_false hne (by decide)
    | _ => simp [tracked, preceding]

/-- The state follows the direction once something has been sent. -/
theorem tracked_sent (hist : List SessionCall) :
    tracked hist = if sent hist = true then
      (if preceding hist = some .send then .output else .input) else .idle := by
  induction hist with
  | nil => rfl
  | cons c hist ih =>
    cases c with
    | xlinkReceive size =>
      simp only [tracked, sent, preceding]
      rw [ih]
      by_cases hsent : sent hist = true
      · by_cases hsend : preceding hist = some .send
        · simp [hsent, hsend]
        · simp [hsent, hsend]
      · simp [hsent]
    | _ => rfl

theorem tracked_input (hist : List SessionCall) :
    tracked hist = .input ↔ preceding hist = some .receive ∧ sent hist = true := by
  rw [tracked_sent]
  cases hist with
  | nil => simp [sent, preceding]
  | cons c hist =>
    cases c with
    | xlinkReceive size =>
      cases hsent : sent hist with
      | false => simp [sent, preceding, hsent]
      | true => simp [sent, preceding, hsent]
    | _ => simp [sent, preceding]

/-- A session that begins by receiving does not send afterwards. -/
def SessionCall.Regular : SessionCall → List SessionCall → Prop
  | xlinkSend _, hist => preceding hist = some .receive → sent hist = true
  | _, _ => True

/-! ## What is done -/

section Calls

variable {s : Lib} {device : Option String}

theorem turns_append (tr tr' : List Event) : turns (tr ++ tr') = turns tr ++ turns tr' :=
  List.filterMap_append

theorem turns_quiet {tr : List Event} (h : ∀ e ∈ tr, e.Quiet) : turns tr = [] := by
  apply List.filterMap_eq_nil_iff.mpr
  rintro ⟨op, ans⟩ he
  have hquiet := h _ he
  cases op with
  | stat path => rfl
  | prim type p =>
    cases p with
    | opening => rfl
    | close => rfl
    | input => rfl
    | _ => exact hquiet.elim

/-- The body of a call on the open device: what it turns, and the state it leaves. It opens nothing. -/
def Turns {α : Type} (p : Prog α) (s : Lib) (ts : List Turn) (state : DriverState) : Prop :=
  p.wlp s fun tr _ t => turns tr = ts ∧ lastOpening tr = none ∧ t.state = state

theorem Turns.bind {α β : Type} {p : Prog α} {f : α → Prog β} {ts l : List Turn}
    {state state' : DriverState} (hp : Turns p s ts state)
    (hf : ∀ a t, t.state = state → Turns (f a) t l state') : Turns (p >>= f) s (ts ++ l) state' := by
  rw [Turns, wlp_bind]
  apply wlp_mono hp
  rintro tr a t ⟨hturns, hnone, hstate⟩
  apply wlp_mono (hf a t hstate)
  rintro tr' b u ⟨hturns', hnone', hstate'⟩
  refine ⟨?_, ?_, hstate'⟩
  · rw [turns_append, hturns, hturns']
  · rw [lastOpening_append, hnone, hnone']
    rfl

theorem turns_pure {α : Type} (a : α) : Turns (pure a : Prog α) s [] s.state :=
  wlp_pure.mpr ⟨rfl, rfl, rfl⟩

/-- A call through the table turns what its event turns. -/
theorem turns_member {slot : Table → Option DriverType} {p : Prim} {ts : List Turn}
    (h : ∀ type ans, turns [⟨.prim type p, ans⟩] = ts ∧ lastOpening [⟨.prim type p, ans⟩] = none) :
    Turns (member slot p) s ts s.state := by
  apply wlp_member
  intro type ans _
  exact ⟨(h type ans).1, (h type ans).2, rfl⟩

theorem turns_close : Turns driver_close s [] s.state := by
  apply wlp_close
  intro type type'
  exact ⟨rfl, rfl, rfl⟩

theorem turns_transferDone (type : DriverType) (size completed : BitVec 32) (done : String) :
    Turns (transferDone type size completed done) s [] s.state := by
  unfold Turns transferDone
  rw [wlp_ite, wlp_ite, wlp_ite]
  simp only [setError, clearErrorIf, wlp_bind, wlp_modify, wlp_pure]
  split
  · split
    · simp [turns, lastOpening]
    · simp [turns, lastOpening]
  · split
    · simp [turns, lastOpening]
    · simp [turns, lastOpening]

theorem turns_send (data : List Byte) : Turns (driver_send data) s [.send] s.state := by
  rw [Turns, driver_send, wlp_bind, wlp_get]
  cases s.table._send with
  | none => exact wlp_stop
  | some type =>
    rw [wlp_bind]
    apply wlp_call.mpr
    intro completed
    apply wlp_mono (turns_transferDone type _ completed "sent")
    rintro tr ok t ⟨hturns, hnone, hstate⟩
    refine ⟨?_, ?_, hstate⟩
    · exact congrArg (Turn.send :: ·) hturns
    · exact hnone

theorem turns_receive (size : BitVec 32) : Turns (driver_receive size) s [.receive] s.state := by
  rw [Turns, driver_receive, wlp_bind, wlp_get]
  cases s.table._receive with
  | none => exact wlp_stop
  | some type =>
    rw [wlp_bind]
    apply wlp_call.mpr
    rintro ⟨completed, bytes⟩
    rw [wlp_bind]
    apply wlp_mono (turns_transferDone type size completed "received")
    rintro tr ok t ⟨hturns, hnone, hstate⟩
    rw [wlp_ite]
    simp only [wlp_pure, List.append_nil]
    have hdone : turns (⟨.prim type (.receive size), (completed, bytes)⟩ :: tr) = [.receive] ∧
        lastOpening (⟨.prim type (.receive size), (completed, bytes)⟩ :: tr) = none ∧
        t.state = s.state := ⟨congrArg (Turn.receive :: ·) hturns, hnone, hstate⟩
    split
    · exact hdone
    · exact hdone

/-- A call on the device: opened, it turns what its body turns. -/
theorem turns_opened {α : Type} {body : Prog (Option α)} {ts : List Turn} {state : DriverState}
    (hbody : ∀ t, t.state = s.state → Turns body t ts state) :
    (opened device body).wlp s fun tr _ t => lastOpening tr = some true →
      turns tr = ts ∧ t.state = state := by
  rw [opened, done, wlp_bind, wlp_bind]
  apply wlp_mono (tries_open device s)
  intro tr ok t h
  rw [wlp_ite]
  cases ok with
  | false =>
    simp only [Bool.false_eq_true, if_false, wlp_pure, clearErrorIf, wlp_bind, wlp_modify,
      List.append_nil]
    intro hopen
    exact absurd (h.last.mpr hopen) (by decide)
  | true =>
    have hclosing : Turns (closing body) t ts state := by
      have hlast : ∀ (a : Option α) (u : Lib), u.state = state →
          Turns (driver_close >>= fun _ => pure a : Prog (Option α)) u [] state := by
        rintro a u rfl
        apply turns_close.bind
        rintro _ v hv
        rw [← hv]
        exact turns_pure a
      have hdone := (hbody t h.state).bind hlast
      rw [List.append_nil] at hdone
      exact hdone
    rw [if_pos rfl]
    apply wlp_mono hclosing
    rintro tr' a u ⟨hturns, -, hstate⟩
    simp only [clearErrorIf, wlp_bind, wlp_modify, wlp_pure, List.append_nil]
    intro _
    refine ⟨?_, ?_⟩
    · rw [turns_append, turns_quiet h.quiet, hturns]
      rfl
    · split
      · exact hstate
      · exact hstate

theorem turns_xlink_send (data : List Byte) :
    (xlink_send device data).wlp s fun tr _ t => lastOpening tr = some true →
      turns tr = (if s.state = .input then [.wait] else []) ++ [.send] ∧ t.state = .output := by
  apply turns_opened
  rintro t ht
  have hturn : Turns turnaroundOut t (if s.state = .input then [.wait] else []) t.state := by
    rw [Turns, turnaroundOut, wlp_bind, wlp_get, ht, wlp_ite]
    split
    · rw [wlp_bind]
      apply wlp_member
      intro type ans _
      exact wlp_pure.mpr ⟨rfl, rfl, ht⟩
    · exact wlp_pure.mpr ⟨rfl, rfl, ht⟩
  apply hturn.bind
  intro _ u _
  have houtput : Turns driver_output u [] u.state := turns_member fun _ _ => ⟨rfl, rfl⟩
  apply houtput.bind (l := [.send])
  intro _ v _
  have hstate : Turns (modify fun s => { s with state := .output } : Prog Unit) v [] .output :=
    wlp_modify.mpr ⟨rfl, rfl, rfl⟩
  apply hstate.bind (l := [.send])
  rintro _ w hw
  rw [← hw]
  apply (turns_send data).bind (l := [])
  rintro sent x hx
  rw [← hx]
  cases sent with
  | true => exact turns_pure _
  | false => exact turns_pure _

theorem turns_xlink_receive (size : BitVec 32) :
    (xlink_receive device size).wlp s fun tr _ t => lastOpening tr = some true →
      turns tr = (if s.state = .output then [.strobe] else []) ++ [.receive] ∧
        t.state = if s.state = .output then .input else s.state := by
  apply turns_opened
  rintro t ht
  have hinput : Turns driver_input t [] t.state := turns_member fun _ _ => ⟨rfl, rfl⟩
  apply hinput.bind
  rintro _ u hu
  have hturn : Turns turnaroundIn u (if s.state = .output then [.strobe] else [])
      (if s.state = .output then .input else s.state) := by
    rw [Turns, turnaroundIn, wlp_bind, wlp_get, hu, ht, wlp_ite]
    split
    · rw [driver_strobe, wlp_bind]
      apply wlp_member
      intro type ans _
      exact wlp_modify.mpr ⟨rfl, rfl, rfl⟩
    · exact wlp_pure.mpr ⟨rfl, rfl, hu.trans ht⟩
  apply hturn.bind
  rintro _ v hv
  rw [← hv]
  exact turns_receive size

theorem wlp_returned {α : Type} {p : Prog (Option α)} {Q : List Event → Lib → Prop}
    (h : p.wlp s fun tr _ t => Q tr t) : (returned p).wlp s fun tr _ t => Q tr t := by
  rw [returned, wlp_bind]
  apply wlp_mono h
  intro tr a t hQ
  apply wlp_pure.mpr
  rw [List.append_nil]
  exact hQ

end Calls

/-! ## Runs of sessions -/

section Sessions

variable {device : Option String} {hist : List (SessionCall × List Event)} {s t : Lib}
  {c : SessionCall} {tr : List Event} {r : Bool}

/-- What one call turns and tracks. -/
theorem call_turns (past : List SessionCall) (hs : s.state = tracked past)
    (hrun : (c.prog device).Runs s tr r t) (hopens : c.Opens tr) :
    t.state = tracked (c :: past) ∧
      (turns tr = expected c past ↔ c.Regular past) := by
  cases c with
  | xlinkBegin =>
    have hbegin : (SessionCall.xlinkBegin.prog device).wlp s fun tr _ t =>
        t.state = .idle ∧ turns tr = [] := by
      simp only [SessionCall.prog, xlink_begin, wlp_bind, wlp_modify, wlp_pure]
      exact ⟨trivial, rfl⟩
    obtain ⟨hstate, hturns⟩ := wlp_iff.mp hbegin _ _ _ hrun
    exact ⟨hstate, iff_of_true hturns trivial⟩
  | xlinkEnd =>
    have hend : (SessionCall.xlinkEnd.prog device).wlp s fun tr _ t =>
        t.state = .idle ∧ turns tr = [] := by
      simp only [SessionCall.prog, xlink_end, wlp_bind, wlp_modify, wlp_pure]
      exact ⟨trivial, rfl⟩
    obtain ⟨hstate, hturns⟩ := wlp_iff.mp hend _ _ _ hrun
    exact ⟨hstate, iff_of_true hturns trivial⟩
  | xlinkSend data =>
    have hsend := wlp_iff.mp (wlp_returned (@turns_xlink_send s device data)) _ _ _
      hrun
    obtain ⟨hturns, hstate⟩ := hsend hopens
    refine ⟨hstate, ?_⟩
    rw [hturns, hs]
    simp only [expected, SessionCall.Regular, tracked_input]
    by_cases hreceive : preceding past = some .receive
    · by_cases hsent : sent past = true
      · simp [hreceive, hsent]
      · simp [hreceive, hsent]
    · simp [hreceive]
  | xlinkReceive size =>
    have hreceive := wlp_iff.mp (wlp_returned (@turns_xlink_receive s device size))
      _ _ _ hrun
    obtain ⟨hturns, hstate⟩ := hreceive hopens
    rw [hs] at hturns hstate
    refine ⟨hstate, iff_of_true ?_ trivial⟩
    rw [hturns]
    simp only [expected, tracked_output]

theorem session_tracked (h : Session device hist s) : s.state = tracked (hist.map Prod.fst) := by
  induction h with
  | start h => exact h
  | call _ hrun hopens ih => exact (call_turns _ ih hrun hopens).1

/-- **One turnaround for each change of direction**: a call of a session turns as it should exactly
if it is not a send that follows a receive in a session that has sent nothing yet. -/
theorem turnaround (h : Session device hist s) (past : List (SessionCall × List Event))
    (hpast : (c, tr) :: past <:+ hist) :
    turns tr = expected c (past.map Prod.fst) ↔ c.Regular (past.map Prod.fst) := by
  induction h with
  | start _ => exact absurd hpast (by simp)
  | call h hrun hopens ih =>
    rcases List.suffix_cons_iff.mp hpast with heq | hpast
    · obtain ⟨hcall, rfl⟩ := List.cons.inj heq
      obtain ⟨rfl, rfl⟩ := Prod.mk.inj hcall
      exact (call_turns _ (session_tracked h) hrun hopens).2
    · exact ih hpast

def receivedTrace : List Event :=
  [shmEvent .opening none, shmEvent .input (), shmEvent (.receive 1#32) (1#32, fun _ => 0x00#8),
    shmEvent .input (), shmEvent .close ()]

def sentTrace : List Event :=
  [shmEvent .opening none, shmEvent .output (), shmEvent (.send [0x00#8]) 1#32,
    shmEvent .input (), shmEvent .close ()]

theorem runs_received :
    ((SessionCall.xlinkReceive 1#32).prog none).Runs shmLib receivedTrace true shmLib :=
  ⟨none, _, rfl, (), _, rfl, (1#32, fun _ => 0x00#8), _, rfl, (), _, rfl, (), _, rfl, rfl, rfl, rfl⟩

theorem runs_sent : ((SessionCall.xlinkSend [0x00#8]).prog none).Runs shmLib sentTrace true
    { shmLib with state := .output } :=
  ⟨none, _, rfl, (), _, rfl, 1#32, _, rfl, (), _, rfl, (), _, rfl, rfl, rfl, rfl⟩

theorem session_received : Session none [(.xlinkReceive 1#32, receivedTrace)] shmLib :=
  .call (.start rfl) runs_received rfl

/-- A receive after a send, with a strobe before it. -/
def turnedTrace : List Event :=
  [shmEvent .opening none, shmEvent .input (), shmEvent .strobe (),
    shmEvent (.receive 1#32) (1#32, fun _ => 0x00#8), shmEvent .input (), shmEvent .close ()]

/-- A send after a receive, with a wait before it. -/
def awaitedTrace : List Event :=
  [shmEvent .opening none, shmEvent (.wait 0) true, shmEvent .output (),
    shmEvent (.send [0x00#8]) 1#32, shmEvent .input (), shmEvent .close ()]

theorem runs_turned : ((SessionCall.xlinkReceive 1#32).prog none).Runs
    { shmLib with state := .output } turnedTrace true { shmLib with state := .input } :=
  ⟨none, _, rfl, (), _, rfl, (), _, rfl, (1#32, fun _ => 0x00#8), _, rfl, (), _, rfl, (), _, rfl,
    rfl, rfl, rfl⟩

theorem runs_awaited : ((SessionCall.xlinkSend [0x00#8]).prog none).Runs
    { shmLib with state := .input } awaitedTrace true { shmLib with state := .output } :=
  ⟨none, _, rfl, true, _, rfl, (), _, rfl, 1#32, _, rfl, (), _, rfl, (), _, rfl, rfl, rfl, rfl⟩

/-- A send, a receive and a send. -/
def turnedHistory : List (SessionCall × List Event) :=
  [(.xlinkSend [0x00#8], awaitedTrace), (.xlinkReceive 1#32, turnedTrace),
    (.xlinkSend [0x00#8], sentTrace)]

theorem session_turned : Session none turnedHistory { shmLib with state := .output } :=
  .call (.call (.call (.start rfl) runs_sent rfl) runs_turned rfl) runs_awaited rfl

theorem turnaround_turned :
    (turns awaitedTrace = expected (.xlinkSend [0x00#8])
        [.xlinkReceive 1#32, .xlinkSend [0x00#8]] ↔
      (SessionCall.xlinkSend [0x00#8]).Regular [.xlinkReceive 1#32, .xlinkSend [0x00#8]]) ∧
    (turns turnedTrace = expected (.xlinkReceive 1#32) [.xlinkSend [0x00#8]] ↔
      (SessionCall.xlinkReceive 1#32).Regular [.xlinkSend [0x00#8]]) :=
  ⟨turnaround session_turned [(.xlinkReceive 1#32, turnedTrace), (.xlinkSend [0x00#8], sentTrace)]
      (List.suffix_refl _),
    turnaround session_turned [(.xlinkSend [0x00#8], sentTrace)] (List.suffix_cons _ _)⟩

/-- A session that begins by receiving sends without a wait. -/
theorem wait_missing : ∃ s, Session none [(.xlinkSend [0x00#8], sentTrace),
    (.xlinkReceive 1#32, receivedTrace)] s ∧ turns sentTrace = [.send] ∧
      expected (.xlinkSend [0x00#8]) [.xlinkReceive 1#32] = [.wait, .send] :=
  ⟨_, .call session_received runs_sent rfl, rfl, rfl⟩

end Sessions

end Xlink.Host

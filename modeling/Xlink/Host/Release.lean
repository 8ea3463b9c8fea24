import Xlink.Host.Library

/-!
# Every call releases the device

A monitor watches the calls of the drivers: the device is shut, open, or open and turned to input by
the call before. Only an open device is used, and it is turned to input before it is closed.
`Call.releases` is that every call of the library takes the monitor from shut to shut.

The result is a law of traces, for every call, every state of the library and every answer of the
drivers, a failed opening or transfer included. It is about runs that return. `xlink_reset` can wait
for the machine without end; up to any point the trace of such a run is that of one that returns.
-/

namespace Xlink.Host

open Word Program Program.Prog Program.Monitor

/-! ## The monitor -/

/-- What the monitor knows of the device: it is shut, open, or open and just turned to input, so that
it may be closed. -/
inductive Phase where
  | shut
  | opened
  | turned
deriving DecidableEq

/-- What is allowed on an open device, and what follows. -/
def Prim.onOpen : Phase → Prim → Option Phase
  | _, .input => some .turned
  | .turned, .close => some .shut
  | _, .close => none
  | _, .opening => none
  | _, _ => some .opened

/-- The driver is opened when it is shut. -/
def watch : Monitor Event Phase
  | .shut, ⟨.prim _ .opening, refusal⟩ =>
    if (refusal : Option String).isNone then some .opened else some .shut
  | .shut, ⟨.stat _, _⟩ => some .shut
  | .shut, _ => none
  | phase, ⟨.prim _ p, _⟩ => p.onOpen phase
  | _, ⟨.stat _, _⟩ => none

/-- Taken through a whole call, the device is shut again. -/
def Releases {α : Type} (p : Prog α) : Prop :=
  ∀ s, p.wlp s fun tr _ _ => Accepts watch .shut tr .shut

/-- The open device stays open. -/
def Holds {α : Type} (p : Prog α) : Prop :=
  ∀ s m, m ≠ .shut → p.wlp s fun tr _ _ => ∃ m', m' ≠ .shut ∧ Accepts watch m tr m'

/-- The device is open if the result says so, and shut otherwise. -/
def Opens (p : Prog Bool) : Prop :=
  ∀ s, p.wlp s fun tr ok _ => ∃ m, (m = .shut ↔ ok = false) ∧ Accepts watch .shut tr m

section Rules

variable {α β : Type}

theorem releases_pure (a : α) : Releases (pure a : Prog α) := fun _ => wlp_pure.mpr rfl

theorem releases_modify (f : Lib → Lib) : Releases (modify f : Prog Unit) :=
  fun _ => wlp_modify.mpr rfl

theorem Releases.bind {p : Prog α} {f : α → Prog β} (hp : Releases p) (hf : ∀ a, Releases (f a)) :
    Releases (p >>= f) := by
  intro s
  rw [wlp_bind]
  apply wlp_mono (hp s)
  intro tr a t htr
  apply wlp_mono (hf a t)
  intro tr' b u htr'
  exact accepts_append.mpr ⟨.shut, htr, htr'⟩

theorem releases_ite {c : Prop} [Decidable c] {p q : Prog α} (hp : Releases p) (hq : Releases q) :
    Releases (if c then p else q) := by
  split
  · exact hp
  · exact hq

theorem holds_pure (a : α) : Holds (pure a : Prog α) :=
  fun _ m hm => wlp_pure.mpr ⟨m, hm, rfl⟩

theorem holds_get : Holds (get : Prog Lib) := fun _ m hm => wlp_get.mpr ⟨m, hm, rfl⟩

theorem holds_modify (f : Lib → Lib) : Holds (modify f : Prog Unit) :=
  fun _ m hm => wlp_modify.mpr ⟨m, hm, rfl⟩

theorem holds_stop : Holds (stop : Prog α) := fun _ _ _ => wlp_stop

theorem Holds.bind {p : Prog α} {f : α → Prog β} (hp : Holds p) (hf : ∀ a, Holds (f a)) :
    Holds (p >>= f) := by
  intro s m hm
  rw [wlp_bind]
  apply wlp_mono (hp s m hm)
  rintro tr a t ⟨n, hn, htr⟩
  apply wlp_mono (hf a t n hn)
  rintro tr' b u ⟨n', hn', htr'⟩
  exact ⟨n', hn', accepts_append.mpr ⟨n, htr, htr'⟩⟩

theorem holds_ite {c : Prop} [Decidable c] {p q : Prog α} (hp : Holds p) (hq : Holds q) :
    Holds (if c then p else q) := by
  split
  · exact hp
  · exact hq

theorem holds_setError (code : ErrorCode) (message : String) : Holds (setError code message) :=
  holds_modify _

theorem holds_clearErrorIf (result : Bool) : Holds (clearErrorIf result) := holds_modify _

theorem releases_setError (code : ErrorCode) (message : String) :
    Releases (setError code message) := releases_modify _

theorem releases_clearErrorIf (result : Bool) : Releases (clearErrorIf result) := releases_modify _

end Rules

/-! ## The driver -/

section Driver

/-- A call of the open device, other than its opening and its close. -/
theorem holds_prim {type : DriverType} {p : Prim} {n : Phase} (hn : n ≠ .shut)
    (hp : ∀ m, p.onOpen m = some n) : Holds (prim type p) := by
  intro s m hm
  apply wlp_call.mpr
  intro ans
  refine ⟨n, hn, n, ?_, rfl⟩
  cases m with
  | shut => exact absurd rfl hm
  | opened => exact hp .opened
  | turned => exact hp .turned

/-- A call of the driver that is neither an opening nor a close needs an open device and leaves it
open. -/
theorem holds_member {slot : Table → Option DriverType} {p : Prim} {n : Phase} (hn : n ≠ .shut)
    (hp : ∀ m, p.onOpen m = some n) : Holds (member slot p) := by
  apply holds_get.bind
  intro s
  cases slot s.table with
  | none => exact holds_stop
  | some type => exact holds_prim hn hp

theorem ne_shut : Phase.opened ≠ .shut ∧ Phase.turned ≠ .shut := by decide

theorem holds_strobe : Holds driver_strobe := holds_member ne_shut.1 fun m => by cases m <;> rfl
theorem holds_input : Holds driver_input := holds_member ne_shut.2 fun m => by cases m <;> rfl
theorem holds_output : Holds driver_output := holds_member ne_shut.1 fun m => by cases m <;> rfl
theorem holds_reset : Holds driver_reset := holds_member ne_shut.1 fun m => by cases m <;> rfl
theorem holds_boot : Holds driver_boot := holds_member ne_shut.1 fun m => by cases m <;> rfl

theorem holds_wait (timeout : Nat) : Holds (driver_wait timeout) :=
  holds_member ne_shut.1 fun m => by cases m <;> rfl

theorem holds_ping (caller : Caller) : Holds (driver_ping caller) :=
  holds_member ne_shut.1 fun m => by cases m <;> rfl

theorem holds_transferDone (type : DriverType) (size completed : BitVec 32) (done : String) :
    Holds (transferDone type size completed done) := by
  unfold transferDone
  apply holds_ite
  · apply holds_ite
    · exact (holds_setError _ _).bind fun _ => holds_pure _
    · exact holds_pure _
  · apply holds_ite
    · exact (holds_clearErrorIf _).bind fun _ => holds_pure _
    · exact (holds_setError _ _).bind fun _ => holds_pure _

theorem holds_send (data : List Byte) : Holds (driver_send data) := by
  apply holds_get.bind
  intro s
  cases s.table._send with
  | none => exact holds_stop
  | some type =>
    apply (holds_prim ne_shut.1 fun m => by cases m <;> rfl).bind
    intro completed
    exact holds_transferDone _ _ _ _

theorem holds_receive (size : BitVec 32) : Holds (driver_receive size) := by
  apply holds_get.bind
  intro s
  cases s.table._receive with
  | none => exact holds_stop
  | some type =>
    apply (holds_prim ne_shut.1 fun m => by cases m <;> rfl).bind
    intro answer
    apply (holds_transferDone _ _ _ _).bind
    intro ok
    exact holds_ite (holds_pure _) (holds_pure _)

/-- The device is turned to input and closed. -/
theorem shuts_close (s : Lib) {m : Phase} (hm : m ≠ .shut) :
    driver_close.wlp s fun tr _ _ => Accepts watch m tr .shut := by
  have hinput : ∀ type, watch m ⟨.prim type .input, ()⟩ = some .turned := by
    intro type
    cases m with
    | shut => exact absurd rfl hm
    | opened => rfl
    | turned => rfl
  rw [driver_close, wlp_bind, driver_input, member, wlp_bind, wlp_get]
  cases s.table._input with
  | none => exact wlp_stop
  | some type =>
    apply wlp_call.mpr
    intro _
    rw [member, wlp_bind, wlp_get]
    cases s.table._close with
    | none => exact wlp_stop
    | some type' =>
      apply wlp_call.mpr
      intro _
      exact ⟨.turned, hinput type, .shut, rfl, rfl⟩

/-- An opening that fails has left the device shut. -/
theorem opens_device (type : DriverType) : Opens (openDevice type) := by
  intro s
  rw [openDevice, wlp_bind]
  apply wlp_call.mpr
  intro refusal
  cases refusal with
  | none =>
    simp only [wlp_bind, clearErrorIf, wlp_modify, wlp_pure]
    exact ⟨.opened, by decide, .opened, rfl, rfl⟩
  | some text =>
    simp only [wlp_bind, setError, wlp_modify, wlp_pure]
    exact ⟨.shut, by decide, .shut, rfl, rfl⟩

theorem opens_dispatch {setup : Prog Bool} (hsetup : Opens setup) : Opens (dispatchOpen setup) := by
  intro s
  rw [dispatchOpen, wlp_bind, wlp_get]
  cases s.table._open with
  | none =>
    apply wlp_mono (hsetup s)
    intro tr ok t h
    exact h
  | some type =>
    apply wlp_mono (opens_device type s)
    intro tr ok t h
    exact h

theorem opens_stop : Opens stop := fun _ => wlp_stop

/-- What is shut stays shut, and nothing is opened. -/
theorem Releases.opens {p : Prog Bool} (hp : Releases p) (hfalse : ∀ s, p.wlp s fun _ ok _ =>
    ok = false) : Opens p := by
  intro s
  apply wlp_mono (wlp_and (hp s) (hfalse s))
  rintro tr ok t ⟨htr, hok⟩
  exact ⟨.shut, iff_of_true rfl hok, htr⟩

/-- A device that has been opened is shut again. -/
theorem Opens.releases {α : Type} {p : Prog Bool} {f : Bool → Prog α} (hp : Opens p)
    (htrue : ∀ s m, m ≠ .shut → (f true).wlp s fun tr _ _ => Accepts watch m tr .shut)
    (hfalse : Releases (f false)) : Releases (p >>= f) := by
  intro s
  rw [wlp_bind]
  apply wlp_mono (hp s)
  rintro tr ok t ⟨m, hm, htr⟩
  cases ok with
  | true =>
    have hopen : m ≠ .shut := fun h => absurd (hm.mp h) (by decide)
    apply wlp_mono (htrue t m hopen)
    intro tr' a u htr'
    exact accepts_append.mpr ⟨m, htr, htr'⟩
  | false =>
    obtain rfl := hm.mpr rfl
    apply wlp_mono (hfalse t)
    intro tr' a u htr'
    exact accepts_append.mpr ⟨.shut, htr, htr'⟩

/-- A body on the open device, which is then shut. -/
theorem shuts_after {α β : Type} {body : Prog α} {f : α → Prog β} (hbody : Holds body)
    (hf : ∀ a, Releases (f a)) (s : Lib) {m : Phase} (hm : m ≠ .shut) :
    (body >>= fun a => driver_close >>= fun _ => f a).wlp s fun tr _ _ =>
      Accepts watch m tr .shut := by
  rw [wlp_bind]
  apply wlp_mono (hbody s m hm)
  rintro tr a t ⟨n, hn, htr⟩
  rw [wlp_bind]
  apply wlp_mono (shuts_close t hn)
  intro tr' _ u htr'
  apply wlp_mono (hf a u)
  intro tr'' b v htr''
  exact accepts_append.mpr ⟨n, htr, accepts_append.mpr ⟨.shut, htr', htr''⟩⟩

theorem Releases.done {α : Type} {ok : α → Bool} {p : Prog α} (hp : Releases p) :
    Releases (done ok p) := by
  apply hp.bind
  intro a
  exact (releases_clearErrorIf _).bind fun _ => releases_pure a

theorem releases_ready {p : Prog Bool} (hp : Opens p) : Releases (driver_ready p) := by
  apply Releases.done
  apply hp.releases
  · intro s m hm
    exact shuts_after (holds_pure ()) (fun _ => releases_pure true) s hm
  · exact releases_pure false

theorem releases_identify (path : String) : Releases (device_identify path) := by
  apply releases_ite
  · exact releases_pure _
  · have hstat : Releases (stat path) := fun s => wlp_call.mpr fun _ => ⟨.shut, rfl, rfl⟩
    apply hstat.bind
    intro found
    cases found with
    | failed reason => exact (releases_setError _ _).bind fun _ => releases_pure _
    | other => exact (releases_setError _ _).bind fun _ => releases_pure _
    | chr major => exact (releases_clearErrorIf _).bind fun _ => releases_pure _

theorem releases_useDriver (type : DriverType) (path : String) : Releases (useDriver type path) := by
  apply (releases_modify _).bind
  intro _
  apply (releases_ready (opens_dispatch opens_stop)).bind
  intro ok
  exact releases_ite (releases_pure _) ((releases_setError _ _).bind fun _ => releases_pure _)

theorem releases_useMajor (path : String) (major : Int) : Releases (useMajor path major) := by
  unfold useMajor
  cases deviceType major with
  | none => exact (releases_setError _ _).bind fun _ => releases_pure _
  | some type => exact releases_useDriver type path

/-- Setting up a driver opens the device to try it, and closes it again. -/
theorem releases_setup (path : String) : Releases (driver_setup path) := by
  apply (releases_modify _).bind
  intro _
  apply Releases.done
  apply (releases_identify path).bind
  intro found
  cases found with
  | none => exact releases_pure _
  | some major => exact releases_useMajor path major

theorem releases_autodetect (device : Option String) : Releases (autodetect device) := by
  cases device with
  | some path => exact releases_setup path
  | none =>
    apply (releases_setup _).bind
    intro ready
    exact releases_ite (releases_pure _) (releases_setup _)

/-- What opens the device or fails, then clears the error if it has opened it. -/
theorem Opens.done {p : Prog Bool} (hp : Opens p) : Opens (done id p) := by
  intro s
  rw [Host.done, wlp_bind]
  apply wlp_mono (hp s)
  rintro tr ok t ⟨m, hm, htr⟩
  simp only [clearErrorIf, wlp_bind, wlp_modify, wlp_pure, List.append_nil]
  exact ⟨m, hm, htr⟩

theorem opens_false {p : Prog Unit} (hp : Releases p) : Opens (p >>= fun _ => pure false) := by
  apply (hp.bind fun _ => releases_pure false).opens
  intro s
  rw [wlp_bind]
  apply wlp_mono (hp s)
  intro _ _ _ _
  exact wlp_pure.mpr rfl

theorem Releases.bind_opens {α : Type} {p : Prog α} {f : α → Prog Bool} (hp : Releases p)
    (hf : ∀ a, Opens (f a)) : Opens (p >>= f) := by
  intro s
  rw [wlp_bind]
  apply wlp_mono (hp s)
  intro tr a t htr
  apply wlp_mono (hf a t)
  rintro tr' ok u ⟨m, hm, htr'⟩
  exact ⟨m, hm, accepts_append.mpr ⟨.shut, htr, htr'⟩⟩

theorem opens_ite {c : Prop} [Decidable c] {p q : Prog Bool} (hp : Opens p) (hq : Opens q) :
    Opens (if c then p else q) := by
  split
  · exact hp
  · exact hq

/-- The device is opened, set up before if it has not been. -/
theorem opens_open (device : Option String) : Opens (driver_open device) := by
  have hfalse : Opens (pure false) := (releases_pure false).opens fun _ => wlp_pure.mpr rfl
  apply opens_dispatch
  apply Opens.done
  apply (releases_autodetect device).bind_opens
  intro ready
  exact opens_ite (opens_dispatch opens_stop)
    (opens_ite (opens_false (releases_setError _ _)) hfalse)

end Driver

/-! ## The calls -/

section Calls

variable (device : Option String)

/-- Whatever is asked of the server between an opening and the close holds the device open. -/
theorem releases_opened {α : Type} {body : Prog (Option α)} (hbody : Holds body) :
    Releases (opened device body) := by
  apply Releases.done
  apply (opens_open device).releases
  · intro s m hm
    exact shuts_after hbody (fun a => releases_pure a) s hm
  · exact releases_pure none

theorem holds_asking {α : Type} (frame : List Byte) {rest : Prog (Option α)} (hrest : Holds rest) :
    Holds (asking frame rest) := by
  apply (holds_ping .request).bind
  intro there
  apply holds_ite
  · apply holds_output.bind
    intro _
    apply (holds_send frame).bind
    intro sent
    exact holds_ite hrest (holds_pure _)
  · exact (holds_setError _ _).bind fun _ => holds_pure _

theorem holds_answered {α : Type} {rest : Prog (Option α)} (hrest : Holds rest) :
    Holds (answered rest) :=
  holds_input.bind fun _ => holds_strobe.bind fun _ => hrest

theorem holds_serverInfo (id data : List Byte) : Holds (serverInfo id data) :=
  holds_ite ((holds_setError _ _).bind fun _ => holds_pure _) (holds_pure _)

theorem releases_xlink_identify : Releases (xlink_identify device) := by
  apply releases_opened
  apply holds_asking
  apply holds_answered
  apply (holds_receive _).bind
  intro size
  cases size with
  | none => exact holds_pure _
  | some size =>
    apply (holds_receive _).bind
    intro id
    cases id with
    | none => exact holds_pure _
    | some id =>
      apply (holds_receive _).bind
      intro data
      cases data with
      | none => exact holds_pure _
      | some data => exact holds_serverInfo id data

theorem releases_xlink_ping : Releases (xlink_ping device) := by
  apply releases_opened
  apply (holds_ping .xlinkPing).bind
  intro there
  exact holds_ite (holds_pure _) (holds_pure _)

/-- A reset of the C128 opens and closes the device anew for every ping it waits with. -/
theorem releases_pingWhile : Releases (pingWhile device) := by
  intro s
  apply wlp_repeatWhile (I := fun tr _ => Accepts watch .shut tr .shut) rfl
  intro tr t htr
  have hbody : Releases (do let result ← xlink_ping device; pure result.isSome : Prog Bool) :=
    (releases_xlink_ping device).bind fun _ => releases_pure _
  apply wlp_mono (hbody t)
  intro tr' again u htr'
  have happend : Accepts watch .shut (tr ++ tr') .shut := accepts_append.mpr ⟨.shut, htr, htr'⟩
  split
  · exact happend
  · exact happend

theorem releases_xlink_reset (machine : Machine) : Releases (xlink_reset device machine) := by
  apply (opens_open device).releases
  · intro s m hm
    apply shuts_after holds_reset _ s hm
    intro _
    exact releases_ite ((releases_pingWhile device).bind fun _ => releases_pure _) (releases_pure _)
  · exact (releases_clearErrorIf _).bind fun _ => releases_pure _

theorem releases_xlink_load (memory bank : Byte) (address : Addr) (data : List Byte) :
    Releases (xlink_load device memory bank address data) := by
  apply releases_opened
  apply holds_asking
  apply (holds_send data).bind
  intro sent
  exact holds_ite (holds_pure _) (holds_pure _)

theorem releases_xlink_peek (memory bank : Byte) (address : Addr) :
    Releases (xlink_peek device memory bank address) := by
  apply releases_opened
  apply holds_asking
  apply holds_answered
  apply (holds_receive _).bind
  intro value
  cases value with
  | none => exact holds_pure _
  | some value => exact holds_pure _

theorem releases_xlink_jump (memory bank : Byte) (address : Addr) :
    Releases (xlink_jump device memory bank address) :=
  releases_opened device (holds_asking _ (holds_pure _))

theorem releases_pings (n : Nat) : Releases (pings device n) := by
  induction n with
  | zero => exact releases_pure _
  | succ n ih =>
    apply (releases_xlink_ping device).bind
    intro there
    cases there with
    | none => exact ih
    | some _ => exact releases_pure _

theorem releases_awake (machine : Machine) : Releases (awake device machine) := by
  have htwice : Releases (pingTwice device) := by
    apply (releases_xlink_ping device).bind
    intro there
    cases there with
    | none => exact releases_pure _
    | some _ => exact releases_xlink_ping device
  apply htwice.bind
  intro there
  cases there with
  | some _ => exact releases_pure _
  | none => exact (releases_xlink_reset device machine).bind fun _ => releases_pings device _

theorem releases_switched (machine : Machine) : Releases (switched device machine) := by
  have hafter : Releases (do
      let result ← server_ready_after device 3000
      pure (result, true) : Prog (Option Unit × Bool)) :=
    (releases_pings device _).bind fun _ => releases_pure _
  apply (releases_xlink_identify device).bind
  intro remote
  cases remote with
  | none => exact releases_pure _
  | some remote =>
    cases machine.type with
    | c64 =>
      apply releases_ite _ (releases_pure _)
      apply (releases_xlink_jump device _ _ _).bind
      intro jumped
      cases jumped with
      | none => exact releases_pure _
      | some _ => exact hafter
    | c128 =>
      apply releases_ite _ (releases_pure _)
      apply (releases_xlink_reset device machine).bind
      intro back
      cases back with
      | none => exact releases_pure _
      | some _ => exact hafter

theorem releases_warmstarted (machine : Machine) : Releases (warmstarted device machine) := by
  apply (releases_xlink_peek device _ _ _).bind
  intro mode
  cases mode with
  | none => exact releases_pure _
  | some mode => exact releases_ite (releases_xlink_jump device _ _ _) (releases_pure _)

theorem releases_xlink_ready (machine : Machine) : Releases (xlink_ready device machine) := by
  apply Releases.done
  apply (releases_ready (opens_open device)).bind
  intro there
  apply releases_ite _ (releases_pure _)
  apply (releases_awake device machine).bind
  intro reached
  cases reached with
  | none => exact releases_pure _
  | some _ =>
    apply (releases_switched device machine).bind
    rintro ⟨result, done⟩
    exact releases_ite (releases_pure _) (releases_warmstarted device machine)

theorem releases_xlink_send (data : List Byte) : Releases (xlink_send device data) := by
  apply releases_opened
  have hturn : Holds turnaroundOut := by
    apply holds_get.bind
    intro s
    exact holds_ite ((holds_wait 0).bind fun _ => holds_pure _) (holds_pure _)
  apply hturn.bind
  intro _
  apply holds_output.bind
  intro _
  apply (holds_modify _).bind
  intro _
  apply (holds_send data).bind
  intro sent
  exact holds_ite (holds_pure _) (holds_pure _)

theorem releases_xlink_receive (size : BitVec 32) : Releases (xlink_receive device size) := by
  apply releases_opened
  apply holds_input.bind
  intro _
  have hturn : Holds turnaroundIn := by
    apply holds_get.bind
    intro s
    exact holds_ite (holds_strobe.bind fun _ => holds_modify _) (holds_pure _)
  exact hturn.bind fun _ => holds_receive size

theorem releases_withTimeout {α : Type} (timeout : Nat) {p : Prog α} (hp : Releases p) :
    Releases (withTimeout timeout p) :=
  (releases_modify _).bind fun _ => hp.bind fun _ => (releases_modify _).bind fun _ =>
    releases_pure _

theorem releases_returned {α : Type} {p : Prog (Option α)} (hp : Releases p) :
    Releases (returned p) := hp.bind fun _ => releases_pure _

theorem releases_xlink_inject (machine : Machine) (address : Addr) (code : List Byte) :
    Releases (xlink_inject device machine address code) := by
  apply (releases_xlink_load device _ _ _ _).bind
  intro loaded
  cases loaded with
  | none => exact (releases_clearErrorIf _).bind fun _ => releases_pure _
  | some _ => exact releases_opened device (holds_asking _ (holds_pure _))

theorem releases_xlink_relocate (machine : Machine) (address : Addr) :
    Releases (xlink_relocate device machine address) := by
  apply Releases.done
  apply (releases_xlink_load device _ _ _ _).bind
  intro loaded
  cases loaded with
  | none => exact releases_pure _
  | some _ => exact releases_xlink_jump device _ _ _

/-- Every call of the library, one by one. -/
theorem Call.releases (machine : Machine) (c : Call) : Releases (c.prog device machine) := by
  cases c with
  | setDevice path => exact releases_returned ((releases_setup path).bind fun _ => releases_pure _)
  | hasDevice =>
    exact releases_returned ((releases_ready (opens_open device)).bind fun _ => releases_pure _)
  | identify => exact releases_returned (releases_xlink_identify device)
  | ping => exact releases_returned (releases_xlink_ping device)
  | reset => exact releases_returned (releases_xlink_reset device machine)
  | ready => exact releases_returned (releases_xlink_ready device machine)
  | bootloader =>
    exact releases_returned (releases_opened device (holds_boot.bind fun _ => holds_pure _))
  | load memory bank address data =>
    exact releases_returned (releases_xlink_load device memory bank address data)
  | save memory bank address size =>
    exact releases_returned (releases_opened device
      (holds_asking _ (holds_answered (holds_receive size))))
  | peek memory bank address =>
    exact releases_returned (releases_xlink_peek device memory bank address)
  | poke memory bank address value =>
    exact releases_returned (releases_opened device (holds_asking _ (holds_pure _)))
  | fill memory bank address value size =>
    exact releases_returned (releases_xlink_load device memory bank address _)
  | jump memory bank address =>
    exact releases_returned (releases_xlink_jump device memory bank address)
  | run => exact releases_returned (releases_opened device (holds_asking _ (holds_pure _)))
  | inject address code =>
    exact releases_returned (releases_xlink_inject device machine address code)
  | relocate address => exact releases_returned (releases_xlink_relocate device machine address)
  | send data => exact releases_returned (releases_xlink_send device data)
  | sendWithTimeout data timeout =>
    exact releases_returned (releases_withTimeout timeout (releases_xlink_send device data))
  | receive size => exact releases_returned (releases_xlink_receive device size)
  | receiveWithTimeout size timeout =>
    exact releases_returned (releases_withTimeout timeout (releases_xlink_receive device size))

end Calls

/-! ## Traces -/

namespace Event

/-- A driver's opening that succeeds. -/
def opens : Event → Bool
  | ⟨.prim _ .opening, refusal⟩ => (refusal : Option String).isNone
  | _ => false

def closes : Event → Bool
  | ⟨.prim _ .close, _⟩ => true
  | _ => false

/-- The port is switched to input. -/
def inputs : Event → Bool
  | ⟨.prim _ .input, _⟩ => true
  | _ => false

/-- A call of a driver that is neither its opening nor its close. -/
def uses : Event → Bool
  | ⟨.prim _ .opening, _⟩ => false
  | ⟨.prim _ .close, _⟩ => false
  | ⟨.prim _ _, _⟩ => true
  | ⟨.stat _, _⟩ => false

end Event

/-- What the monitor allows: it follows the openings and closes. -/
theorem watch_cases {m n : Phase} {e : Event} (h : watch m e = some n) :
    (m = .shut ∧ e.opens = true ∧ e.closes = false ∧ e.uses = false ∧ n = .opened) ∨
    (m = .shut ∧ e.opens = false ∧ e.closes = false ∧ e.uses = false ∧ n = .shut) ∨
    (m ≠ .shut ∧ e.opens = false ∧ e.closes = false ∧ n ≠ .shut ∧
      (n = .turned → e.inputs = true)) ∨
    (m = .turned ∧ e.opens = false ∧ e.closes = true ∧ e.uses = false ∧ n = .shut) := by
  obtain ⟨op, ans⟩ := e
  cases op with
  | stat path =>
    cases m with
    | shut =>
      obtain rfl : Phase.shut = n := Option.some.inj h
      exact .inr (.inl ⟨rfl, rfl, rfl, rfl, rfl⟩)
    | opened => exact absurd h (by simp [watch])
    | turned => exact absurd h (by simp [watch])
  | prim type p =>
    cases m with
    | shut =>
      cases p with
      | opening =>
        cases ans with
        | none =>
          obtain rfl : Phase.opened = n := Option.some.inj h
          exact .inl ⟨rfl, rfl, rfl, rfl, rfl⟩
        | some text =>
          obtain rfl : Phase.shut = n := Option.some.inj h
          exact .inr (.inl ⟨rfl, rfl, rfl, rfl, rfl⟩)
      | _ => exact absurd h (by simp [watch])
    | opened =>
      cases p with
      | opening => exact absurd h (by simp [watch, Prim.onOpen])
      | close => exact absurd h (by simp [watch, Prim.onOpen])
      | input =>
        obtain rfl : Phase.turned = n := Option.some.inj h
        exact .inr (.inr (.inl ⟨by decide, rfl, rfl, by decide, fun _ => rfl⟩))
      | _ =>
        obtain rfl : Phase.opened = n := Option.some.inj h
        exact .inr (.inr (.inl ⟨by decide, rfl, rfl, by decide, fun hn => absurd hn (by decide)⟩))
    | turned =>
      cases p with
      | opening => exact absurd h (by simp [watch, Prim.onOpen])
      | close =>
        obtain rfl : Phase.shut = n := Option.some.inj h
        exact .inr (.inr (.inr ⟨rfl, rfl, rfl, rfl, rfl⟩))
      | input =>
        obtain rfl : Phase.turned = n := Option.some.inj h
        exact .inr (.inr (.inl ⟨by decide, rfl, rfl, by decide, fun _ => rfl⟩))
      | _ =>
        obtain rfl : Phase.opened = n := Option.some.inj h
        exact .inr (.inr (.inl ⟨by decide, rfl, rfl, by decide, fun hn => absurd hn (by decide)⟩))

/-- The device has been opened, and not closed since. -/
def DeviceOpen (tr : List Event) : Prop :=
  ∃ pre e post, tr = pre ++ e :: post ∧ e.opens = true ∧ ∀ x ∈ post, x.closes = false

theorem DeviceOpen.append {tr : List Event} (h : DeviceOpen tr) {e : Event}
    (he : e.closes = false) : DeviceOpen (tr ++ [e]) := by
  obtain ⟨pre, o, post, rfl, ho, hpost⟩ := h
  refine ⟨pre, o, post ++ [e], by simp, ho, ?_⟩
  intro x hx
  rcases List.mem_append.mp hx with hx | hx
  · exact hpost x hx
  · rw [List.mem_singleton.mp hx]
    exact he

/-- What the phase of the monitor says about the trace so far. -/
theorem accepts_phase {tr : List Event} {m : Phase} (h : Accepts watch .shut tr m) :
    tr.countP Event.opens = tr.countP Event.closes + (if m = .shut then 0 else 1) ∧
    (m ≠ .shut → DeviceOpen tr) ∧
    (m = .turned → ∃ pre e, tr = pre ++ [e] ∧ e.inputs = true) := by
  induction tr using List.reverseRecOn generalizing m with
  | nil =>
    obtain rfl : m = .shut := h
    exact ⟨rfl, fun hm => absurd rfl hm, fun hm => absurd hm (by decide)⟩
  | append_singleton tr e ih =>
    obtain ⟨n, htr, m, hstep, rfl⟩ := accepts_append.mp h
    obtain ⟨hcount, hopen, -⟩ := ih htr
    simp only [List.countP_append, List.countP_singleton]
    rcases watch_cases hstep with ⟨rfl, ho, hc, -, rfl⟩ | ⟨rfl, ho, hc, -, rfl⟩ |
      ⟨hn, ho, hc, hm, hturned⟩ | ⟨rfl, ho, hc, -, rfl⟩
    · refine ⟨?_, ?_, ?_⟩
      · simp [ho, hc] at hcount ⊢
        omega
      · intro _
        exact ⟨tr, e, [], rfl, ho, fun _ h => absurd h List.not_mem_nil⟩
      · intro hm
        exact absurd hm (by decide)
    · refine ⟨?_, fun hm => absurd rfl hm, fun hm => absurd hm (by decide)⟩
      simp [ho, hc] at hcount ⊢
      omega
    · refine ⟨?_, ?_, ?_⟩
      · simp [ho, hc, hn, hm] at hcount ⊢
        omega
      · intro _
        exact (hopen hn).append hc
      · intro hm
        exact ⟨tr, e, rfl, hturned hm⟩
    · refine ⟨?_, fun hm => absurd rfl hm, fun hm => absurd hm (by decide)⟩
      simp [ho, hc] at hcount ⊢
      omega

/-- Only an open device is used. -/
def UsedOpen (tr : List Event) : Prop :=
  ∀ (pre : List Event) (e : Event) (post : List Event), tr = pre ++ e :: post → e.uses = true →
    DeviceOpen pre

/-- The device is closed right after it has been switched to input. -/
def ClosedTurned (tr : List Event) : Prop :=
  ∀ (pre : List Event) (e : Event) (post : List Event), tr = pre ++ e :: post → e.closes = true →
    ∃ (pre' : List Event) (i : Event), pre = pre' ++ [i] ∧ i.inputs = true

theorem accepts_usedOpen {tr : List Event} {m : Phase} (h : Accepts watch .shut tr m) :
    UsedOpen tr := by
  rintro pre e post rfl huses
  obtain ⟨m, hpre, n, hstep, -⟩ := accepts_append.mp h
  obtain ⟨-, hopen, -⟩ := accepts_phase hpre
  rcases watch_cases hstep with ⟨-, -, -, hu, -⟩ | ⟨-, -, -, hu, -⟩ | ⟨hm, -⟩ | ⟨-, -, -, hu, -⟩
  · exact absurd huses (by simp [hu])
  · exact absurd huses (by simp [hu])
  · exact hopen hm
  · exact absurd huses (by simp [hu])

theorem accepts_closedTurned {tr : List Event} {m : Phase} (h : Accepts watch .shut tr m) :
    ClosedTurned tr := by
  rintro pre e post rfl hcloses
  obtain ⟨m, hpre, n, hstep, -⟩ := accepts_append.mp h
  obtain ⟨-, -, hturned⟩ := accepts_phase hpre
  rcases watch_cases hstep with ⟨-, -, hc, -⟩ | ⟨-, -, hc, -⟩ | ⟨-, -, hc, -⟩ | ⟨hm, -⟩
  · exact absurd hcloses (by simp [hc])
  · exact absurd hcloses (by simp [hc])
  · exact absurd hcloses (by simp [hc])
  · exact hturned hm

/-- **Every call releases the device**: in every run that returns, each successful opening has its
close, only an open device is used, and it is switched to input just before it is closed. -/
theorem device_released (device : Option String) (machine : Machine) (c : Call) (s : Lib) :
    (c.prog device machine).wlp s fun tr _ _ =>
      tr.countP Event.opens = tr.countP Event.closes ∧ UsedOpen tr ∧ ClosedTurned tr := by
  apply wlp_mono (c.releases device machine s)
  intro tr _ _ htr
  exact ⟨(accepts_phase htr).1, accepts_usedOpen htr, accepts_closedTurned htr⟩

end Xlink.Host

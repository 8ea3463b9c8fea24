import Xlink.Host.Setup

/-!
# `xlink_error` after a call

A failure is silent if it sets no error: an unanswered `xlink_ping`, or a transfer of no bytes by a
driver that goes byte by byte. The error left by a call that fails is a success exactly if the last
thing the call did with the device was such a failure.

`error_tells_truth` is an equivalence for every call that returns a truth value, whatever error was
left before it, with any table and any answers of the drivers. Only the code of the error is looked
at, not its text. A reset is the exception: it waits for a ping to fail, and is right when this
failure is a silent one.
-/

namespace Xlink.Host

open Word Program Program.Prog

/-! ## Silent failures -/

/-- A failure that sets no error. -/
def Event.Silent : Event → Prop
  | ⟨.prim _ (.ping .xlinkPing), answered⟩ => answered = false
  | ⟨.prim type (.send data), _⟩ => type.Bytewise ∧ (BitVec.ofNat 32 data.length).toInt ≤ 0
  | ⟨.prim type (.receive size), _⟩ => type.Bytewise ∧ size.toInt ≤ 0
  | _ => False

/-- A call that has an outcome, as the switch to input and the close at the end do not. -/
def Event.decides : Event → Bool
  | ⟨.prim _ .input, _⟩ => false
  | ⟨.prim _ .close, _⟩ => false
  | _ => true

/-- The last call that has an outcome. -/
def decider (tr : List Event) : Option Event := (tr.filter Event.decides).getLast?

/-- The trace ends in a silent failure. -/
def SilentEnd (tr : List Event) : Prop := ∃ e ∈ decider tr, e.Silent

section Traces

variable {tr tr' : List Event}

theorem decider_append (tr tr' : List Event) :
    decider (tr ++ tr') = (decider tr').or (decider tr) := by
  rw [decider, List.filter_append, List.getLast?_append]
  rfl

theorem silentEnd_append (h : decider tr' ≠ none) : SilentEnd (tr ++ tr') ↔ SilentEnd tr' := by
  rw [SilentEnd, SilentEnd, decider_append]
  cases hlast : decider tr' with
  | none => exact absurd hlast h
  | some e => rfl

theorem silentEnd_append_none (h : decider tr' = none) : SilentEnd (tr ++ tr') ↔ SilentEnd tr := by
  rw [SilentEnd, SilentEnd, decider_append, h, Option.none_or]

theorem not_silentEnd_append (h : ¬SilentEnd tr) (h' : ¬SilentEnd tr') : ¬SilentEnd (tr ++ tr') := by
  cases hlast : decider tr' with
  | none =>
    rw [silentEnd_append_none hlast]
    exact h
  | some e =>
    rw [silentEnd_append (by rw [hlast]; exact Option.some_ne_none e)]
    exact h'

theorem decider_append_ne (h : decider tr ≠ none ∨ decider tr' ≠ none) :
    decider (tr ++ tr') ≠ none := by
  rw [decider_append]
  cases hlast : decider tr' with
  | none =>
    rw [Option.none_or]
    exact h.resolve_right fun hne => hne hlast
  | some e => exact Option.some_ne_none e

theorem decider_mem {e : Event} (h : e ∈ decider tr) : e ∈ tr :=
  (List.mem_filter.mp (List.mem_of_mem_getLast? h)).1

/-- Opening the device is not silent. -/
theorem not_silentEnd_quiet (h : ∀ e ∈ tr, e.Quiet) : ¬SilentEnd tr := by
  rintro ⟨⟨op, ans⟩, he, hsilent⟩
  have hquiet := h _ (decider_mem he)
  cases op with
  | stat path => exact hsilent
  | prim type p =>
    cases p with
    | opening => exact hsilent
    | close => exact hsilent
    | input => exact hsilent
    | _ => exact hquiet.elim

/-- One event. -/
theorem silentEnd_singleton {e : Event} (h : e.decides = true) : SilentEnd [e] ↔ e.Silent := by
  have hlast : decider [e] = some e := by
    rw [decider, List.filter_cons, if_pos h]
    rfl
  rw [SilentEnd, hlast]
  simp

end Traces

/-! ## Programs that tell -/

/-- How a run reports: a success leaves no error and no silent failure, and the error after a failure is
a success exactly if the failure was silent. -/
structure Reports (tr : List Event) (ok : Bool) (t : Lib) : Prop where
  success : ok = true → t.error.code = .success ∧ ¬SilentEnd tr
  failure : ok = false → (t.error.code = .success ↔ SilentEnd tr) ∧ decider tr ≠ none

/-- On the open device, with no error so far. -/
def Tells {α : Type} (ok : α → Bool) (p : Prog α) : Prop :=
  ∀ s, s.error.code = .success → p.wlp s fun tr a t => Reports tr (ok a) t

/-- Whatever error there was before. -/
def Truthful {α : Type} (ok : α → Bool) (p : Prog α) : Prop :=
  ∀ s, p.wlp s fun tr a t => Reports tr (ok a) t ∧ decider tr ≠ none

section Rules

variable {α β : Type} {ok : α → Bool} {ok' : β → Bool} {s t : Lib} {tr tr' : List Event}

/-- A program that does nothing and fails. -/
def Fails (ok : α → Bool) (p : Prog α) : Prop :=
  ∀ s, p.wlp s fun tr a t => tr = [] ∧ ok a = false ∧ t.error = s.error

theorem fails_pure {a : α} (h : ok a = false) : Fails ok (pure a) :=
  fun _ => wlp_pure.mpr ⟨rfl, h, rfl⟩

/-- A failure stays as it is. -/
theorem Reports.fail {p : Prog α} (h : Reports tr false t) (hp : Fails ok p) :
    p.wlp t fun tr' a u => tr' = [] ∧ ok a = false ∧ Reports (tr ++ tr') (ok a) u := by
  apply wlp_mono (hp t)
  rintro tr' a u ⟨rfl, hok, herror⟩
  refine ⟨rfl, hok, ?_⟩
  rw [List.append_nil, hok]
  refine ⟨Bool.noConfusion, fun _ => ?_⟩
  rw [herror]
  exact h.failure rfl

theorem Truthful.tells {p : Prog α} (hp : Truthful ok p) : Tells ok p :=
  fun s _ => wlp_mono (hp s) fun _ _ _ h => h.1

theorem reports_nil (ht : t.error.code = .success) : Reports [] true t :=
  ⟨fun _ => ⟨ht, fun ⟨_, he, _⟩ => absurd he (by simp [decider])⟩, fun h => absurd h (by decide)⟩

theorem tells_pure {a : α} (h : ok a = true) : Tells ok (pure a) := by
  intro s hs
  apply wlp_pure.mpr
  rw [h]
  exact reports_nil hs

/-- After a success, another program. -/
theorem Reports.then (h : Reports tr true t) {u : Lib} {ok : Bool} (h' : Reports tr' ok u) :
    Reports (tr ++ tr') ok u := by
  refine ⟨?_, ?_⟩
  · intro hok
    obtain ⟨hcode, hnot⟩ := h'.success hok
    exact ⟨hcode, not_silentEnd_append (h.success rfl).2 hnot⟩
  · intro hok
    obtain ⟨hiff, hsome⟩ := h'.failure hok
    refine ⟨?_, decider_append_ne (.inr hsome)⟩
    rw [silentEnd_append hsome]
    exact hiff

/-- What was done before does not matter to a report of its own. -/
theorem Reports.last {ok : Bool} (h : Reports tr' ok t) (hsome : decider tr' ≠ none) :
    Reports (tr ++ tr') ok t := by
  refine ⟨?_, ?_⟩
  · intro hok
    rw [silentEnd_append hsome]
    exact h.success hok
  · intro hok
    rw [silentEnd_append hsome]
    exact ⟨(h.failure hok).1, decider_append_ne (.inr hsome)⟩

/-- A step that cannot fail. -/
theorem tells_step {p : Prog α} {f : α → Prog β} (hp : Tells (fun _ => true) p)
    (hf : ∀ a, Tells ok' (f a)) : Tells ok' (p >>= f) := by
  intro s hs
  rw [wlp_bind]
  apply wlp_mono (hp s hs)
  intro tr a t h
  apply wlp_mono (hf a t (h.success rfl).1)
  intro tr' b u h'
  exact h.then h'

/-- A step that goes on if it succeeds, and fails otherwise. -/
theorem tells_bind {p : Prog α} {f : α → Prog β} (hp : Tells ok p)
    (htrue : ∀ a, ok a = true → Tells ok' (f a))
    (hfalse : ∀ a, ok a = false → Fails ok' (f a)) : Tells ok' (p >>= f) := by
  intro s hs
  rw [wlp_bind]
  apply wlp_mono (hp s hs)
  intro tr a t h
  cases hok : ok a with
  | true =>
    rw [hok] at h
    apply wlp_mono (htrue a hok t (h.success rfl).1)
    intro tr' b u h'
    exact h.then h'
  | false =>
    rw [hok] at h
    apply wlp_mono (h.fail (hfalse a hok))
    rintro tr' b u ⟨-, -, h'⟩
    exact h'

/-- What comes after a failure is another try, or the end. -/
theorem truthful_bind {p : Prog α} {f : α → Prog β} (hp : Truthful ok p)
    (htrue : ∀ a, ok a = true → Tells ok' (f a))
    (hfalse : ∀ a, ok a = false → Truthful ok' (f a) ∨ Fails ok' (f a)) :
    Truthful ok' (p >>= f) := by
  intro s
  rw [wlp_bind]
  apply wlp_mono (hp s)
  rintro tr a t ⟨h, hsome⟩
  cases hok : ok a with
  | true =>
    rw [hok] at h
    apply wlp_mono (htrue a hok t (h.success rfl).1)
    intro tr' b u h'
    exact ⟨h.then h', decider_append_ne (.inl hsome)⟩
  | false =>
    rcases hfalse a hok with hf | hf
    · apply wlp_mono (hf t)
      rintro tr' b u ⟨h', hsome'⟩
      exact ⟨h'.last hsome', decider_append_ne (.inr hsome')⟩
    · rw [hok] at h
      apply wlp_mono (h.fail hf)
      rintro tr' b u ⟨rfl, -, h'⟩
      exact ⟨h', decider_append_ne (.inl hsome)⟩

/-- After what may have left an error behind, a truthful program; or the end of a failure. -/
theorem truthful_after {p : Prog α} {f : α → Prog β}
    (hp : ∀ s, p.wlp s fun tr a t => ok a = false → Reports tr false t ∧ decider tr ≠ none)
    (htrue : ∀ a, ok a = true → Truthful ok' (f a)) (hfalse : ∀ a, ok a = false → Fails ok' (f a)) :
    Truthful ok' (p >>= f) := by
  intro s
  rw [wlp_bind]
  apply wlp_mono (hp s)
  intro tr a t h
  cases hok : ok a with
  | true =>
    apply wlp_mono (htrue a hok t)
    rintro tr' b u ⟨h', hsome'⟩
    exact ⟨h'.last hsome', decider_append_ne (.inr hsome')⟩
  | false =>
    obtain ⟨hreports, hsome⟩ := h hok
    apply wlp_mono (hreports.fail (hfalse a hok))
    rintro tr' b u ⟨rfl, -, h'⟩
    exact ⟨h', decider_append_ne (.inl hsome)⟩

/-- A result that is there or not. -/
theorem truthful_option {p : Prog (Option α)} {f : Option α → Prog β}
    (hp : Truthful Option.isSome p) (hsome : ∀ a, Tells ok' (f (some a)))
    (hnone : Truthful ok' (f none) ∨ Fails ok' (f none)) : Truthful ok' (p >>= f) := by
  apply truthful_bind hp
  · intro a h
    cases a with
    | none => exact absurd h Bool.false_ne_true
    | some a => exact hsome a
  · intro a h
    cases a with
    | none => exact hnone
    | some a => exact absurd h.symm Bool.false_ne_true

/-- Clearing the error of a success changes nothing. -/
theorem Truthful.done {p : Prog α} (hp : Truthful ok p) : Truthful ok (done ok p) := by
  intro s
  rw [Host.done, wlp_bind]
  apply wlp_mono (hp s)
  rintro tr a t ⟨h, hsome⟩
  simp only [clearErrorIf, wlp_bind, wlp_modify, wlp_pure, List.append_nil]
  refine ⟨⟨?_, ?_⟩, hsome⟩
  · intro hok
    rw [if_pos hok]
    exact ⟨rfl, (h.success hok).2⟩
  · intro hok
    rw [if_neg (by rw [hok]; decide)]
    exact h.failure hok

end Rules

/-! ## The open device -/

section Device

variable {device : Option String}

/-- A call that cannot fail. -/
theorem tells_member {slot : Table → Option DriverType} {p : Prim}
    (hp : ∀ type ans, ¬Event.Silent ⟨.prim type p, ans⟩) :
    Tells (fun _ => true) (member slot p) := by
  intro s hs
  apply wlp_member
  intro type ans _
  refine ⟨fun _ => ⟨hs, ?_⟩, Bool.noConfusion⟩
  rintro ⟨e, he, hsilent⟩
  rw [List.mem_singleton.mp (decider_mem he)] at hsilent
  exact hp type ans hsilent

theorem tells_strobe : Tells (fun _ => true) driver_strobe := tells_member fun _ _ h => h
theorem tells_wait (timeout : Nat) : Tells (fun _ => true) (driver_wait timeout) :=
  tells_member fun _ _ h => h
theorem tells_input : Tells (fun _ => true) driver_input := tells_member fun _ _ h => h
theorem tells_output : Tells (fun _ => true) driver_output := tells_member fun _ _ h => h
theorem tells_boot : Tells (fun _ => true) driver_boot := tells_member fun _ _ h => h
theorem tells_reset : Tells (fun _ => true) driver_reset := tells_member fun _ _ h => h

theorem tells_modify {f : Lib → Lib} (hf : ∀ s, (f s).error = s.error) :
    Tells (fun _ => true) (modify f : Prog Unit) := by
  intro s hs
  apply wlp_modify.mpr
  apply reports_nil
  rw [hf]
  exact hs

/-- An unanswered `xlink_ping` is silent. -/
theorem tells_ping : Tells id (driver_ping .xlinkPing) := by
  intro s hs
  apply wlp_member
  intro type answered _
  have hiff : SilentEnd [⟨.prim type (.ping .xlinkPing), answered⟩] ↔ answered = false :=
    silentEnd_singleton rfl
  refine ⟨?_, ?_⟩
  · intro hok
    refine ⟨hs, ?_⟩
    rw [hiff]
    exact fun h => Bool.false_ne_true (h.symm.trans hok)
  · intro hok
    exact ⟨iff_of_true hs (hiff.mpr hok), Option.some_ne_none _⟩

/-- The end of a transfer after its event: silent if there was nothing to do byte by byte. -/
theorem reports_transfer {type : DriverType} {size completed : BitVec 32} {done : String} {s : Lib}
    {e : Event} (hs : s.error.code = .success) (hdecides : e.decides = true)
    (he : e.Silent ↔ type.Bytewise ∧ size.toInt ≤ 0) :
    (transferDone type size completed done).wlp s fun tr ok t => Reports ([e] ++ tr) ok t := by
  have hsilent : SilentEnd [e] ↔ type.Bytewise ∧ size.toInt ≤ 0 :=
    (silentEnd_singleton hdecides).trans he
  have hsome : decider [e] ≠ none := by
    rw [decider, List.filter_cons, if_pos hdecides]
    exact Option.some_ne_none _
  have hcode : type.transferError ≠ .success := by cases type <;> decide
  unfold transferDone
  rw [wlp_ite, wlp_ite, wlp_ite]
  simp only [setError, clearErrorIf, wlp_bind, wlp_modify, wlp_pure, List.append_nil]
  split
  next hbytewise =>
    split
    next hshort =>
      refine ⟨fun h => absurd h (by decide), fun _ => ⟨iff_of_false hcode ?_, hsome⟩⟩
      rw [hsilent]
      rintro ⟨-, hzero⟩
      omega
    next hlong =>
      refine ⟨?_, ?_⟩
      · intro hok
        refine ⟨hs, ?_⟩
        rw [hsilent]
        rintro ⟨-, hzero⟩
        exact absurd (of_decide_eq_true hok) (by omega)
      · intro hok
        refine ⟨iff_of_true hs (hsilent.mpr ⟨hbytewise, ?_⟩), hsome⟩
        exact not_lt.mp (of_decide_eq_false hok)
  next hbytewise =>
    have hnot : ¬SilentEnd [e] := fun h => hbytewise (hsilent.mp h).1
    split
    · exact ⟨fun _ => ⟨rfl, hnot⟩, fun h => absurd h (by decide)⟩
    · exact ⟨fun h => absurd h (by decide), fun _ => ⟨iff_of_false hcode hnot, hsome⟩⟩

theorem tells_send (data : List Byte) : Tells id (driver_send data) := by
  intro s hs
  rw [driver_send, wlp_bind, wlp_get]
  cases s.table._send with
  | none => exact wlp_stop
  | some type =>
    rw [wlp_bind]
    apply wlp_call.mpr
    intro completed
    apply wlp_mono (reports_transfer (e := ⟨.prim type (.send data), completed⟩) hs rfl Iff.rfl)
    intro tr ok t h
    exact h

theorem tells_receive (size : BitVec 32) : Tells Option.isSome (driver_receive size) := by
  intro s hs
  rw [driver_receive, wlp_bind, wlp_get]
  cases s.table._receive with
  | none => exact wlp_stop
  | some type =>
    rw [wlp_bind]
    apply wlp_call.mpr
    rintro ⟨completed, bytes⟩
    rw [wlp_bind]
    apply wlp_mono (reports_transfer (e := ⟨.prim type (.receive size), (completed, bytes)⟩) hs rfl
      Iff.rfl)
    intro tr ok t h
    rw [wlp_ite]
    cases ok with
    | true =>
      rw [if_pos rfl]
      apply wlp_pure.mpr
      rw [List.append_nil]
      exact h
    | false =>
      rw [if_neg (by decide)]
      apply wlp_pure.mpr
      rw [List.append_nil]
      exact h

/-- A request without an answer to its ping sets an error. -/
theorem tells_asking {α : Type} (frame : List Byte) {rest : Prog (Option α)}
    (hrest : Tells Option.isSome rest) : Tells Option.isSome (asking frame rest) := by
  intro s hs
  rw [asking, wlp_bind]
  apply wlp_member
  intro type answered _
  rw [wlp_ite]
  have hnot : ¬SilentEnd [⟨.prim type (.ping .request), answered⟩] :=
    fun h => (silentEnd_singleton rfl).mp h
  split
  next hanswered =>
    have hsend : Tells Option.isSome (do
        driver_output
        if ← driver_send frame then rest else pure none : Prog (Option α)) := by
      apply tells_step tells_output
      intro _
      apply tells_bind (tells_send frame)
      · rintro _ rfl
        exact hrest
      · rintro _ rfl
        exact fails_pure rfl
    apply wlp_mono (hsend s hs)
    intro tr a t h
    have hfirst : Reports [⟨.prim type (.ping .request), answered⟩] true s :=
      ⟨fun _ => ⟨hs, hnot⟩, fun h => absurd h (by decide)⟩
    exact hfirst.then h
  next =>
    simp only [setError, wlp_bind, wlp_modify, wlp_pure, List.append_nil]
    exact ⟨Bool.noConfusion,
      fun _ => ⟨iff_of_false ErrorCode.noConfusion hnot, Option.some_ne_none _⟩⟩

theorem tells_answered {α : Type} {rest : Prog (Option α)} (hrest : Tells Option.isSome rest) :
    Tells Option.isSome (answered rest) :=
  tells_step tells_input fun _ => tells_step tells_strobe fun _ => hrest

/-! ## Opening -/

/-- The program calls something that has an outcome. -/
def Acts {α : Type} (p : Prog α) : Prop := ∀ s, p.wlp s fun tr _ _ => decider tr ≠ none

section Acts

variable {α β : Type} {p : Prog α} {f : α → Prog β}

theorem Acts.bind (hp : Acts p) : Acts (p >>= f) := by
  intro s
  rw [wlp_bind]
  apply wlp_mono (hp s)
  intro tr a t h
  apply wlp_iff.mpr
  intro tr' b u _
  exact decider_append_ne (.inl h)

theorem acts_last (hf : ∀ a, Acts (f a)) : Acts (p >>= f) := by
  intro s
  rw [wlp_bind]
  apply wlp_iff.mpr
  intro tr a t _
  apply wlp_mono (hf a t)
  intro tr' b u h
  exact decider_append_ne (.inr h)

theorem acts_device (type : DriverType) : Acts (openDevice type) := by
  have hcall : Acts (prim type .opening) :=
    fun s => wlp_call.mpr fun _ => Option.some_ne_none _
  exact hcall.bind

theorem acts_dispatch {setup : Prog Bool} (hsetup : Acts setup) : Acts (dispatchOpen setup) := by
  intro s
  rw [dispatchOpen, wlp_bind, wlp_get]
  cases s.table._open with
  | none => exact hsetup s
  | some type => exact acts_device type s

theorem acts_setup (path : String) : Acts (driver_setup path) := by
  have hstop : Acts (stop : Prog Bool) := fun _ => wlp_stop
  have hready : Acts (driver_ready (dispatchOpen stop)) := (acts_dispatch hstop).bind.bind
  have huse : ∀ type, Acts (useDriver type path) := fun type => acts_last fun _ => hready.bind
  have hdetect : Acts (detect path) := by
    intro s
    rw [detect, wlp_bind, device_identify, wlp_ite]
    split
    · exact wlp_pure.mpr (huse .shm s)
    · have hstat : Acts (stat path) := fun s => wlp_call.mpr fun _ => Option.some_ne_none _
      rw [wlp_bind]
      apply wlp_mono (hstat s)
      intro tr found t h
      apply wlp_iff.mpr
      intro tr' major u _
      apply wlp_iff.mpr
      intro tr'' ok v _
      exact decider_append_ne (.inl (decider_append_ne (.inl h)))
  exact acts_last fun _ => hdetect.bind

theorem acts_open (device : Option String) : Acts (driver_open device) := by
  have hauto : Acts (autodetect device) := by
    cases device with
    | some path => exact acts_setup path
    | none => exact (acts_setup defaultUsbDevice).bind
  exact acts_dispatch hauto.bind.bind

end Acts

/-- What tries to open the device sets an error if it fails. -/
theorem Tries.truthful {p : Prog Bool} (hp : Tries p) (hacts : Acts p) : Truthful id p := by
  intro s
  apply wlp_mono (wlp_and (hp s) (hacts s))
  rintro tr ok t ⟨h, hacts⟩
  have hnot := not_silentEnd_quiet h.quiet
  refine ⟨⟨fun hok => ⟨h.truth.mpr hok, hnot⟩, fun hok => ⟨iff_of_false ?_ hnot, hacts⟩⟩, hacts⟩
  intro hcode
  exact Bool.false_ne_true (hok.symm.trans (h.truth.mp hcode))

theorem truthful_open : Truthful id (driver_open device) :=
  (tries_open device).truthful (acts_open device)

theorem tells_close : Tells (fun _ => true) driver_close := by
  apply tells_step tells_input
  intro _
  exact tells_member fun _ _ h => h

/-- The close at the end is not the outcome. -/
theorem tells_closing {α : Type} {body : Prog (Option α)} (hbody : Tells Option.isSome body) :
    Tells Option.isSome (closing body) := by
  intro s hs
  rw [closing, wlp_bind]
  apply wlp_mono (hbody s hs)
  intro tr a t h
  rw [wlp_bind]
  apply wlp_close
  intro type type'
  apply wlp_pure.mpr
  have hnone : decider [⟨.prim type .input, ()⟩, ⟨.prim type' .close, ()⟩] = none := rfl
  rw [List.append_nil]
  refine ⟨?_, ?_⟩
  · intro hok
    rw [silentEnd_append_none hnone]
    exact h.success hok
  · intro hok
    rw [silentEnd_append_none hnone]
    exact ⟨(h.failure hok).1, decider_append_ne (.inl (h.failure hok).2)⟩

/-- **A call on the device tells the truth if its body does.** -/
theorem truthful_opened {α : Type} {body : Prog (Option α)} (hbody : Tells Option.isSome body) :
    Truthful Option.isSome (opened device body) := by
  apply Truthful.done
  apply truthful_bind truthful_open
  · rintro _ rfl
    exact tells_closing hbody
  · rintro _ rfl
    exact .inr (fails_pure rfl)

end Device

/-! ## The calls -/

section Calls

variable {device : Option String} {machine : Machine}

theorem truthful_setup (path : String) : Truthful id (driver_setup path) :=
  (tries_setup path).truthful (acts_setup path)

theorem truthful_ready : Truthful id (driver_ready (driver_open device)) :=
  (tries_open device).ready.truthful (acts_open device).bind.bind

theorem tells_some : Tells Option.isSome (pure (some ()) : Prog (Option Unit)) := tells_pure rfl

/-- A transfer at the end of a body. -/
theorem tells_sends (data : List Byte) : Tells Option.isSome (do
    if ← driver_send data then pure (some ()) else pure none : Prog (Option Unit)) := by
  apply tells_bind (tells_send data)
  · rintro _ rfl
    exact tells_some
  · rintro _ rfl
    exact fails_pure rfl

/-- Bytes that are received and used. -/
theorem tells_receives {α : Type} (size : BitVec 32) {f : Option (List Byte) → Prog (Option α)}
    (hf : ∀ bytes, Tells Option.isSome (f (some bytes))) (hnone : Fails Option.isSome (f none)) :
    Tells Option.isSome (driver_receive size >>= f) := by
  apply tells_bind (tells_receive size)
  · rintro (_ | bytes) h
    · exact absurd h (by decide)
    · exact hf bytes
  · rintro (_ | bytes) h
    · exact hnone
    · exact absurd h (by simp)

theorem acts_receive (size : BitVec 32) : Acts (driver_receive size) := by
  intro s
  rw [driver_receive, wlp_bind, wlp_get]
  cases s.table._receive with
  | none => exact wlp_stop
  | some type =>
    have hcall : Acts (prim type (.receive size)) :=
      fun s => wlp_call.mpr fun _ => Option.some_ne_none _
    exact hcall.bind s

/-- A table of `$ff`s sets an error. -/
theorem tells_info (id : List Byte) : Tells Option.isSome (do
    match ← driver_receive 9#32 with
    | none => pure none
    | some data => serverInfo id data : Prog (Option ServerInfo)) := by
  intro s hs
  rw [wlp_bind]
  apply wlp_mono (wlp_and (tells_receive 9#32 s hs) (acts_receive 9#32 s))
  rintro tr (_ | data) t ⟨h, hacts⟩
  · apply wlp_pure.mpr
    rw [List.append_nil]
    exact h
  · obtain ⟨hcode, hnot⟩ := h.success rfl
    change (serverInfo id data).wlp t _
    rw [serverInfo, wlp_ite]
    split
    · simp only [setError, wlp_bind, wlp_modify, wlp_pure, List.append_nil]
      exact ⟨Bool.noConfusion, fun _ => ⟨iff_of_false ErrorCode.noConfusion hnot, hacts⟩⟩
    · apply wlp_pure.mpr
      rw [List.append_nil]
      exact ⟨fun _ => ⟨hcode, hnot⟩, Bool.noConfusion⟩

theorem truthful_identify : Truthful Option.isSome (xlink_identify device) := by
  apply truthful_opened
  apply tells_asking
  apply tells_answered
  refine tells_receives _ ?_ (fails_pure rfl)
  intro size
  refine tells_receives _ ?_ (fails_pure rfl)
  intro id
  exact tells_info id

theorem truthful_ping : Truthful Option.isSome (xlink_ping device) := by
  apply truthful_opened
  apply tells_bind tells_ping
  · rintro _ rfl
    exact tells_some
  · rintro _ rfl
    exact fails_pure rfl

theorem truthful_load (memory bank : Byte) (address : Addr) (data : List Byte) :
    Truthful Option.isSome (xlink_load device memory bank address data) :=
  truthful_opened (tells_asking _ (tells_sends data))

theorem truthful_peek (memory bank : Byte) (address : Addr) :
    Truthful Option.isSome (xlink_peek device memory bank address) := by
  apply truthful_opened
  apply tells_asking
  apply tells_answered
  refine tells_receives _ ?_ (fails_pure rfl)
  intro value
  exact tells_pure rfl

theorem truthful_jump (memory bank : Byte) (address : Addr) :
    Truthful Option.isSome (xlink_jump device memory bank address) :=
  truthful_opened (tells_asking _ tells_some)

theorem truthful_inject (address : Addr) (code : List Byte) :
    Truthful Option.isSome (xlink_inject device machine address code) := by
  apply truthful_option (truthful_load _ _ _ _)
  · intro _
    exact (truthful_opened (tells_asking _ tells_some)).tells
  · right
    intro s
    simp only [clearErrorIf, wlp_bind, wlp_modify, wlp_pure]
    exact ⟨rfl, rfl, rfl⟩

theorem truthful_relocate (address : Addr) :
    Truthful Option.isSome (xlink_relocate device machine address) := by
  apply Truthful.done
  apply truthful_option (truthful_load _ _ _ _)
  · intro _
    exact (truthful_jump _ _ _).tells
  · exact .inr (fails_pure rfl)

/-! ### Ready -/

theorem truthful_pings (n : Nat) : Truthful Option.isSome (pings device (n + 1)) := by
  induction n with
  | zero => exact truthful_option truthful_ping (fun _ => tells_some) (.inr (fails_pure rfl))
  | succ n ih => exact truthful_option truthful_ping (fun _ => tells_some) (.inl ih)

theorem truthful_server_ready_after : Truthful Option.isSome (server_ready_after device 3000) :=
  truthful_pings 11

theorem truthful_awake : Truthful Option.isSome (awake device machine) := by
  have htwice : Truthful Option.isSome (pingTwice device) :=
    truthful_option truthful_ping (fun _ => truthful_ping.tells) (.inr (fails_pure rfl))
  apply truthful_option htwice
  · intro _
    exact tells_some
  · left
    exact @truthful_after _ _ (fun _ => true) _ _ _
      (fun s => wlp_iff.mpr fun _ _ _ _ h => absurd h.symm Bool.false_ne_true)
      (fun _ _ => truthful_server_ready_after) fun _ h => absurd h.symm Bool.false_ne_true

/-! ### Reset -/

/-- The C64 is reset. -/
def Event.resets : Event → Bool
  | ⟨.prim _ .reset, _⟩ => true
  | _ => false

theorem not_resets_quiet {tr : List Event} (h : ∀ e ∈ tr, e.Quiet) :
    ∀ e ∈ tr, Event.resets e = false := by
  rintro ⟨op, ans⟩ he
  have hquiet := h _ he
  cases op with
  | stat path => rfl
  | prim type p =>
    cases p with
    | reset => exact hquiet.elim
    | _ => rfl

/-- The last ping of the loop fails, silently or not. -/
theorem wlp_pingWhile (s : Lib) : (pingWhile device).wlp s fun tr _ t =>
    (t.error.code = .success ↔ SilentEnd tr) ∧ decider tr ≠ none := by
  apply wlp_repeatWhile (I := fun _ _ => True) trivial
  intro tr t _
  rw [wlp_bind]
  apply wlp_mono (truthful_ping t)
  rintro tr' a u ⟨h, hsome⟩
  apply wlp_pure.mpr
  rw [List.append_nil]
  split
  · trivial
  next hfalse =>
    have hok : a.isSome = false := by simpa using hfalse
    refine ⟨?_, decider_append_ne (.inr hsome)⟩
    rw [silentEnd_append hsome]
    exact (h.failure hok).1

/-- What a reset reports: the error of a success is that of the last ping on the C128. -/
theorem wlp_reset (s : Lib) : (xlink_reset device machine).wlp s fun tr a t =>
    (a = none → Reports tr false t ∧ decider tr ≠ none ∧ ¬SilentEnd tr ∧
      ∀ e ∈ tr, Event.resets e = false) ∧
    (a = some () → (∃ e ∈ tr, Event.resets e = true) ∧
      (t.error.code = .success ↔ (machine.type = .c128 → SilentEnd tr))) := by
  rw [xlink_reset, wlp_bind]
  apply wlp_mono (wlp_and (tries_open device s) (truthful_open s))
  rintro tr ok t ⟨htried, h, hsome⟩
  rw [wlp_ite]
  cases ok with
  | false =>
    rw [if_neg (by decide)]
    simp only [clearErrorIf, wlp_bind, wlp_modify, wlp_pure, List.append_nil]
    refine ⟨fun _ => ⟨h, hsome, ?_, ?_⟩, fun h => absurd h (by decide)⟩
    · exact not_silentEnd_quiet htried.quiet
    · exact not_resets_quiet htried.quiet
  | true =>
    have hcode := (h.success rfl).1
    rw [if_pos rfl, wlp_bind]
    apply wlp_member
    intro type _ _
    rw [wlp_bind]
    apply wlp_close
    intro type' type''
    have hmem : ∀ tr' : List Event, ∃ e ∈ tr ++ ([⟨.prim type .reset, ()⟩] ++ tr'),
        Event.resets e = true :=
      fun tr' => ⟨⟨.prim type .reset, ()⟩, by simp, rfl⟩
    rw [wlp_ite]
    split
    next htype =>
      rw [wlp_bind]
      apply wlp_mono (wlp_pingWhile t)
      rintro tr' _ u ⟨hiff, hsome'⟩
      apply wlp_pure.mpr
      rw [List.append_nil]
      refine ⟨fun h => absurd h (by simp), fun _ => ⟨hmem _, ?_⟩⟩
      rw [hiff]
      have hlast : SilentEnd (tr ++ ([⟨.prim type .reset, ()⟩] ++
          ([⟨.prim type' .input, ()⟩, ⟨.prim type'' .close, ()⟩] ++ tr'))) ↔ SilentEnd tr' := by
        rw [silentEnd_append, silentEnd_append, silentEnd_append hsome']
        · exact decider_append_ne (.inr hsome')
        · exact decider_append_ne (.inr (decider_append_ne (.inr hsome')))
      rw [hlast]
      exact ⟨fun h _ => h, fun h => h htype⟩
    next htype =>
      apply wlp_pure.mpr
      rw [List.append_nil]
      refine ⟨fun h => absurd h (by simp), fun _ => ⟨hmem _, ?_⟩⟩
      exact iff_of_true hcode fun h => absurd h htype

/-- A program chosen by a test. -/
theorem tells_ite {α : Type} {ok : α → Bool} {c : Prop} [Decidable c] {p q : Prog α}
    (hp : Tells ok p) (hq : Tells ok q) : Tells ok (if c then p else q) := by
  split
  · exact hp
  · exact hq

theorem truthful_switched : Truthful (fun r => r.1.isSome) (switched device machine) := by
  have hafter : Truthful (fun r => r.1.isSome) (do
      let result ← server_ready_after device 3000
      pure (result, true) : Prog (Option Unit × Bool)) := by
    apply truthful_bind truthful_server_ready_after
    · intro result h
      exact tells_pure h
    · intro result h
      exact .inr (fails_pure h)
  apply truthful_option truthful_identify
  · intro remote
    cases machine.type with
    | c64 =>
      apply tells_ite _ (tells_pure rfl)
      apply Truthful.tells
      exact truthful_option (truthful_jump _ _ _) (fun _ => hafter.tells) (.inr (fails_pure rfl))
    | c128 =>
      apply tells_ite _ (tells_pure rfl)
      apply Truthful.tells
      apply @truthful_after _ _ Option.isSome
      · intro s
        apply wlp_mono (wlp_reset s)
        rintro tr (_ | _) t ⟨h, -⟩ hnone
        · exact ⟨(h rfl).1, (h rfl).2.1⟩
        · exact absurd hnone.symm Bool.false_ne_true
      · rintro (_ | _) h
        · exact absurd h Bool.false_ne_true
        · exact hafter
      · rintro (_ | _) h
        · exact fails_pure rfl
        · exact absurd h.symm Bool.false_ne_true
  · exact .inr (fails_pure rfl)

theorem truthful_warmstarted : Truthful Option.isSome (warmstarted device machine) := by
  apply truthful_option (truthful_peek _ _ _)
  · intro mode
    exact tells_ite (truthful_jump _ _ _).tells tells_some
  · exact .inr (fails_pure rfl)

theorem truthful_readied : Truthful Option.isSome (readied device machine) := by
  apply truthful_option truthful_awake
  · intro _
    apply Truthful.tells
    apply truthful_bind truthful_switched
    · rintro ⟨result, done⟩ h
      exact tells_ite (tells_pure h) truthful_warmstarted.tells
    · rintro ⟨result, done⟩ h
      cases done with
      | true => exact .inr (fails_pure h)
      | false => exact .inl truthful_warmstarted
  · exact .inr (fails_pure rfl)

theorem truthful_xlink_ready : Truthful Option.isSome (xlink_ready device machine) := by
  apply Truthful.done
  apply truthful_bind truthful_ready
  · rintro _ rfl
    exact truthful_readied.tells
  · rintro _ rfl
    exact .inr (fails_pure rfl)

/-! ### Sessions -/

theorem tells_get {α : Type} {ok : α → Bool} {f : Lib → Prog α} (hf : ∀ s, Tells ok (f s)) :
    Tells ok (get >>= f) := by
  intro s hs
  rw [wlp_bind, wlp_get]
  exact hf s s hs

theorem truthful_xlink_send (data : List Byte) :
    Truthful Option.isSome (xlink_send device data) := by
  apply truthful_opened
  have hturn : Tells (fun _ => true) turnaroundOut := by
    apply tells_get
    intro s
    exact tells_ite (tells_step (tells_wait 0) fun _ => tells_pure rfl) (tells_pure rfl)
  apply tells_step hturn
  intro _
  apply tells_step tells_output
  intro _
  refine tells_step (tells_modify ?_) ?_
  · intro _
    rfl
  · intro _
    exact tells_sends data

theorem truthful_xlink_receive (size : BitVec 32) :
    Truthful Option.isSome (xlink_receive device size) := by
  apply truthful_opened
  apply tells_step tells_input
  intro _
  have hturn : Tells (fun _ => true) turnaroundIn := by
    apply tells_get
    intro s
    exact tells_ite (tells_step tells_strobe fun _ => tells_modify fun _ => rfl) (tells_pure rfl)
  exact tells_step hturn fun _ => tells_receive size

/-- Another timeout makes no difference to the error. -/
theorem truthful_withTimeout {α : Type} {p : Prog (Option α)} (timeout : Nat)
    (hp : Truthful Option.isSome p) : Truthful Option.isSome (withTimeout timeout p) := by
  intro s
  rw [withTimeout, wlp_bind, wlp_modify, wlp_bind]
  apply wlp_mono (hp _)
  rintro tr a t ⟨h, hsome⟩
  simp only [wlp_bind, wlp_modify, wlp_pure, List.append_nil]
  exact ⟨⟨h.success, h.failure⟩, hsome⟩

theorem truthful_returned {α : Type} {p : Prog (Option α)} (hp : Truthful Option.isSome p) :
    Truthful id (returned p) := by
  apply truthful_bind hp
  · intro a h
    exact tells_pure h
  · intro a h
    exact .inr (fails_pure h)

/-- A result that is known by whether it is there. -/
theorem truthful_there {p : Prog Bool} (hp : Truthful id p) :
    Truthful id (returned (do let result ← p; pure (if result then some () else none))) := by
  apply truthful_returned
  apply truthful_bind hp
  · rintro _ rfl
    exact tells_some
  · rintro _ rfl
    exact .inr (fails_pure rfl)

/-- Every call but `xlink_reset`. -/
theorem Call.truthful (c : Call) (hc : c ≠ .reset) : Truthful id (c.prog device machine) := by
  cases c with
  | setDevice path => exact truthful_there (truthful_setup path)
  | hasDevice => exact truthful_there truthful_ready
  | identify => exact truthful_returned truthful_identify
  | ping => exact truthful_returned truthful_ping
  | reset => exact absurd rfl hc
  | ready => exact truthful_returned truthful_xlink_ready
  | bootloader =>
    exact truthful_returned (truthful_opened (tells_step tells_boot fun _ => tells_some))
  | load memory bank address data => exact truthful_returned (truthful_load memory bank address data)
  | save memory bank address size =>
    exact truthful_returned (truthful_opened (tells_asking _ (tells_answered (tells_receive size))))
  | peek memory bank address => exact truthful_returned (truthful_peek memory bank address)
  | poke memory bank address value =>
    exact truthful_returned (truthful_opened (tells_asking _ tells_some))
  | fill memory bank address value size =>
    exact truthful_returned (truthful_load memory bank address _)
  | jump memory bank address => exact truthful_returned (truthful_jump memory bank address)
  | run => exact truthful_returned (truthful_opened (tells_asking _ tells_some))
  | inject address code => exact truthful_returned (truthful_inject address code)
  | relocate address => exact truthful_returned (truthful_relocate address)
  | send data => exact truthful_returned (truthful_xlink_send data)
  | sendWithTimeout data timeout =>
    exact truthful_returned (truthful_withTimeout timeout (truthful_xlink_send data))
  | receive size => exact truthful_returned (truthful_xlink_receive size)
  | receiveWithTimeout size timeout =>
    exact truthful_returned (truthful_withTimeout timeout (truthful_xlink_receive size))

end Calls

/-! ## When the error tells the truth -/

/-- The calls whose error does not go with their result: those that end in a silent failure, and a
reset of the C128 whose last ping does not fail silently. -/
def Call.Misled (machine : Machine) : Call → List Event → Prop
  | .reset, tr => machine.type = .c128 ∧ (∃ e ∈ tr, Event.resets e = true) ∧ ¬SilentEnd tr
  | _, tr => SilentEnd tr

/-- **The error is a success exactly if the call returns `true`, unless the call is misled.** -/
theorem error_tells_truth (device : Option String) (machine : Machine) (c : Call) (s : Lib) :
    (c.prog device machine).wlp s fun tr r t =>
      (r = true ↔ t.error.code = .success) ↔ ¬c.Misled machine tr := by
  by_cases hc : c = .reset
  · subst hc
    rw [Call.prog, returned, wlp_bind]
    apply wlp_mono (wlp_reset s)
    rintro tr a t ⟨hnone, hsome⟩
    apply wlp_pure.mpr
    rw [List.append_nil]
    cases a with
    | none =>
      obtain ⟨h, -, hloud, hnot⟩ := hnone rfl
      have hcode : t.error.code ≠ .success := fun hcode => hloud ((h.failure rfl).1.mp hcode)
      refine iff_of_true (iff_of_false (by decide) hcode) ?_
      rintro ⟨-, ⟨e, he, hresets⟩, -⟩
      exact Bool.false_ne_true ((hnot e he).symm.trans hresets)
    | some u =>
      obtain ⟨hmem, hiff⟩ := hsome rfl
      simp only [Call.Misled, hmem, true_and, not_and, not_not]
      exact ⟨fun h => hiff.mp (h.mp rfl), fun h => iff_of_true rfl (hiff.mpr h)⟩
  · have hmisled : ∀ tr, c.Misled machine tr ↔ SilentEnd tr := by
      intro tr
      cases c with
      | reset => exact absurd rfl hc
      | _ => rfl
    apply wlp_mono (c.truthful hc s)
    rintro tr r t ⟨h, -⟩
    rw [hmisled]
    cases r with
    | true => exact iff_of_true (iff_of_true rfl (h.success rfl).1) (h.success rfl).2
    | false =>
      rw [← (h.failure rfl).1]
      exact ⟨fun h hcode => absurd (h.mpr hcode) (by decide), fun h => iff_of_false (by decide) h⟩

/-- An `xlink_ping` that is not answered fails without an error. -/
theorem error_silent : ∃ tr t, ((Call.ping).prog none (Machine.c64 fun _ => [])).Runs shmLib tr false
    t ∧ t.error.code = .success :=
  ⟨[shmEvent .opening none, shmEvent (.ping .xlinkPing) false, shmEvent .input (),
    shmEvent .close ()], shmLib,
    ⟨none, _, rfl, false, _, rfl, (), _, rfl, (), _, rfl, rfl, rfl, rfl⟩, rfl⟩

end Xlink.Host

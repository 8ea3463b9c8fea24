import Xlink.Host.Library

/-!
# Opening and setting up the device

`Tried` is what opening the device comes to, with or without a setup on the way: only openings,
closes and switches to input are called, the result is that of the last opening, and the error tells
it.
-/

namespace Xlink.Host

open Word Program Program.Prog

/-- A call that opens, closes or looks at the device. -/
def Event.Quiet : Event → Prop
  | ⟨.prim _ .opening, _⟩ => True
  | ⟨.prim _ .close, _⟩ => True
  | ⟨.prim _ .input, _⟩ => True
  | ⟨.prim _ _, _⟩ => False
  | ⟨.stat _, _⟩ => True

/-- Whether an opening succeeds. -/
def Event.attempt : Event → Option Bool
  | ⟨.prim _ .opening, refusal⟩ => some (refusal : Option String).isNone
  | _ => none

/-- The last opening, if there is one. -/
def lastOpening (tr : List Event) : Option Bool := (tr.filterMap Event.attempt).getLast?

theorem lastOpening_append (tr tr' : List Event) :
    lastOpening (tr ++ tr') = (lastOpening tr').or (lastOpening tr) := by
  rw [lastOpening, List.filterMap_append, List.getLast?_append]
  rfl

/-- From a state, with a trace, opening the device has come to a result and a state. -/
structure Tried (s : Lib) (tr : List Event) (ok : Bool) (t : Lib) : Prop where
  quiet : ∀ e ∈ tr, e.Quiet
  state : t.state = s.state
  last : ok = true ↔ lastOpening tr = some true
  truth : t.error.code = .success ↔ ok = true

/-- The program tries to open the device. -/
def Tries (p : Prog Bool) : Prop := ∀ s, p.wlp s (Tried s)

theorem Tried.append {s t u : Lib} {tr tr' : List Event} {ok ok' : Bool} (h : Tried s tr ok t)
    (h' : Tried t tr' ok' u) (hlast : ok = false ∨ lastOpening tr' ≠ none) :
    Tried s (tr ++ tr') ok' u := by
  refine ⟨?_, h'.state.trans h.state, ?_, h'.truth⟩
  · intro e he
    rcases List.mem_append.mp he with he | he
    · exact h.quiet e he
    · exact h'.quiet e he
  · rw [h'.last, lastOpening_append]
    cases hfirst : lastOpening tr' with
    | some b => rfl
    | none =>
      rcases hlast with hlast | hlast
      · have hnot := h.last
        rw [hlast] at hnot
        simp only [Option.none_or, reduceCtorEq, false_iff]
        exact fun hopen => absurd (hnot.mpr hopen) (by decide)
      · exact absurd hfirst hlast

section Rules

variable {α : Type} {s t u : Lib} {tr tr' : List Event} {ok : Bool}

/-- More calls that open nothing, and no more errors. -/
theorem Tried.extend (h : Tried s tr ok t) (hquiet : ∀ e ∈ tr', e.Quiet)
    (hnone : lastOpening tr' = none) (hstate : u.state = t.state)
    (herror : u.error = t.error) : Tried s (tr ++ tr') ok u := by
  refine ⟨?_, hstate.trans h.state, ?_, ?_⟩
  · intro e he
    rcases List.mem_append.mp he with he | he
    · exact h.quiet e he
    · exact hquiet e he
  · rw [h.last, lastOpening_append, hnone, Option.none_or]
  · rw [herror]
    exact h.truth

theorem Tries.done {p : Prog Bool} (hp : Tries p) : Tries (done id p) := by
  intro s
  rw [Host.done, wlp_bind]
  apply wlp_mono (hp s)
  intro tr ok t h
  simp only [clearErrorIf, wlp_bind, wlp_modify, wlp_pure, List.append_nil]
  cases ok with
  | true => exact ⟨h.quiet, h.state, h.last, iff_of_true rfl rfl⟩
  | false => exact h

/-- A failure that sets an error. -/
theorem wlp_failed {code : ErrorCode} {message : String} (hcode : code ≠ .success)
    (hstate : t.state = s.state) (hquiet : ∀ e ∈ tr, e.Quiet) (hlast : lastOpening tr ≠ some true) :
    (do setError code message; pure false : Prog Bool).wlp t
      fun tr' ok u => Tried s (tr ++ tr') ok u := by
  simp only [setError, wlp_bind, wlp_modify, wlp_pure, List.append_nil]
  refine ⟨hquiet, hstate, ?_, ?_⟩
  · exact iff_of_false (by decide) hlast
  · exact iff_of_false hcode (by decide)

theorem tries_device (type : DriverType) : Tries (openDevice type) := by
  intro s
  rw [openDevice, wlp_bind]
  apply wlp_call.mpr
  intro refusal
  have hquiet : ∀ e ∈ [⟨.prim type .opening, refusal⟩], Event.Quiet e := by
    intro e he
    rw [List.mem_singleton.mp he]
    trivial
  cases refusal with
  | none =>
    simp only [clearErrorIf, wlp_bind, wlp_modify, wlp_pure, List.append_nil]
    exact ⟨hquiet, rfl, iff_of_true rfl rfl, iff_of_true rfl rfl⟩
  | some text =>
    apply wlp_failed _ rfl hquiet
    · exact fun h => Bool.false_ne_true (Option.some.inj h)
    · cases type <;> decide

theorem lastOpening_device (type : DriverType) (s : Lib) :
    (openDevice type).wlp s fun tr _ _ => lastOpening tr ≠ none := by
  rw [openDevice, wlp_bind]
  apply wlp_call.mpr
  intro refusal
  cases refusal with
  | none =>
    simp only [clearErrorIf, wlp_bind, wlp_modify, wlp_pure]
    exact Option.some_ne_none _
  | some text =>
    simp only [setError, wlp_bind, wlp_modify, wlp_pure]
    exact Option.some_ne_none _

/-- The table has been filled. -/
theorem tries_dispatch (s : Lib) : (dispatchOpen stop).wlp s fun tr ok t =>
    Tried s tr ok t ∧ lastOpening tr ≠ none := by
  rw [dispatchOpen, wlp_bind, wlp_get]
  cases s.table._open with
  | none => exact wlp_stop
  | some type => exact wlp_and (tries_device type s) (lastOpening_device type s)

/-- A call through the table, with what is known of it. -/
theorem wlp_member {slot : Table → Option DriverType} {p : Prim} {Q : List Event → p.Ans → Lib → Prop}
    (h : ∀ type ans, slot s.table = some type → Q [⟨.prim type p, ans⟩] ans s) :
    (member slot p).wlp s Q := by
  rw [member, wlp_bind, wlp_get]
  cases hslot : slot s.table with
  | none => exact wlp_stop
  | some type => exact wlp_call.mpr fun ans => h type ans hslot

theorem wlp_close {Q : List Event → Unit → Lib → Prop}
    (h : ∀ type type', Q [⟨.prim type .input, ()⟩, ⟨.prim type' .close, ()⟩] () s) :
    driver_close.wlp s Q := by
  rw [driver_close, wlp_bind]
  apply wlp_member
  intro type _ _
  apply wlp_member
  intro type' _ _
  exact h type type'

theorem Tries.ready {p : Prog Bool} (hp : Tries p) : Tries (driver_ready p) := by
  apply Tries.done
  intro s
  rw [wlp_bind]
  apply wlp_mono (hp s)
  intro tr ok t h
  rw [wlp_ite]
  cases ok with
  | true =>
    rw [if_pos rfl, wlp_bind]
    apply wlp_close
    intro type type'
    apply wlp_pure.mpr
    apply h.extend _ rfl rfl rfl
    intro e he
    simp only [List.append_nil, List.mem_cons, List.not_mem_nil, or_false] at he
    rcases he with rfl | rfl
    · trivial
    · trivial
  | false =>
    rw [if_neg (by decide)]
    apply wlp_pure.mpr
    rw [List.append_nil]
    exact h

end Rules

/-! ## Setup -/

/-- `stat` is quiet. -/
theorem quiet_stat (path : String) (found : Stat) :
    ∀ e ∈ [⟨.stat path, found⟩], Event.Quiet e := by
  intro e he
  rw [List.mem_singleton.mp he]
  trivial

theorem tries_useDriver (type : DriverType) (path : String) : Tries (useDriver type path) := by
  intro s
  rw [useDriver, wlp_bind, wlp_modify, wlp_bind]
  have hready : Tries (driver_ready (dispatchOpen stop)) :=
    Tries.ready fun s => wlp_mono (tries_dispatch s) fun _ _ _ h => h.1
  apply wlp_mono (hready _)
  intro tr ok t h
  rw [wlp_ite]
  cases ok with
  | true =>
    rw [if_pos rfl]
    apply wlp_pure.mpr
    rw [List.append_nil]
    exact ⟨h.quiet, h.state, h.last, h.truth⟩
  | false =>
    rw [if_neg (by decide)]
    have hlast : lastOpening tr ≠ some true := fun hopen => absurd (h.last.mpr hopen) (by decide)
    exact wlp_failed (by decide) h.state h.quiet hlast

theorem tries_useMajor (path : String) (major : Int) : Tries (useMajor path major) := by
  intro s
  unfold useMajor
  cases deviceType major with
  | none =>
    apply wlp_mono (@wlp_failed s s [] _ _ (by decide) rfl (fun _ h => absurd h List.not_mem_nil)
      (by decide))
    intro tr ok t h
    exact h
  | some type => exact tries_useDriver type path s

/-- What comes before an attempt. -/
theorem Tried.after {s t u : Lib} {tr tr' : List Event} {ok : Bool} (h : Tried t tr' ok u)
    (hquiet : ∀ e ∈ tr, e.Quiet) (hnone : lastOpening tr = none) (hstate : t.state = s.state) :
    Tried s (tr ++ tr') ok u := by
  refine ⟨?_, h.state.trans hstate, ?_, h.truth⟩
  · intro e he
    rcases List.mem_append.mp he with he | he
    · exact hquiet e he
    · exact h.quiet e he
  · rw [h.last, lastOpening_append, hnone, Option.or_none]

theorem tries_detect (path : String) : Tries (detect path) := by
  intro s
  rw [detect, wlp_bind, device_identify, wlp_ite]
  split
  · apply wlp_pure.mpr
    exact tries_useMajor path (-1) s
  · rw [wlp_bind]
    apply wlp_call.mpr
    intro found
    have hquiet := quiet_stat path found
    have hlast : lastOpening [⟨.stat path, found⟩] ≠ some true := by
      simp [lastOpening, Event.attempt]
    cases found with
    | failed reason =>
      simp only [setError, wlp_bind, wlp_modify, wlp_pure, List.append_nil]
      exact ⟨hquiet, rfl, iff_of_false (by decide) hlast,
        iff_of_false ErrorCode.noConfusion (by decide)⟩
    | other =>
      simp only [setError, wlp_bind, wlp_modify, wlp_pure, List.append_nil]
      exact ⟨hquiet, rfl, iff_of_false (by decide) hlast,
        iff_of_false ErrorCode.noConfusion (by decide)⟩
    | chr major =>
      simp only [clearErrorIf, wlp_bind, wlp_modify, wlp_pure, List.append_nil]
      apply wlp_mono (tries_useMajor path major _)
      intro tr ok t h
      exact h.after hquiet rfl rfl

theorem tries_setup (path : String) : Tries (driver_setup path) := by
  intro s
  rw [driver_setup, wlp_bind, wlp_modify]
  apply wlp_mono (Tries.done (tries_detect path) _)
  intro tr ok t h
  exact ⟨h.quiet, h.state, h.last, h.truth⟩

theorem tries_autodetect (device : Option String) : Tries (autodetect device) := by
  intro s
  cases device with
  | some path => exact tries_setup path s
  | none =>
    rw [autodetect, wlp_bind]
    apply wlp_mono (tries_setup defaultUsbDevice s)
    intro tr ok t h
    rw [wlp_ite]
    cases ok with
    | true =>
      rw [if_pos rfl]
      apply wlp_pure.mpr
      rw [List.append_nil]
      exact h
    | false =>
      rw [if_neg (by decide)]
      apply wlp_mono (tries_setup defaultParportDevice t)
      intro tr' ok' u h'
      exact h.append h' (.inl rfl)

theorem tries_setup_and_open (device : Option String) : Tries (driver_setup_and_open device) := by
  apply Tries.done
  intro s
  rw [wlp_bind]
  apply wlp_mono (tries_autodetect device s)
  intro tr ok t h
  rw [wlp_ite]
  cases ok with
  | true =>
    rw [if_pos rfl]
    apply wlp_mono (tries_dispatch t)
    rintro tr' ok' u ⟨h', hsome⟩
    exact h.append h' (.inr hsome)
  | false =>
    rw [if_neg (by decide), wlp_ite]
    split
    · have hlast : lastOpening tr ≠ some true := fun hopen => absurd (h.last.mpr hopen) (by decide)
      exact wlp_failed (by decide) h.state h.quiet hlast
    · apply wlp_pure.mpr
      rw [List.append_nil]
      exact h

/-- **Opening the device**, set up before if it has not been. -/
theorem tries_open (device : Option String) : Tries (driver_open device) := by
  intro s
  rw [driver_open, dispatchOpen, wlp_bind, wlp_get]
  cases s.table._open with
  | none => exact tries_setup_and_open device s
  | some type => exact tries_device type s

/-- The library on a shared memory device. -/
def shmLib : Lib where
  path := "shm"
  timeout := defaultTimeout
  state := .idle
  table := Table.of .shm
  error := ⟨.success, "Success"⟩

/-- A call of the shared memory driver. -/
def shmEvent (p : Prim) (ans : p.Ans) : Event := ⟨.prim .shm p, ans⟩

end Xlink.Host

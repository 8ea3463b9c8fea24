import Mathlib.Data.List.Basic
import Xlink.Serial.Link
import Xlink.Serial.Queues

/-!
# What a buffered UART is good for

What the line delivers and `ReadSerial` returns, and what is given to `WriteSerial` and goes out on
the line, over whole runs: nothing is lost on the way but what a full buffer refuses and a flush
drops, nothing is doubled or overtaken, and a call of `WriteSerial` always gets done.

All of this is about every order of the main program's accesses and the interrupts, for buffers of
any size up to 256 bytes, and not about larger ones, whose positions take two accesses (`Uart`). A
byte counts as arrived when the receive interrupt has stored it: what a full buffer refuses is
reported by the error bits alone, and a flush drops what waits.
-/

namespace Xlink.Serial

open Word (Byte)

/-! ## What a run shows -/

namespace LineEvent

/-- The byte that the event puts into the receive buffer. -/
def arrival : LineEvent → Option Byte
  | received _ data => some data
  | _ => none

/-- The byte that the event gives to the caller of `ReadSerial`. -/
def delivery : LineEvent → Option Byte
  | returned c => some c
  | _ => none

/-- The byte that the event asks to be sent. -/
def order : LineEvent → Option Byte
  | writeSerial c => some c
  | _ => none

/-- The byte that the event puts on the line. -/
def departure : LineEvent → Option Byte
  | transmitted data => some data
  | _ => none

/-- The event is the main program's next access or a transmit interrupt: no caller and no line is
needed for it. -/
def isOwn : LineEvent → Bool
  | access | transmitted _ => true
  | _ => false

end LineEvent

def arrived (es : List LineEvent) : List Byte := es.filterMap LineEvent.arrival
def delivered (es : List LineEvent) : List Byte := es.filterMap LineEvent.delivery
def ordered (es : List LineEvent) : List Byte := es.filterMap LineEvent.order
def departed (es : List LineEvent) : List Byte := es.filterMap LineEvent.departure

theorem arrived_cons (e : LineEvent) (es : List LineEvent) :
    arrived (e :: es) = arrived [e] ++ arrived es :=
  List.filterMap_append (l := [e])

theorem delivered_cons (e : LineEvent) (es : List LineEvent) :
    delivered (e :: es) = delivered [e] ++ delivered es :=
  List.filterMap_append (l := [e])

theorem ordered_cons (e : LineEvent) (es : List LineEvent) :
    ordered (e :: es) = ordered [e] ++ ordered es :=
  List.filterMap_append (l := [e])

theorem departed_cons (e : LineEvent) (es : List LineEvent) :
    departed (e :: es) = departed [e] ++ departed es :=
  List.filterMap_append (l := [e])

namespace Task

/-- The byte taken from the receive buffer and not returned yet. -/
def taken : Task → List Byte
  | fetching data | answering data => [data]
  | _ => []

/-- The byte that is not in the transmit buffer yet. -/
def toSend : Task → List Byte
  | waiting data | storing data | moving data => [data]
  | _ => []

/-- The main program has seen that a byte waits, and has not taken it yet. -/
def expects : Task → Bool
  | testing | taking => true
  | _ => false

/-- The main program is in `WriteSerial`. -/
def Writing : Task → Prop
  | waiting _ | storing _ | moving _ | enabling => True
  | _ => False

end Task

namespace Queues

variable {rxSize txSize : Nat} {q q' : Queues} {e : LineEvent}

def unread (q : Queues) : List Byte := q.main.taken ++ q.rx
def unsent (q : Queues) : List Byte := q.tx ++ q.main.toSend

/-! ## What one event can do -/

/-- The access that `proceed` makes. -/
inductive Proceeds (txSize : Nat) : Queues → Queues → Prop
  | poll (q : Queues) : q.main = .polling → q.rx = [] → Proceeds txSize q q
  | test (q : Queues) : q.main = .polling → q.rx ≠ [] →
      Proceeds txSize q { q with main := .testing }
  | take (q : Queues) : q.main = .testing → q.rx ≠ [] →
      Proceeds txSize q { q with main := .taking }
  | fetch (q : Queues) (data : Byte) (rest : List Byte) : q.main = .taking → q.rx = data :: rest →
      Proceeds txSize q { q with rx := rest, main := .fetching data }
  | answer (q : Queues) (data : Byte) : q.main = .fetching data →
      Proceeds txSize q { q with main := .answering data }
  | wait (q : Queues) (data : Byte) : q.main = .waiting data → q.tx.length + 1 = txSize →
      Proceeds txSize q q
  | store (q : Queues) (data : Byte) : q.main = .waiting data → q.tx.length + 1 ≠ txSize →
      Proceeds txSize q { q with main := .storing data }
  | move (q : Queues) (data : Byte) : q.main = .storing data →
      Proceeds txSize q { q with main := .moving data }
  | publish (q : Queues) (data : Byte) : q.main = .moving data →
      Proceeds txSize q { q with tx := q.tx ++ [data], main := .enabling }
  | enable (q : Queues) : q.main = .enabling →
      Proceeds txSize q { q with udrie := true, main := .idle }

theorem proceeds_of_proceed (h : q.proceed txSize = some q') : Proceeds txSize q q' := by
  rw [proceed] at h
  cases hmain : q.main with
  | polling =>
    rw [hmain] at h
    by_cases hrx : q.rx = []
    · cases (congrArg some (if_pos hrx)).symm.trans h
      exact .poll q hmain hrx
    · cases (congrArg some (if_neg hrx)).symm.trans h
      exact .test q hmain hrx
  | testing =>
    rw [hmain] at h
    by_cases hrx : q.rx = []
    · cases (if_pos hrx).symm.trans h
    · cases (if_neg hrx).symm.trans h
      exact .take q hmain hrx
  | taking =>
    rw [hmain] at h
    cases hrx : q.rx with
    | nil => simp only [hrx] at h; cases h
    | cons data rest =>
      simp only [hrx] at h
      cases h
      exact .fetch q data rest hmain hrx
  | waiting data =>
    rw [hmain] at h
    by_cases hfull : q.tx.length + 1 = txSize
    · cases (congrArg some (if_pos hfull)).symm.trans h
      exact .wait q data hmain hfull
    · cases (congrArg some (if_neg hfull)).symm.trans h
      exact .store q data hmain hfull
  | fetching data => rw [hmain] at h; cases h; exact .answer q data hmain
  | storing data => rw [hmain] at h; cases h; exact .move q data hmain
  | moving data => rw [hmain] at h; cases h; exact .publish q data hmain
  | enabling => rw [hmain] at h; cases h; exact .enable q hmain
  | idle => rw [hmain] at h; cases h
  | answering data => rw [hmain] at h; cases h

/-- What `step` does. -/
inductive Moves (rxSize txSize : Nat) : Queues → LineEvent → Queues → Prop
  | receive (q : Queues) (usr data : Byte) : q.rx.length + 1 ≠ rxSize →
      Moves rxSize txSize q (.received usr data)
        { q with rx := q.rx ++ [data], lastRxError := usr &&& Uart.errorBits }
  | overflow (q : Queues) (usr data : Byte) : q.rx.length + 1 = rxSize →
      Moves rxSize txSize q (.overflowed usr data) { q with lastRxError := Uart.bufferOverflow }
  | transmit (q : Queues) (data : Byte) (rest : List Byte) : q.udrie = true → q.tx = data :: rest →
      Moves rxSize txSize q (.transmitted data) { q with tx := rest }
  | silence (q : Queues) : q.udrie = true → q.tx = [] →
      Moves rxSize txSize q .silenced { q with udrie := false }
  | readSerial (q : Queues) : q.main = .idle →
      Moves rxSize txSize q .readSerial { q with main := .polling }
  | writeSerial (q : Queues) (c : Byte) : q.main = .idle →
      Moves rxSize txSize q (.writeSerial c) { q with main := .waiting c }
  | flush (q : Queues) : q.main = .idle → Moves rxSize txSize q .flush { q with rx := [] }
  | access (q q' : Queues) : Proceeds txSize q q' → Moves rxSize txSize q .access q'
  | give (q : Queues) (c : Byte) : q.main = .answering c →
      Moves rxSize txSize q (.returned c) { q with main := .idle }
  | noData (q : Queues) : q.main = .testing → q.rx = [] →
      Moves rxSize txSize q .noData { q with main := .idle }

theorem idle_of_call {begun : Queues} (h : q.call begun = some q') :
    q.main = .idle ∧ q' = begun := by
  rw [call] at h
  cases hmain : q.main with
  | idle => rw [hmain] at h; exact ⟨rfl, (Option.some.inj h).symm⟩
  | _ => rw [hmain] at h; cases h

theorem moves_of_step (h : q.step rxSize txSize e = some q') : Moves rxSize txSize q e q' := by
  rw [step.eq_def] at h
  cases e with
  | received usr data =>
    by_cases hfull : q.rx.length + 1 = rxSize
    · cases (if_pos hfull).symm.trans h
    · cases (if_neg hfull).symm.trans h
      exact .receive q usr data hfull
  | overflowed usr data =>
    by_cases hfull : q.rx.length + 1 = rxSize
    · cases (if_pos hfull).symm.trans h
      exact .overflow q usr data hfull
    · cases (if_neg hfull).symm.trans h
  | transmitted data =>
    by_cases hsend : q.udrie = true ∧ q.tx.head? = some data
    · cases (if_pos hsend).symm.trans h
      exact .transmit q data q.tx.tail hsend.1 (List.eq_cons_of_mem_head? hsend.2)
    · cases (if_neg hsend).symm.trans h
  | silenced =>
    by_cases hnone : q.udrie = true ∧ q.tx = []
    · cases (if_pos hnone).symm.trans h
      exact .silence q hnone.1 hnone.2
    · cases (if_neg hnone).symm.trans h
  | readSerial =>
    obtain ⟨hidle, rfl⟩ := idle_of_call h
    exact .readSerial q hidle
  | writeSerial c =>
    obtain ⟨hidle, rfl⟩ := idle_of_call h
    exact .writeSerial q c hidle
  | flush =>
    obtain ⟨hidle, rfl⟩ := idle_of_call h
    exact .flush q hidle
  | access => exact .access q q' (proceeds_of_proceed h)
  | returned c =>
    cases hmain : q.main with
    | answering data =>
      simp only [hmain] at h
      by_cases hc : c = data
      · cases (if_pos hc).symm.trans h
        exact .give q c (hc ▸ hmain)
      · cases (if_neg hc).symm.trans h
    | _ => simp only [hmain] at h; cases h
  | noData =>
    cases hmain : q.main with
    | testing =>
      simp only [hmain] at h
      by_cases hrx : q.rx = []
      · cases (if_pos hrx).symm.trans h
        exact .noData q hmain hrx
      · cases (if_neg hrx).symm.trans h
    | _ => simp only [hmain] at h; cases h

/-! ## What one event keeps -/

/-- A byte that the main program expects is there, and what is to be sent has its interrupt on, or
is about to. -/
structure Kept (q : Queues) : Prop where
  some_of_expects : q.main.expects = true → q.rx ≠ []
  on_of_tx : q.tx ≠ [] → q.udrie = true ∨ q.main = .enabling

theorem Kept.init : Kept init where
  some_of_expects h := by cases h
  on_of_tx h := absurd rfl h

theorem Kept.on (hkept : q.Kept) (hmain : q.main ≠ .enabling) (htx : q.tx ≠ []) :
    q.udrie = true :=
  (hkept.on_of_tx htx).resolve_right hmain

theorem Kept.of_main (hkept : q.Kept) (hmain : q.main ≠ .enabling) (m : Task)
    (hexpects : m.expects = true → q.rx ≠ []) : Kept { q with main := m } :=
  ⟨hexpects, fun htx => .inl (hkept.on hmain htx)⟩

theorem Proceeds.kept (hkept : q.Kept) (h : Proceeds txSize q q') : q'.Kept := by
  cases h with
  | poll hmain hrx => exact hkept
  | test hmain hrx => exact hkept.of_main (by simp [hmain]) .testing fun _ => hrx
  | take hmain hrx => exact hkept.of_main (by simp [hmain]) .taking fun _ => hrx
  | fetch data rest hmain hrx =>
    exact ⟨(fun h => by cases h), fun htx => .inl (hkept.on (by simp [hmain]) htx)⟩
  | answer data hmain => exact hkept.of_main (by simp [hmain]) (.answering data) fun h => by cases h
  | wait data hmain hfull => exact hkept
  | store data hmain hroom =>
    exact hkept.of_main (by simp [hmain]) (.storing data) fun h => by cases h
  | move data hmain => exact hkept.of_main (by simp [hmain]) (.moving data) fun h => by cases h
  | publish data hmain => exact ⟨(fun h => by cases h), fun _ => .inr rfl⟩
  | enable hmain => exact ⟨(fun h => by cases h), fun _ => .inl rfl⟩

theorem Moves.kept (hkept : q.Kept) (h : Moves rxSize txSize q e q') : q'.Kept := by
  cases h with
  | receive usr data hroom =>
    exact ⟨fun _ => List.append_ne_nil_of_right_ne_nil q.rx (List.cons_ne_nil data []),
      hkept.on_of_tx⟩
  | overflow usr data hfull => exact ⟨hkept.some_of_expects, hkept.on_of_tx⟩
  | transmit data rest hon htx => exact ⟨hkept.some_of_expects, fun _ => .inl hon⟩
  | silence hon htx => exact ⟨hkept.some_of_expects, fun h => absurd htx h⟩
  | readSerial hidle => exact hkept.of_main (by simp [hidle]) .polling fun h => by cases h
  | writeSerial c hidle => exact hkept.of_main (by simp [hidle]) (.waiting c) fun h => by cases h
  | flush hidle =>
    have hexpects : q.main.expects = false := by rw [hidle]; rfl
    exact ⟨(fun h => by cases hexpects.symm.trans h), hkept.on_of_tx⟩
  | access _ hproceeds => exact hproceeds.kept hkept
  | give c hmain => exact hkept.of_main (by simp [hmain]) .idle fun h => by cases h
  | noData hmain hrx => exact hkept.of_main (by simp [hmain]) .idle fun h => by cases h

/-- What was not read and what arrives is what is returned and what is then not read. -/
theorem Moves.unread (h : Moves rxSize txSize q e q') (hflush : e ≠ .flush) :
    q.unread ++ arrived [e] = delivered [e] ++ q'.unread := by
  cases h with
  | receive usr data hroom =>
    show (q.main.taken ++ q.rx) ++ [data] = q.main.taken ++ (q.rx ++ [data])
    exact List.append_assoc _ _ _
  | access _ hproceeds =>
    show q.unread ++ [] = q'.unread
    rw [List.append_nil]
    cases hproceeds with
    | fetch data rest hmain hrx =>
      rw [Queues.unread, Queues.unread, hmain, hrx]
      rfl
    | poll | wait => rfl
    | test hmain _ | take hmain _ | answer _ hmain | store _ hmain _ | move _ hmain
    | publish _ hmain | enable hmain =>
      rw [Queues.unread, Queues.unread, hmain]
      rfl
  | flush => exact absurd rfl hflush
  | overflow | transmit | silence => exact List.append_nil _
  | readSerial hmain | writeSerial _ hmain | give _ hmain | noData hmain _ =>
    show (q.main.taken ++ q.rx) ++ [] = _
    rw [hmain, List.append_nil]
    rfl

/-- What was not sent and is asked to be sent is what goes out and what is then not sent. -/
theorem Moves.unsent (h : Moves rxSize txSize q e q') :
    q.unsent ++ ordered [e] = departed [e] ++ q'.unsent := by
  cases h with
  | transmit data rest hon htx =>
    show (q.tx ++ q.main.toSend) ++ [] = [data] ++ (rest ++ q.main.toSend)
    rw [htx, List.append_nil]
    rfl
  | writeSerial c hidle =>
    show (q.tx ++ q.main.toSend) ++ [c] = q.tx ++ [c]
    rw [hidle]
    exact congrArg (· ++ [c]) (List.append_nil q.tx)
  | access _ hproceeds =>
    show q.unsent ++ [] = q'.unsent
    rw [List.append_nil]
    cases hproceeds with
    | publish data hmain =>
      rw [Queues.unsent, Queues.unsent, hmain]
      exact (List.append_nil _).symm
    | poll | wait => rfl
    | test hmain _ | take hmain _ | fetch _ _ hmain _ | answer _ hmain | store _ hmain _
    | move _ hmain | enable hmain =>
      rw [Queues.unsent, Queues.unsent, hmain]
      rfl
  | receive | overflow | silence | flush => exact List.append_nil _
  | readSerial hmain | give _ hmain | noData hmain _ =>
    show (q.tx ++ q.main.toSend) ++ [] = q.tx ++ []
    rw [hmain]
    exact List.append_nil _

theorem Moves.ne_noData (hkept : q.Kept) (h : Moves rxSize txSize q e q') : e ≠ .noData := by
  rintro rfl
  cases h with
  | noData hmain hrx => exact hkept.some_of_expects (by rw [hmain]; rfl) hrx

theorem Moves.unread_flush (h : Moves rxSize txSize q .flush q') : q'.unread = [] := by
  cases h with
  | flush hidle =>
    show q.main.taken ++ [] = []
    rw [hidle]
    rfl

/-! ## What a run keeps -/

variable {es : List LineEvent}

theorem Kept.run (hkept : q.Kept) (h : Transition.run (step rxSize txSize) q es = some q') :
    q'.Kept := by
  induction es generalizing q with
  | nil => cases h; exact hkept
  | cons e es ih =>
    obtain ⟨q₁, hstep, hrest⟩ := Transition.run_cons h
    exact ih ((moves_of_step hstep).kept hkept) hrest

theorem noData_notMem (hkept : q.Kept) (h : Transition.run (step rxSize txSize) q es = some q') :
    .noData ∉ es := by
  induction es generalizing q with
  | nil => exact List.not_mem_nil
  | cons e es ih =>
    obtain ⟨q₁, hstep, hrest⟩ := Transition.run_cons h
    have hmoves := moves_of_step hstep
    rw [List.mem_cons, not_or]
    exact ⟨(hmoves.ne_noData hkept).symm, ih (hmoves.kept hkept) hrest⟩

/-- What waits and what arrives is returned, or waits in the end. -/
theorem unread_run (h : Transition.run (step rxSize txSize) q es = some q') (hflush : .flush ∉ es) :
    q.unread ++ arrived es = delivered es ++ q'.unread := by
  induction es generalizing q with
  | nil => cases h; exact List.append_nil _
  | cons e es ih =>
    obtain ⟨q₁, hstep, hrest⟩ := Transition.run_cons h
    rw [List.mem_cons, not_or] at hflush
    have hone : q.unread ++ arrived [e] = delivered [e] ++ q₁.unread :=
      (moves_of_step hstep).unread (Ne.symm hflush.1)
    rw [arrived_cons, delivered_cons, ← List.append_assoc, hone, List.append_assoc,
      ih hrest hflush.2, List.append_assoc]

/-- Flushes or not, what is returned has waited or arrived, in that order and once. -/
theorem delivered_sublist (h : Transition.run (step rxSize txSize) q es = some q') :
    (delivered es).Sublist (q.unread ++ arrived es) := by
  induction es generalizing q with
  | nil => exact List.nil_sublist _
  | cons e es ih =>
    obtain ⟨q₁, hstep, hrest⟩ := Transition.run_cons h
    have hmoves := moves_of_step hstep
    rw [delivered_cons, arrived_cons]
    by_cases hflush : e = .flush
    · subst hflush
      have hlater := ih hrest
      rw [hmoves.unread_flush] at hlater
      exact hlater.trans (List.sublist_append_right _ _)
    · rw [← List.append_assoc, hmoves.unread hflush, List.append_assoc]
      exact (ih hrest).append_left _

theorem unsent_run (h : Transition.run (step rxSize txSize) q es = some q') :
    q.unsent ++ ordered es = departed es ++ q'.unsent := by
  induction es generalizing q with
  | nil => cases h; exact List.append_nil _
  | cons e es ih =>
    obtain ⟨q₁, hstep, hrest⟩ := Transition.run_cons h
    have hone : q.unsent ++ ordered [e] = departed [e] ++ q₁.unsent := (moves_of_step hstep).unsent
    rw [ordered_cons, departed_cons, ← List.append_assoc, hone, List.append_assoc, ih hrest,
      List.append_assoc]

/-! ## Getting done -/

/-- What the main program and the transmit interrupt reach by themselves. -/
abbrev Reaches (rxSize txSize : Nat) : Queues → Queues → Prop :=
  Transition.Reach (step rxSize txSize) fun _ e => e.isOwn = true

theorem Reaches.access (h : q.proceed txSize = some q') : Reaches rxSize txSize q q' :=
  Transition.Reach.refl.step (a := .access) rfl h

theorem Reaches.drained (hon : q.udrie = true) : Reaches rxSize txSize q { q with tx := [] } := by
  obtain ⟨rx, lastRxError, tx, udrie, main⟩ := q
  induction tx with
  | nil => exact .refl
  | cons data rest ih =>
    refine Transition.Reach.trans (.step (a := .transmitted data) .refl rfl ?_) (ih hon)
    exact if_pos ⟨hon, rfl⟩

theorem Kept.reaches_drained (hkept : q.Kept) (hmain : q.main ≠ .enabling) :
    Reaches rxSize txSize q { q with tx := [] } := by
  by_cases htx : q.tx = []
  · rw [← htx]
    exact .refl
  · exact .drained (hkept.on hmain htx)

/-- The last access of `uart0_putc` switches the interrupt on, and the interrupt does the rest. -/
theorem done_of_enabling (rxSize txSize : Nat) (q : Queues) (hmain : q.main = .enabling) :
    ∃ q', Reaches rxSize txSize q q' ∧ q'.main = .idle ∧ q'.tx = [] := by
  have hidle : q.proceed txSize = some { q with udrie := true, main := .idle } := by
    rw [proceed, hmain]
  let q₁ : Queues := { q with udrie := true, main := .idle }
  exact ⟨{ q₁ with tx := [] }, (Reaches.access hidle).trans (Reaches.drained rfl), rfl, rfl⟩

theorem done_of_moving (rxSize txSize : Nat) (q : Queues) {data : Byte}
    (hmain : q.main = .moving data) :
    ∃ q', Reaches rxSize txSize q q' ∧ q'.main = .idle ∧ q'.tx = [] := by
  have hmoved : q.proceed txSize = some { q with tx := q.tx ++ [data], main := .enabling } := by
    rw [proceed, hmain]
  obtain ⟨q', hreach, hdone⟩ := done_of_enabling rxSize txSize
    { q with tx := q.tx ++ [data], main := .enabling } rfl
  exact ⟨q', (Reaches.access hmoved).trans hreach, hdone⟩

theorem done_of_storing (rxSize txSize : Nat) (q : Queues) {data : Byte}
    (hmain : q.main = .storing data) :
    ∃ q', Reaches rxSize txSize q q' ∧ q'.main = .idle ∧ q'.tx = [] := by
  have hstored : q.proceed txSize = some { q with main := .moving data } := by
    rw [proceed, hmain]
  obtain ⟨q', hreach, hdone⟩ := done_of_moving rxSize txSize
    { q with main := .moving data } rfl
  exact ⟨q', (Reaches.access hstored).trans hreach, hdone⟩

/-- A `uart0_putc` that finds the buffer full has its interrupt on. -/
theorem Kept.done_of_waiting (hkept : q.Kept) (hsize : 1 < txSize) {data : Byte}
    (hmain : q.main = .waiting data) :
    ∃ q', Reaches rxSize txSize q q' ∧ q'.main = .idle ∧ q'.tx = [] := by
  have hdrained : Reaches rxSize txSize q { q with tx := [] } :=
    hkept.reaches_drained (by simp [hmain])
  have hroom : ¬([] : List Byte).length + 1 = txSize := Nat.ne_of_lt hsize
  have hstep : proceed txSize { q with tx := [] } =
      some { q with tx := [], main := .storing data } := by
    rw [proceed, hmain]
    exact congrArg some (if_neg hroom)
  obtain ⟨q', hreach, hdone⟩ := done_of_storing rxSize txSize
    { q with tx := [], main := .storing data } rfl
  exact ⟨q', (hdrained.trans (Reaches.access hstep)).trans hreach, hdone⟩

theorem Kept.done (hkept : q.Kept) (rxSize : Nat) (hsize : 1 < txSize)
    (hmain : q.main = .idle ∨ q.main.Writing) :
    ∃ q', Reaches rxSize txSize q q' ∧ q'.main = .idle ∧ q'.tx = [] := by
  rcases hmain with hidle | hwriting
  · exact ⟨_, hkept.reaches_drained (by simp [hidle]), hidle, rfl⟩
  · cases hmain : q.main with
    | waiting data => exact hkept.done_of_waiting hsize hmain
    | storing data => exact done_of_storing rxSize txSize q hmain
    | moving data => exact done_of_moving rxSize txSize q hmain
    | enabling => exact done_of_enabling rxSize txSize q hmain
    | idle | polling | testing | taking | fetching | answering =>
      rw [hmain] at hwriting
      exact hwriting.elim

end Queues

/-! ## The UART -/

namespace Uart

variable {r t : Nat} {u v : Uart r t} {es : List LineEvent} {small : r ≤ 8 ∧ t ≤ 8}
  {cells : Fin (2 ^ r) → Byte} {cells' : Fin (2 ^ t) → Byte}

/-- What a run of the UART is for its queues. -/
theorem queues_run (h : Transition.run step (init small cells cells') es = some u) :
    Transition.run (Queues.step (2 ^ r) (2 ^ t)) Queues.init es = some u.view ∧ u.Held := by
  obtain ⟨hview, hheld⟩ := run_view (held_init small cells cells') es
  rw [h, view_init] at hview
  exact ⟨hview.symm, hheld u h⟩

/-- The bytes `ReadSerial` has fetched, and those that wait in the ring. -/
def unread (u : Uart r t) : List Byte := u.view.unread

/-- The bytes that wait in the ring, and the one that `uart0_putc` is about to put there. -/
def unsent (u : Uart r t) : List Byte := u.view.unsent

/-- `ReadSerial` returns the bytes that the receive interrupt has stored, each once and in their
order, and it never returns without one. From one flush to the next nothing gets lost: what waits
and what arrives is returned, or still waits. -/
theorem reads_in_order (h : Transition.run step (init small cells cells') es = some u) :
    (delivered es).Sublist (arrived es) ∧ .noData ∉ es ∧
      ∀ es' v, Transition.run step u es' = some v → .flush ∉ es' →
        u.unread ++ arrived es' = delivered es' ++ v.unread := by
  obtain ⟨hqueues, hheld⟩ := queues_run h
  refine ⟨Queues.delivered_sublist hqueues, Queues.noData_notMem .init hqueues, ?_⟩
  intro es' v hmore hflush
  have hlater := (run_view hheld es').1
  rw [hmore] at hlater
  exact Queues.unread_run hlater.symm hflush

/-- A byte arrives and is read, in a buffer of two, and another one arrives. -/
theorem reads_in_order_two :
    let start : Uart 1 1 := init (by decide) (fun _ => 0#8) fun _ => 0#8
    let es : List LineEvent :=
      [.received 0x00#8 0x41#8, .readSerial, .access, .access, .access, .access,
        .returned 0x41#8, .received 0x00#8 0x42#8]
    ∃ u : Uart 1 1, Transition.run step start es = some u ∧
      (delivered es).Sublist (arrived es) ∧ .noData ∉ es ∧
        ∀ es' v, Transition.run step u es' = some v → .flush ∉ es' →
          u.unread ++ arrived es' = delivered es' ++ v.unread := by
  intro start es
  have hsome : (Transition.run step start es).isSome = true := by decide
  obtain ⟨u, hu⟩ := Option.isSome_iff_exists.1 hsome
  exact ⟨u, hu, reads_in_order hu⟩

/-- What `WriteSerial` is given goes out on the line, each byte once and in order. A call that has
begun gets done, and what waits gets sent, by the accesses of the main program and the transmit
interrupt alone. -/
theorem writes_get_done (ht : 1 ≤ t) (h : Transition.run step (init small cells cells') es = some u)
    (hmain : u.task = .idle ∨ u.task.Writing) :
    ordered es = departed es ++ u.unsent ∧
      ∃ es' v, (∀ e ∈ es', e.isOwn = true) ∧ Transition.run step u es' = some v ∧
        v.task = .idle ∧ departed (es ++ es') = ordered (es ++ es') := by
  obtain ⟨hqueues, hheld⟩ := queues_run h
  have hkept : u.view.Kept := Queues.Kept.init.run hqueues
  have hsize : 1 < 2 ^ t := Nat.one_lt_two_pow (Nat.one_le_iff_ne_zero.1 ht)
  obtain ⟨q', hreach, hidle, hempty⟩ := hkept.done (2 ^ r) hsize hmain
  obtain ⟨es', hown, hrun⟩ := hreach.exists_run
  have hmore := (run_view hheld es').1
  rw [hrun] at hmore
  cases hv : Transition.run step u es' with
  | none => rw [hv] at hmore; cases hmore
  | some v =>
    rw [hv] at hmore
    have hview : v.view = q' := Option.some.inj hmore
    have hbefore : ordered es = departed es ++ u.unsent := Queues.unsent_run hqueues
    have hboth :
        Transition.run (Queues.step (2 ^ r) (2 ^ t)) Queues.init (es ++ es') = some q' := by
      rw [Transition.run_append, hqueues]
      exact hrun
    have hnone : q'.unsent = [] := by rw [Queues.unsent, hempty, hidle]; rfl
    refine ⟨hbefore, es', v, hown, hv, ?_, ?_⟩
    · show v.view.main = .idle
      rw [hview, hidle]
    · have hall := Queues.unsent_run hboth
      rw [hnone, List.append_nil] at hall
      exact hall.symm

/-- A second byte waits for a place in a buffer of two. -/
theorem writes_get_done_two :
    let start : Uart 1 1 := init (by decide) (fun _ => 0#8) fun _ => 0#8
    let es : List LineEvent :=
      [.writeSerial 0x41#8, .access, .access, .access, .access, .writeSerial 0x42#8, .access]
    ∃ u : Uart 1 1, Transition.run step start es = some u ∧
      ordered es = departed es ++ u.unsent ∧
        ∃ es' v, (∀ e ∈ es', e.isOwn = true) ∧ Transition.run step u es' = some v ∧
          v.task = .idle ∧ departed (es ++ es') = ordered (es ++ es') := by
  intro start es
  have hsome : (Transition.run step start es).isSome = true := by decide
  obtain ⟨u, hu⟩ := Option.isSome_iff_exists.1 hsome
  have htask : (Transition.run step start es).map task = some (.waiting 0x42#8) := by decide
  rw [hu] at htask
  have hwriting : u.task.Writing := by
    rw [Option.some.inj htask]
    trivial
  exact ⟨u, hu, writes_get_done (by decide) hu (.inr hwriting)⟩

/-- A byte that arrives does to the ring what `Link` says of it. -/
theorem ring_arrive {s : State} {data : Byte} {wire : List Byte} (hwire : s.wire = data :: wire)
    (hring : s.ring = u.rx.contents) (usr : Byte) :
    (s.arrive (2 ^ r - 1)).map State.ring =
      some (u.receiveInterrupt usr data).rx.contents := by
  have hiff := u.rx.next_head_eq_tail_iff
  have hcount : u.rx.contents.length < 2 ^ r := by
    rw [u.rx.length_contents]
    exact u.rx.count_lt
  rw [State.arrive, hwire, hring]
  show some (if u.rx.contents.length < 2 ^ r - 1 then _ else _) = _
  by_cases hfull : Ring.next u.rx.head = u.rx.tail
  · have hlength := hiff.1 hfull
    rw [receiveInterrupt_full usr data hfull, if_neg (by omega)]
  · have hlength := mt hiff.2 hfull
    rw [receiveInterrupt_room usr data hfull, if_pos (by omega)]
    exact congrArg some (u.rx.contents_push data hfull).symm

end Uart

end Xlink.Serial

import Xlink.Serial.Uart

/-!
# What the UART's buffers are for

Two bounded queues of bytes between the main program and the line. The ring buffers of `Uart`
behave as these queues, event by event and for every order of the interrupts: what an event may do
and what it shows is the same (`step_view`).

`rings_are_queues` is stated for the sizes that 8-bit positions have, 256 bytes at most; see `Uart`
for what that leaves out.
-/

namespace Xlink.Serial

open Word (Byte)

/-- Where the main program is; it holds bytes, not places. -/
inductive Task where
  | idle
  | polling
  | testing
  | taking
  | fetching (data : Byte)
  | answering (data : Byte)
  | waiting (data : Byte)
  | storing (data : Byte)
  | moving (data : Byte)
  | enabling
  deriving DecidableEq

structure Queues where
  rx : List Byte
  lastRxError : Byte
  tx : List Byte
  udrie : Bool
  main : Task

namespace Queues

/-- Nothing has arrived and nothing is to be sent. -/
def init : Queues := ⟨[], 0#8, [], false, .idle⟩

/-- The queues hold fewer bytes than `rxSize` and `txSize`. -/
def proceed (txSize : Nat) (q : Queues) : Option Queues :=
  match q.main with
  | .polling => some (if q.rx = [] then q else { q with main := .testing })
  | .testing => if q.rx = [] then none else some { q with main := .taking }
  | .taking =>
    match q.rx with
    | [] => none
    | data :: rx => some { q with rx := rx, main := .fetching data }
  | .fetching data => some { q with main := .answering data }
  | .waiting data => some (if q.tx.length + 1 = txSize then q else { q with main := .storing data })
  | .storing data => some { q with main := .moving data }
  | .moving data => some { q with tx := q.tx ++ [data], main := .enabling }
  | .enabling => some { q with udrie := true, main := .idle }
  | .idle | .answering _ => none

def call (q : Queues) (begun : Queues) : Option Queues :=
  match q.main with
  | .idle => some begun
  | _ => none

def step (rxSize txSize : Nat) (q : Queues) : LineEvent → Option Queues
  | .received usr data =>
    if q.rx.length + 1 = rxSize then none
    else some { q with rx := q.rx ++ [data], lastRxError := usr &&& Uart.errorBits }
  | .overflowed _ _ =>
    if q.rx.length + 1 = rxSize then some { q with lastRxError := Uart.bufferOverflow } else none
  | .transmitted data =>
    if q.udrie = true ∧ q.tx.head? = some data then some { q with tx := q.tx.tail } else none
  | .silenced => if q.udrie = true ∧ q.tx = [] then some { q with udrie := false } else none
  | .readSerial => q.call { q with main := .polling }
  | .writeSerial c => q.call { q with main := .waiting c }
  | .flush => q.call { q with rx := [] }
  | .access => q.proceed txSize
  | .returned c =>
    match q.main with
    | .answering data => if c = data then some { q with main := .idle } else none
    | _ => none
  | .noData =>
    match q.main with
    | .testing => if q.rx = [] then some { q with main := .idle } else none
    | _ => none

theorem proceed_taking (txSize : Nat) (q : Queues) {data : Byte} {rest : List Byte}
    (hmain : q.main = .taking) (hrx : q.rx = data :: rest) :
    q.proceed txSize = some { q with rx := rest, main := .fetching data } := by
  rw [proceed, hmain]
  simp only [hrx]

end Queues

namespace Uart

variable {r t : Nat}

/-! ## The queues of a UART -/

/-- What the main program holds, places read. -/
def task (u : Uart r t) : Task :=
  match u.main with
  | .idle => .idle
  | .polling => .polling
  | .testing => .testing
  | .taking _ => .taking
  | .fetching tmptail => .fetching (u.rx.cells tmptail)
  | .answering data => .answering data
  | .waiting data _ => .waiting data
  | .storing data _ => .storing data
  | .moving tmphead => .moving (u.tx.cells tmphead)
  | .enabling => .enabling

def view (u : Uart r t) : Queues := ⟨u.rx.contents, u.lastRxError, u.tx.contents, u.udrie, u.task⟩

/-- The places the main program holds are the ones it has read them for. A place that is still to
be read or filled is not touched by an interrupt meanwhile. -/
def Held (u : Uart r t) : Prop :=
  match u.main with
  | .taking tmptail => tmptail = Ring.next u.rx.tail ∧ u.rx.head ≠ u.rx.tail
  | .fetching tmptail => tmptail = u.rx.tail
  | .waiting _ tmphead => tmphead = Ring.next u.tx.head
  | .storing _ tmphead | .moving tmphead =>
    tmphead = Ring.next u.tx.head ∧ Ring.next u.tx.head ≠ u.tx.tail
  | .idle | .polling | .testing | .answering _ | .enabling => True

variable (small : r ≤ 8 ∧ t ≤ 8) (cells : Fin (2 ^ r) → Byte) (cells' : Fin (2 ^ t) → Byte)

theorem view_init : view (init small cells cells') = Queues.init := by
  have hrx := (init small cells cells').rx.head_eq_tail_iff.1 rfl
  have htx := (init small cells cells').tx.head_eq_tail_iff.1 rfl
  show Queues.mk _ _ _ _ _ = _
  rw [hrx, htx]
  rfl

theorem available_eq_zero (u : Uart r t) : u.available = 0 ↔ u.rx.contents = [] := by
  have hcount : u.available = u.rx.count := Nat.and_two_pow_sub_one_eq_mod _ r
  rw [hcount, ← u.rx.length_contents, List.length_eq_zero_iff]

/-- `& 0xff` takes the error off the byte again. -/
theorem low_eq (lastRxError data : Byte) : low lastRxError data = data := by
  have hmask (w : BitVec 16) : (w &&& 0xff#16).setWidth 8 = w.setWidth 8 := by
    rw [BitVec.setWidth_and]
    exact BitVec.and_allOnes
  have hhigh : (lastRxError.setWidth 16 <<< 8).setWidth 8 = 0#8 := by
    ext i hi
    simp
  rw [low, hmask, BitVec.setWidth_add _ _ (by omega), hhigh, BitVec.zero_add]
  simp

/-! ## The interrupts -/

variable {u v : Uart r t}

theorem receiveInterrupt_full (usr data : Byte) (hfull : Ring.next u.rx.head = u.rx.tail) :
    u.receiveInterrupt usr data = { u with lastRxError := bufferOverflow } := by
  rw [receiveInterrupt, after_eq, if_pos hfull]

theorem receiveInterrupt_room (usr data : Byte) (hroom : Ring.next u.rx.head ≠ u.rx.tail) :
    u.receiveInterrupt usr data =
      { u with rx := u.rx.push data, lastRxError := usr &&& errorBits } := by
  rw [receiveInterrupt, after_eq, if_neg hroom]
  rfl

theorem transmitInterrupt_some (hsome : u.tx.head ≠ u.tx.tail) :
    u.transmitInterrupt =
      ({ u with tx := u.tx.drop }, some (u.tx.cells (Ring.next u.tx.tail))) := by
  rw [transmitInterrupt, if_pos hsome, after_eq]
  rfl

theorem transmitInterrupt_none (hnone : u.tx.head = u.tx.tail) :
    u.transmitInterrupt = ({ u with udrie := false }, none) := by
  rw [transmitInterrupt, if_neg (not_not.2 hnone)]

/-- What arrives is stored in a place that the main program is not about to read. -/
theorem task_push (hheld : u.Held) (data error : Byte) (hroom : Ring.next u.rx.head ≠ u.rx.tail) :
    task { u with rx := u.rx.push data, lastRxError := error } = u.task := by
  obtain ⟨rx, lastRxError, tx, udrie, main, small⟩ := u
  cases main with
  | fetching tmptail =>
    have htail : tmptail = rx.tail := hheld
    show Task.fetching ((rx.push data).cells tmptail) = Task.fetching (rx.cells tmptail)
    rw [htail, rx.cells_push data hroom]
  | _ => rfl

theorem Held.push (hheld : u.Held) (data error : Byte) (hroom : Ring.next u.rx.head ≠ u.rx.tail) :
    Held { u with rx := u.rx.push data, lastRxError := error } := by
  obtain ⟨rx, lastRxError, tx, udrie, main, small⟩ := u
  cases main with
  | taking tmptail => exact ⟨hheld.1, hroom⟩
  | _ => exact hheld

theorem Held.drop (hheld : u.Held) (hsome : u.tx.head ≠ u.tx.tail) :
    Held { u with tx := u.tx.drop } := by
  obtain ⟨rx, lastRxError, tx, udrie, main, small⟩ := u
  cases main with
  | storing data tmphead => exact ⟨hheld.1, fun h => hsome (Ring.next_inj h)⟩
  | moving tmphead => exact ⟨hheld.1, fun h => hsome (Ring.next_inj h)⟩
  | _ => exact hheld

/-! ## LineEvent by event -/

/-- The event does to the ring buffers what it does to the queues. -/
def Refines (u : Uart r t) (e : LineEvent) : Prop :=
  (u.step e).map view = u.view.step (2 ^ r) (2 ^ t) e ∧ ∀ v, u.step e = some v → v.Held

theorem refines_received (hheld : u.Held) (usr data : Byte) : u.Refines (.received usr data) := by
  have hiff := u.rx.next_head_eq_tail_iff
  rw [Refines, step, Queues.step, after_eq]
  by_cases hfull : Ring.next u.rx.head = u.rx.tail
  · rw [if_pos hfull]
    refine ⟨(if_pos (hiff.1 hfull)).symm, fun v hv => ?_⟩
    cases hv
  · rw [if_neg hfull, receiveInterrupt_room usr data hfull]
    refine ⟨?_, fun v hv => ?_⟩
    · refine Eq.trans ?_ (if_neg (mt hiff.2 hfull)).symm
      show some (Queues.mk _ _ _ _ _) = _
      rw [u.rx.contents_push data hfull, task_push hheld data _ hfull]
      rfl
    · cases hv
      exact hheld.push data _ hfull

theorem refines_overflowed (hheld : u.Held) (usr data : Byte) :
    u.Refines (.overflowed usr data) := by
  have hiff := u.rx.next_head_eq_tail_iff
  rw [Refines, step, Queues.step, after_eq]
  by_cases hfull : Ring.next u.rx.head = u.rx.tail
  · rw [if_pos hfull, receiveInterrupt_full usr data hfull]
    refine ⟨(if_pos (hiff.1 hfull)).symm, fun v hv => ?_⟩
    cases hv
    exact hheld
  · rw [if_neg hfull]
    refine ⟨(if_neg (mt hiff.2 hfull)).symm, fun v hv => ?_⟩
    cases hv

theorem refines_transmitted (hheld : u.Held) (data : Byte) : u.Refines (.transmitted data) := by
  rw [Refines, step, Queues.step]
  by_cases hnone : u.tx.head = u.tx.tail
  · have hempty : u.view.tx = [] := u.tx.head_eq_tail_iff.1 hnone
    rw [transmitInterrupt_none hnone, hempty, if_neg (by simp), if_neg (by simp)]
    exact ⟨rfl, fun v hv => by cases hv⟩
  · have hdrop : u.view.tx = u.tx.cells (Ring.next u.tx.tail) :: u.tx.drop.contents :=
      u.tx.contents_drop hnone
    rw [transmitInterrupt_some hnone, hdrop]
    by_cases hsend : u.udrie = true ∧ some (u.tx.cells (Ring.next u.tx.tail)) = some data
    · rw [if_pos hsend]
      refine ⟨(if_pos hsend).symm, fun v hv => ?_⟩
      cases hv
      exact hheld.drop hnone
    · rw [if_neg hsend]
      exact ⟨(if_neg hsend).symm, fun v hv => by cases hv⟩

theorem refines_silenced (hheld : u.Held) : u.Refines .silenced := by
  rw [Refines, step, Queues.step]
  by_cases hnone : u.tx.head = u.tx.tail
  · have hempty : u.view.tx = [] := u.tx.head_eq_tail_iff.1 hnone
    rw [transmitInterrupt_none hnone]
    by_cases hon : u.udrie = true
    · have hboth : u.view.udrie = true ∧ u.view.tx = [] := ⟨hon, hempty⟩
      rw [if_pos ⟨hon, rfl⟩]
      refine ⟨(if_pos hboth).symm, fun v hv => ?_⟩
      cases hv
      exact hheld
    · rw [if_neg fun h => hon h.1]
      have hoff : ¬(u.view.udrie = true ∧ u.view.tx = []) := fun h => hon h.1
      exact ⟨(if_neg hoff).symm, fun v hv => by cases hv⟩
  · have hsome : u.view.tx ≠ [] := mt u.tx.head_eq_tail_iff.2 hnone
    rw [transmitInterrupt_some hnone, if_neg (by simp), if_neg fun h => hsome h.2]
    exact ⟨rfl, fun v hv => by cases hv⟩

theorem refines_access (hheld : u.Held) : u.Refines .access := by
  obtain ⟨rx, lastRxError, tx, udrie, main, small⟩ := u
  cases main with
  | idle => exact ⟨rfl, fun v hv => by cases hv⟩
  | answering data => exact ⟨rfl, fun v hv => by cases hv⟩
  | polling =>
    have havailable := available_eq_zero (Uart.mk rx lastRxError tx udrie .polling small)
    by_cases hnone : rx.contents = []
    · have hstep : proceed (Uart.mk rx lastRxError tx udrie .polling small) =
          some (Uart.mk rx lastRxError tx udrie .polling small) := by
        rw [proceed, if_pos (havailable.2 hnone)]
      refine ⟨?_, fun v hv => ?_⟩
      · rw [step, hstep]
        exact congrArg some (if_pos hnone).symm
      · cases hstep.symm.trans hv
        trivial
    · have hstep : proceed (Uart.mk rx lastRxError tx udrie .polling small) =
          some (Uart.mk rx lastRxError tx udrie .testing small) := by
        rw [proceed, if_neg (mt havailable.1 hnone)]
      refine ⟨?_, fun v hv => ?_⟩
      · rw [step, hstep]
        exact congrArg some (if_neg hnone).symm
      · cases hstep.symm.trans hv
        trivial
  | testing =>
    have hempty := rx.head_eq_tail_iff
    by_cases hnone : rx.head = rx.tail
    · refine ⟨(congrArg _ (if_pos hnone)).trans (if_pos (hempty.1 hnone)).symm, fun v hv => ?_⟩
      cases (if_pos hnone).symm.trans hv
    · refine ⟨(congrArg _ (if_neg hnone)).trans (if_neg (mt hempty.2 hnone)).symm, fun v hv => ?_⟩
      cases (if_neg hnone).symm.trans hv
      exact ⟨after_eq rx.tail, hnone⟩
  | taking tmptail =>
    have htail : tmptail = Ring.next rx.tail := hheld.1
    subst htail
    refine ⟨?_, fun v hv => by cases hv; rfl⟩
    have hdrop : rx.contents = rx.cells (Ring.next rx.tail) :: rx.drop.contents :=
      rx.contents_drop hheld.2
    let q := view (Uart.mk rx lastRxError tx udrie (.taking (Ring.next rx.tail)) small)
    exact (Queues.proceed_taking (2 ^ t) q rfl hdrop).symm
  | fetching tmptail => exact ⟨rfl, fun v hv => by cases hv; trivial⟩
  | waiting data tmphead =>
    have hhead : tmphead = Ring.next tx.head := hheld
    have hiff := tx.next_head_eq_tail_iff
    by_cases hfull : tmphead = tx.tail
    · refine ⟨(congrArg (fun w => (some w).map view) (if_pos hfull)).trans ?_, fun v hv => ?_⟩
      · exact congrArg some (if_pos (hiff.1 (hhead.symm.trans hfull))).symm
      · cases (congrArg some (if_pos hfull)).symm.trans hv
        exact hheld
    · have hroom : Ring.next tx.head ≠ tx.tail := hhead ▸ hfull
      refine ⟨(congrArg (fun w => (some w).map view) (if_neg hfull)).trans ?_, fun v hv => ?_⟩
      · exact congrArg some (if_neg (mt hiff.2 hroom)).symm
      · cases (congrArg some (if_neg hfull)).symm.trans hv
        exact ⟨hhead, hroom⟩
  | storing data tmphead =>
    obtain ⟨hhead, hroom⟩ := hheld
    refine ⟨?_, fun v hv => by cases hv; exact ⟨hhead, hroom⟩⟩
    have hstored : (tx.store data).contents = tx.contents := tx.contents_store data
    have hcell : Function.update tx.cells tmphead data tmphead = data := Function.update_self ..
    show some (Queues.mk _ _ (Ring.Buffer.mk (Function.update tx.cells tmphead data)
      tx.head tx.tail).contents _ (.moving (Function.update tx.cells tmphead data tmphead))) = _
    rw [hcell, hhead]
    show some (Queues.mk _ _ (tx.store data).contents _ _) = _
    rw [hstored]
    rfl
  | moving tmphead =>
    have hhead : tmphead = Ring.next tx.head := hheld.1
    subst hhead
    refine ⟨?_, fun v hv => by cases hv; trivial⟩
    have hpublished : tx.publish.contents = tx.contents ++ [tx.cells (Ring.next tx.head)] :=
      tx.contents_publish hheld.2
    show some (Queues.mk _ _ tx.publish.contents _ _) = _
    rw [hpublished]
    rfl
  | enabling => exact ⟨rfl, fun v hv => by cases hv; trivial⟩

theorem refines_call (u begun : Uart r t) (begun' : Queues) (hview : begun.view = begun')
    (hheld : u.main = .idle → begun.Held) :
    (u.call begun).map view = u.view.call begun' ∧ ∀ v, u.call begun = some v → v.Held := by
  obtain ⟨rx, lastRxError, tx, udrie, main, small⟩ := u
  cases main with
  | idle => exact ⟨congrArg some hview, fun v hv => by cases hv; exact hheld rfl⟩
  | _ => exact ⟨rfl, fun v hv => by cases hv⟩

theorem refines_returned (c : Byte) : u.Refines (.returned c) := by
  obtain ⟨rx, lastRxError, tx, udrie, main, small⟩ := u
  cases main with
  | answering data =>
    have hlow : low lastRxError data = data := low_eq lastRxError data
    by_cases hc : c = data
    · have hc' : c = low lastRxError data := hc.trans hlow.symm
      refine ⟨(congrArg _ (if_pos hc')).trans (if_pos hc).symm, fun v hv => ?_⟩
      cases (if_pos hc').symm.trans hv
      trivial
    · have hc' : ¬c = low lastRxError data := fun h => hc (h.trans hlow)
      refine ⟨(congrArg _ (if_neg hc')).trans (if_neg hc).symm, fun v hv => ?_⟩
      cases (if_neg hc').symm.trans hv
  | _ => exact ⟨rfl, fun v hv => by cases hv⟩

theorem refines_noData : u.Refines .noData := by
  obtain ⟨rx, lastRxError, tx, udrie, main, small⟩ := u
  cases main with
  | testing =>
    have hempty := rx.head_eq_tail_iff
    by_cases hnone : rx.head = rx.tail
    · refine ⟨(congrArg _ (if_pos hnone)).trans (if_pos (hempty.1 hnone)).symm, fun v hv => ?_⟩
      cases (if_pos hnone).symm.trans hv
      trivial
    · refine ⟨(congrArg _ (if_neg hnone)).trans (if_neg (mt hempty.2 hnone)).symm, fun v hv => ?_⟩
      cases (if_neg hnone).symm.trans hv
  | _ => exact ⟨rfl, fun v hv => by cases hv⟩

/-- One event, whichever it is. -/
theorem step_view (hheld : u.Held) (e : LineEvent) : u.Refines e := by
  cases e with
  | received usr data => exact refines_received hheld usr data
  | overflowed usr data => exact refines_overflowed hheld usr data
  | transmitted data => exact refines_transmitted hheld data
  | silenced => exact refines_silenced hheld
  | readSerial => exact refines_call u { u with main := .polling } _ rfl fun _ => trivial
  | writeSerial c =>
    exact refines_call u { u with main := .waiting c (after u.tx.head) } _ rfl fun _ => after_eq _
  | flush =>
    have hclear : u.flush.view = { u.view with rx := [] } := by
      show Queues.mk u.rx.clear.contents _ _ _ _ = _
      rw [u.rx.contents_clear]
      rfl
    refine refines_call u u.flush _ hclear fun hidle => ?_
    obtain ⟨rx, lastRxError, tx, udrie, main, small⟩ := u
    cases hidle
    trivial
  | access => exact refines_access hheld
  | returned c => exact refines_returned c
  | noData => exact refines_noData

theorem held_init : (init small cells cells').Held := trivial

/-- A run of the ring buffers is the run of the queues. -/
theorem run_view (hheld : u.Held) (es : List LineEvent) :
    (Transition.run step u es).map view =
        Transition.run (Queues.step (2 ^ r) (2 ^ t)) u.view es ∧
      ∀ v, Transition.run step u es = some v → v.Held :=
  Transition.run_simulates (fun _ e hu => step_view hu e) hheld es

/-- The ring buffers of the UART are queues: whatever the interrupts do and whenever they come, the
same events may happen and show the same bytes, and what waits in the rings is what waits in the
queues. -/
theorem rings_are_queues (es : List LineEvent) :
    (Transition.run step (init small cells cells') es).map view =
      Transition.run (Queues.step (2 ^ r) (2 ^ t)) Queues.init es := by
  rw [← view_init small cells cells']
  exact (run_view (held_init small cells cells') es).1

/-- A byte arrives in a buffer of 128, and is about to be read. -/
theorem rings_are_queues_byte :
    (Transition.run step (init (r := 7) (t := 7) (by decide) (fun _ => 0#8) fun _ => 0#8)
        [.received 0x00#8 0x41#8, .readSerial, .access]).map view =
      Transition.run (Queues.step (2 ^ 7) (2 ^ 7)) Queues.init
        [.received 0x00#8 0x41#8, .readSerial, .access] :=
  rings_are_queues (by decide) (fun _ => 0#8) (fun _ => 0#8) _

end Uart

end Xlink.Serial

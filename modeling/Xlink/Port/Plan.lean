import Xlink.Port.System

/-!
# What a call still does, seen from the server

`Plan got driving ops` says that a client with the steps `ops` left and a server that has read `got`
agree on what comes next: every byte the client will send is one the server will read, and where
the server turns the port around the client does too. It is a property of the two programs alone;
`Call.plan` shows that every call has it, whatever bytes it sends.
-/

namespace Xlink.Port

open Word

/-! ## The shapes -/

/-- A strobe and the wait for its acknowledgement. -/
def Shake : Op → Op → Prop
  | .strobe, .wait _ => True
  | .ping, .pong => True
  | _, _ => False

/-- A step that waits for PA2 to change. -/
def Op.Awaits : Op → Prop
  | .wait _ => True
  | .pong => True
  | _ => False

/-- Nothing is left but to close the device. -/
def Quiet (ops : List Op) : Prop := ops = [] ∨ ops = [.close]

/-- Only bytes to receive are left, then the device is closed. -/
def Receiving : List Op → Prop
  | [] => True
  | .close :: ops => ops = []
  | .wait _ :: .read :: .strobe :: ops => Receiving ops
  | .wait _ :: .size :: ops => ops = [.close]
  | _ => False

/-- The port is turned around, then bytes are received. -/
def Turning (ops : List Op) : Prop := ∃ rest, ops = .input :: .strobe :: rest ∧ Receiving rest

/-- The steps left fit a server that has read `got` and waits for a byte. A client that waits for
more bytes than the server had is stuck; that fits too. -/
def Plan : List Byte → Bool → List Op → Prop
  | _, _, [] => True
  | _, _, .close :: ops => ops = []
  | got, _, .open :: ops => Plan got false ops
  | got, _, .output :: ops => Plan got true ops
  | got, driving, .write b :: o :: w :: ops =>
    driving = true ∧ Shake o w ∧
      match next (got ++ [b]) with
      | .more => Plan (got ++ [b]) true ops
      | .done => Plan [] true ops
      | .leave => Quiet ops
      | .answer _ => Turning ops
  | _, _, .wait last :: ops => Receiving (.wait last :: ops)
  | _, _, _ => False

/-- The steps left fit a server that has just read the last byte of `got`. -/
def Sent (got : List Byte) (ops : List Op) : Prop :=
  match next got with
  | .more => Plan got true ops
  | .done => Plan [] true ops
  | .leave => Quiet ops
  | .answer _ => Turning ops

theorem plan_write {got : List Byte} {driving : Bool} {b : Byte} {o w : Op} {ops : List Op} :
    Plan got driving (.write b :: o :: w :: ops) ↔
      driving = true ∧ Shake o w ∧ Sent (got ++ [b]) ops := by
  rw [Plan, Sent]

/-- The steps left fit a server that waits for a strobe. -/
def Rest : Server → Bool → List Op → Prop
  | .poll got, driving, ops => Plan got driving ops
  | .turn _, driving, ops =>
    Turning ops ∨ driving = false ∧ ∃ rest, ops = .strobe :: rest ∧ Receiving rest
  | .gone, _, ops => Quiet ops
  | _, _, _ => False

/-- Where the server goes after a byte, the client's steps fit. -/
theorem Sent.rest {got answer : List Byte} {ops : List Op} {server : Server}
    (h : Sent got ops) (ha : after got answer = some server) : Rest server true ops := by
  unfold Sent at h
  unfold after at ha
  split at h <;> rename_i hnext <;> rw [hnext] at ha
  · cases ha
    exact h
  · cases ha
    exact h
  · cases ha
    exact h
  · dsimp only at ha
    split at ha
    · cases ha
      exact .inl h
    · cases ha

theorem Quiet.plan {ops : List Op} (h : Quiet ops) (got : List Byte) (driving : Bool) :
    Plan got driving ops := by
  rcases h with rfl | rfl
  · trivial
  · rfl

theorem Receiving.plan {ops : List Op} (h : Receiving ops) (got : List Byte) (driving : Bool) :
    Plan got driving ops := by
  unfold Receiving at h
  split at h
  · trivial
  · exact h
  · rw [Plan, Receiving]
    exact h
  · rw [Plan, Receiving]
    exact h
  · exact h.elim

/-! ## Calls keep to the plan -/

theorem receiving_receives (d : Driver) (i n : Nat) {rest : List Op} (h : Receiving rest) :
    Receiving (receives d i n ++ rest) := by
  induction n generalizing i with
  | zero => exact h
  | succ n ih =>
    rw [receives, List.cons_append, List.cons_append, List.cons_append, Receiving]
    exact ih (i + 1)

theorem receiving_receive (d : Driver) (n : Nat) {rest : List Op} (h : Receiving rest) :
    Receiving (receive d n rest) := by
  rw [receive]
  split
  · rfl
  · exact receiving_receives d 0 n h

theorem receiving_receiveIdentity (d : Driver) (size : Byte) :
    Receiving (receiveIdentity d size [.close]) :=
  receiving_receive d _ (receiving_receive d 9 rfl)

/-- Bytes sent one after the other fit as long as the server reads on after each. -/
theorem plan_sends (d : Driver) {i : Nat} {got bs : List Byte} {rest : List Op}
    (hmore : ∀ done, done ≠ [] → done <+: bs → done ≠ bs → next (got ++ done) = .more)
    (hlast : bs ≠ [] → Sent (got ++ bs) rest) (hne : bs ≠ []) :
    Plan got true (sends d i bs ++ rest) := by
  induction bs generalizing got i with
  | nil => exact absurd rfl hne
  | cons b bs ih =>
    rw [sends, List.cons_append, List.cons_append, List.cons_append, plan_write]
    refine ⟨rfl, trivial, ?_⟩
    cases bs with
    | nil => exact hlast (List.cons_ne_nil _ _)
    | cons b' bs =>
      have hnext : next (got ++ [b]) = .more :=
        hmore [b] (List.cons_ne_nil _ _) ⟨b' :: bs, rfl⟩ (by simp)
      rw [Sent, hnext]
      refine ih (fun done hdone hpre hne => ?_) (fun _ => ?_) (List.cons_ne_nil _ _)
      · rw [List.append_assoc]
        exact hmore (b :: done) (List.cons_ne_nil _ _) ((List.prefix_cons_inj b).mpr hpre)
          (by simpa using hne)
      · rw [List.append_assoc]
        exact hlast (List.cons_ne_nil _ _)

section Requests

variable (args : List Byte)

@[simp] theorem next_load : next (Command.load :: args) = nextLoad args := rfl
@[simp] theorem next_save : next (Command.save :: args) = nextSave args := rfl
@[simp] theorem next_peek : next (Command.peek :: args) = afterBytes 4 args (.answer 1) := rfl
@[simp] theorem next_poke : next (Command.poke :: args) = afterBytes 5 args .done := rfl
@[simp] theorem next_jump : next (Command.jump :: args) = afterBytes 4 args .leave := rfl
@[simp] theorem next_run : next (Command.run :: args) = .leave := rfl
@[simp] theorem next_inject : next (Command.inject :: args) = afterBytes 2 args .leave := rfl
@[simp] theorem next_identify : next (Command.identify :: args) = .answer identification := rfl
@[simp] theorem next_ping : next (Command.ping :: args) = .done := rfl

end Requests

theorem plan_pinging {rest : List Op} (h : Plan [] true rest) (driving : Bool) :
    Plan [] driving (.open :: pinging rest) := by
  simp only [pinging, Plan, Shake, List.nil_append, next_ping]
  exact ⟨trivial, trivial, h⟩

theorem send_cons (d : Driver) (b : Byte) (bs : List Byte) (rest : List Op) :
    send d (b :: bs) rest = sends d 0 (b :: bs) ++ rest := by
  rw [send, if_neg (by simp)]

/-- A request fits when its bytes, sent to a server in its dispatch loop, do. -/
theorem plan_request (d : Driver) {b : Byte} {bs : List Byte} {rest : List Op}
    (h : Plan [] true (sends d 0 (b :: bs) ++ rest)) (driving : Bool) :
    Plan [] driving (request d (b :: bs) rest) := by
  rw [request, send_cons]
  refine plan_pinging ?_ driving
  rw [Plan]
  exact h

theorem turning_inquiry {rest : List Op} (h : Receiving rest) :
    Turning (.input :: .strobe :: rest) := ⟨rest, rfl, h⟩

/-- The payload of a load, whose header implies its length. -/
theorem plan_payload (memory bank : Byte) (address : Addr) (d : Driver) (data : List Byte)
    (hmax : data.length ≤ 0x10000) :
    Plan (header Command.load memory bank address data.length) true (send d data [.close]) := by
  rw [send]
  split
  · rfl
  · cases data with
    | nil => rfl
    | cons b data =>
      have hspan := span_add address (n := (b :: data).length) (by simp) hmax
      refine plan_sends d (fun done _ hpre hne => ?_) (fun _ => ?_) (List.cons_ne_nil _ _)
      · have hlt : done.length < (b :: data).length :=
          lt_of_le_of_ne hpre.length_le fun h => hne (hpre.eq_of_length h)
        simp only [header, List.cons_append, List.nil_append, next_load, nextLoad, word_hi_lo,
          hspan]
        rw [if_pos hlt]
      · rw [Sent]
        simp only [header, List.cons_append, List.nil_append, next_load, nextLoad, word_hi_lo,
          hspan, lt_irrefl, ↓reduceIte]
        rfl

/-- **Every call keeps to the plan.** -/
theorem Call.plan (d : Driver) (c : Call) (hc : c.OneRequest) (driving : Bool) :
    Plan [] driving (c.ops d) := by
  cases c with
  | ready => rfl
  | ping =>
    have hclose : Plan [] true [.close] := rfl
    exact plan_pinging hclose driving
  | load memory bank address data =>
    refine plan_request d ?_ driving
    have hpayload := plan_payload memory bank address d data hc
    simpa only [sends, List.cons_append, List.nil_append, plan_write, Shake, Sent, next_load,
      nextLoad, true_and, header, List.length_nil, span_pos, ↓reduceIte] using hpayload
  | save memory bank address size =>
    refine plan_request d ?_ driving
    simp only [sends, List.cons_append, List.nil_append, plan_write, Shake, Sent, next_save,
      nextSave, true_and]
    exact turning_inquiry (receiving_receive d size rfl)
  | peek memory bank address =>
    refine plan_request d ?_ driving
    simp [sends, plan_write, Shake, Sent, afterBytes]
    exact turning_inquiry (receiving_receive d 1 rfl)
  | poke memory bank address value =>
    refine plan_request d ?_ driving
    simp [sends, plan_write, Shake, Sent, afterBytes]
    rfl
  | identify =>
    refine plan_request d ?_ driving
    simp only [sends, List.cons_append, List.nil_append, plan_write, Shake, Sent, next_identify,
      true_and]
    exact turning_inquiry rfl
  | jump memory bank address =>
    refine plan_request d ?_ driving
    simp [sends, plan_write, Shake, Sent, afterBytes]
    exact .inr rfl
  | run =>
    refine plan_request d ?_ driving
    simp only [sends, List.cons_append, List.nil_append, plan_write, Shake, Sent, next_run,
      true_and]
    exact .inr rfl
  | inject address =>
    refine plan_request d ?_ driving
    simp [sends, plan_write, Shake, Sent, afterBytes]
    exact .inr rfl

end Xlink.Port

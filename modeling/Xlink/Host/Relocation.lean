import Xlink.Host.Setup
import Xlink.Tools.MakeServer

/-!
# Relocating the server

`xlink_relocate` builds the image of a server for an address, loads it and jumps to it. When the
image does not fit below `$10000` there is none, and the source does not look: it sends the load's
request and then reads the bytes to load from where nothing is.

The emitted function can only refuse if the table that `make-server` has printed points into the
image, which is then a matter of room (`MakeServer.Emitted.Inside.image_iff`). Of another table,
whose bytes it would store outside the image, there is no run.
-/

namespace Xlink.Host

open Word Program Program.Prog
open MakeServer (Emitted xlinkServer)

/-! ## The call -/

section Relocate

variable (device : Option String)

/-- `xlink_load` of `size` bytes at `NULL + 2`. There is no result once they are read. -/
def loadNull (memory bank : Byte) (address : Addr) (size : Nat) :
    Prog (Option (Option Unit)) := do
  let stop := address + BitVec.ofNat 16 size
  if ← driver_open device then do
    if ← driver_ping .request then do
      driver_output
      if ← driver_send [Command.load, memory, bank, lo address, hi address, lo stop, hi stop] then
        pure none
      else do
        driver_close
        pure (some none)
    else do
      setError .server "no response from server"
      driver_close
      pure (some none)
  else pure (some none)

/-- `xlink_relocate`, with the numbers `make-server` has printed: with an image it is the call of the
library. -/
def relocate (machine : Machine) (e : Emitted) (address : Addr) : Prog (Option (Option Unit)) := do
  match xlinkServer e address with
  | .ok image => do
    let result ← xlink_relocate device { machine with server := fun _ => image } address
    pure (some result)
  | .error .outOfMemory => do
    setError .server "Can't create server: out of memory"
    loadNull device (machine.memory ||| 0x80#8) machine.bank address (e.size - 2)
  -- a table that points outside the image: nothing is known of what the emitted function does then
  | .error _ => stop

end Relocate

/-! ## What is sent -/

/-- The result of a transfer of so many bytes. -/
def transferOk (type : DriverType) (size completed : BitVec 32) : Bool :=
  if type.Bytewise then decide (size.toInt ≤ completed.toNat) && decide (0 < size.toInt)
  else completed == size

/-- What is sent, and whether all of it. -/
def Event.sent : Event → Option (List Byte × Bool)
  | ⟨.prim type (.send data), completed⟩ =>
    some (data, transferOk type (BitVec.ofNat 32 data.length) completed)
  | _ => none

def sends (tr : List Event) : List (List Byte × Bool) := tr.filterMap Event.sent

/-- The server answers the ping of a request. -/
def Answered (tr : List Event) : Prop :=
  ∃ type, (⟨.prim type (.ping .request), true⟩ : Event) ∈ tr

/-- The frames are sent one after the other, each as long as the ones before it were sent in full, and
the result says whether all of them were. -/
inductive Relays : List (List Byte) → List (List Byte × Bool) → Bool → Prop
  | all : Relays [] [] true
  | stopped (frame : List Byte) (frames : List (List Byte)) : Relays (frame :: frames) [] false
  | failed (frame : List Byte) (frames : List (List Byte)) :
      Relays (frame :: frames) [(frame, false)] false
  | sent (frame : List Byte) {frames : List (List Byte)} {sent : List (List Byte × Bool)}
      {result : Bool} (h : Relays frames sent result) :
      Relays (frame :: frames) ((frame, true) :: sent) result

/-- The request of a load of some bytes, and the bytes. -/
def loadFrames (memory bank : Byte) (address : Addr) (data : List Byte) : List (List Byte) :=
  let stop := address + BitVec.ofNat 16 data.length
  [[Command.load, memory, bank, lo address, hi address, lo stop, hi stop], data]

def jumpFrame (memory bank : Byte) (address : Addr) : List Byte :=
  [Command.jump, memory, bank, hi address, lo address]

/-- The image is loaded and jumped to, or nothing is sent and the call fails. -/
def RightOrNothing (machine : Machine) (e : Emitted) (address : Addr) (tr : List Event)
    (r : Option (Option Unit)) : Prop :=
  match xlinkServer e address with
  | .ok image => ∃ result, r = some result ∧
    Relays (loadFrames (machine.memory ||| 0x80#8) machine.bank address (image.drop 2) ++
      [jumpFrame (machine.memory ||| 0x80#8) machine.bank address]) (sends tr) result.isSome
  | .error _ => r = some none ∧ sends tr = []

section Sends

variable {tr tr' : List Event} {s : Lib}

theorem sends_nil : sends [] = [] := rfl

theorem sends_append (tr tr' : List Event) : sends (tr ++ tr') = sends tr ++ sends tr' :=
  List.filterMap_append

/-- Opening the device sends nothing. -/
theorem sends_quiet (h : ∀ e ∈ tr, e.Quiet) : sends tr = [] := by
  rw [sends, List.filterMap_eq_nil_iff]
  rintro ⟨op, ans⟩ he
  have hquiet := h _ he
  cases op with
  | stat path => rfl
  | prim type p =>
    cases p with
    | send data => exact hquiet.elim
    | _ => rfl

/-- Opening the device asks for no server. -/
theorem not_answered_quiet (h : ∀ e ∈ tr, e.Quiet) : ¬Answered tr := by
  rintro ⟨type, hmem⟩
  exact h _ hmem

/-- What comes after the opening decides what is sent and whether a server answers. -/
theorem sends_opened (h : ∀ e ∈ tr, e.Quiet) (tr' : List Event) :
    sends (tr ++ tr') = sends tr' := by
  rw [sends_append, sends_quiet h, List.nil_append]

theorem answered_opened (h : ∀ e ∈ tr, e.Quiet) (tr' : List Event) :
    Answered (tr ++ tr') ↔ Answered tr' := by
  constructor
  · rintro ⟨type, hmem⟩
    rcases List.mem_append.mp hmem with hmem | hmem
    · exact absurd ⟨type, hmem⟩ (not_answered_quiet h)
    · exact ⟨type, hmem⟩
  · rintro ⟨type, hmem⟩
    exact ⟨type, List.mem_append_right _ hmem⟩

theorem wlp_transferDone (type : DriverType) (size completed : BitVec 32) (verb : String) :
    (transferDone type size completed verb).wlp s fun tr ok _ =>
      tr = [] ∧ ok = transferOk type size completed := by
  rw [transferDone, transferOk, wlp_ite]
  split
  · rw [wlp_ite]
    split
    next hless =>
      simp only [setError, wlp_bind, wlp_modify, wlp_pure, List.append_nil]
      exact ⟨trivial, by rw [decide_eq_false (by omega), Bool.false_and]⟩
    next hmore =>
      rw [wlp_pure]
      exact ⟨rfl, by rw [decide_eq_true (Int.not_lt.mp hmore), Bool.true_and]⟩
  · rw [wlp_ite]
    split
    next heq =>
      simp only [clearErrorIf, wlp_bind, wlp_modify, wlp_pure, List.append_nil]
      exact ⟨trivial, (beq_iff_eq.mpr heq).symm⟩
    next hne =>
      simp only [setError, wlp_bind, wlp_modify, wlp_pure, List.append_nil]
      exact ⟨trivial, (beq_eq_false_iff_ne.mpr hne).symm⟩

/-- A transfer is sent once. -/
theorem wlp_send (data : List Byte) : (driver_send data).wlp s fun tr ok _ =>
    sends tr = [(data, ok)] := by
  rw [driver_send, wlp_bind, wlp_get]
  cases s.table._send with
  | none => exact wlp_stop
  | some type =>
    rw [wlp_bind]
    apply wlp_call.mpr
    intro completed
    apply wlp_mono (wlp_transferDone type _ completed "sent")
    rintro tr ok t ⟨rfl, rfl⟩
    rfl

end Sends

/-! ## Requests -/

section Requests

variable {α : Type} {device : Option String} {s : Lib}

/-- A request sends its frame when the device opens and the server answers, and goes on when the
frame is sent in full. -/
theorem wlp_request {frame : List Byte} {rest : Prog (Option α)}
    {R : List (List Byte × Bool) → Option α → Prop} (hnone : R [] none)
    (hfailed : R [(frame, false)] none)
    (hrest : ∀ t, rest.wlp t fun tr a _ => R ((frame, true) :: sends tr) a) :
    (opened device (asking frame rest)).wlp s fun tr a _ => R (sends tr) a := by
  rw [opened, done, wlp_bind, wlp_bind]
  apply wlp_mono (tries_open device s)
  intro tr ok t htried
  have hopen := sends_quiet htried.quiet
  rw [wlp_ite]
  cases ok with
  | false =>
    rw [if_neg (by decide)]
    simp only [clearErrorIf, wlp_bind, wlp_modify, wlp_pure, List.append_nil, hopen]
    exact hnone
  | true =>
    have hclose : ∀ (tr' : List Event) (a : Option α) (u : Lib), R (sends tr') a →
        (driver_close >>= fun _ => pure a : Prog (Option α)).wlp u fun tr'' b v =>
          (clearErrorIf b.isSome >>= fun _ => pure b : Prog (Option α)).wlp v
            fun tr₂ c _ => R (sends (tr ++ (tr' ++ tr'') ++ tr₂)) c := by
      intro tr' a u h
      rw [wlp_bind]
      apply wlp_close
      intro type type'
      have hquiet : sends [⟨.prim type .input, ()⟩, ⟨.prim type' .close, ()⟩] = [] := rfl
      simp only [clearErrorIf, wlp_bind, wlp_modify, wlp_pure, sends_append, hopen, hquiet,
        sends_nil, List.nil_append, List.append_nil]
      exact h
    rw [if_pos rfl, closing, wlp_bind, asking, wlp_bind]
    apply wlp_member
    intro type answered _
    rw [wlp_ite]
    split
    · rw [wlp_bind]
      apply wlp_member
      intro type' _ _
      rw [wlp_bind]
      apply wlp_mono (wlp_send frame)
      intro tr₁ sent u hsent
      rw [wlp_ite]
      cases sent with
      | false =>
        rw [if_neg (by decide), wlp_pure]
        refine hclose _ _ _ ?_
        rw [List.append_nil, sends_append, sends_append, hsent]
        exact hfailed
      | true =>
        rw [if_pos rfl]
        apply wlp_mono (hrest u)
        intro tr₂ a v h
        refine hclose _ _ _ ?_
        rw [sends_append, sends_append, sends_append, hsent]
        exact h
    · rw [wlp_bind, setError, wlp_modify, wlp_pure]
      refine hclose _ _ _ ?_
      exact hnone

/-- A load sends its request and its bytes. -/
theorem wlp_load (memory bank : Byte) (address : Addr) (data : List Byte) :
    (xlink_load device memory bank address data).wlp s fun tr r _ =>
      Relays (loadFrames memory bank address data) (sends tr) r.isSome := by
  apply @wlp_request _ _ _ _ _ fun sent r => Relays _ sent r.isSome
  · exact .stopped _ _
  · exact .failed _ _
  · intro t
    rw [wlp_bind]
    apply wlp_mono (wlp_send data)
    intro tr sent u hsent
    rw [wlp_ite]
    cases sent with
    | false =>
      rw [if_neg (by decide), wlp_pure, List.append_nil, hsent]
      exact .sent _ (.failed _ _)
    | true =>
      rw [if_pos rfl, wlp_pure, List.append_nil, hsent]
      exact .sent _ (.sent _ .all)

/-- A jump sends its request. -/
theorem wlp_jump (memory bank : Byte) (address : Addr) :
    (xlink_jump device memory bank address).wlp s fun tr r _ =>
      Relays [jumpFrame memory bank address] (sends tr) r.isSome := by
  apply @wlp_request _ _ _ _ _ fun sent r => Relays _ sent r.isSome
  · exact .stopped _ _
  · exact .failed _ _
  · intro t
    rw [wlp_pure]
    exact .sent _ .all

theorem Relays.append {frames frames' : List (List Byte)} {sent sent' : List (List Byte × Bool)}
    {result result' : Bool} (h : Relays frames sent result) (hresult : result = true)
    (h' : Relays frames' sent' result') : Relays (frames ++ frames') (sent ++ sent') result' := by
  induction h with
  | all => exact h'
  | stopped => cases hresult
  | failed => cases hresult
  | sent frame _ ih => exact .sent frame (ih hresult)

theorem Relays.stop {frames frames' : List (List Byte)} {sent : List (List Byte × Bool)}
    {result : Bool} (h : Relays frames sent result) (hresult : result = false) :
    Relays (frames ++ frames') sent result := by
  induction h with
  | all => cases hresult
  | stopped => exact .stopped _ _
  | failed => exact .failed _ _
  | sent frame _ ih => exact .sent frame (ih hresult)

/-- With an image, the call relays the load and the jump. -/
theorem wlp_relocate_image (machine : Machine) (address : Addr) :
    (xlink_relocate device machine address).wlp s fun tr r _ =>
      Relays (loadFrames (machine.memory ||| 0x80#8) machine.bank address
          ((machine.server address).drop 2) ++
        [jumpFrame (machine.memory ||| 0x80#8) machine.bank address]) (sends tr) r.isSome := by
  rw [xlink_relocate, done, wlp_bind, wlp_bind]
  apply wlp_mono (wlp_load _ _ _ _)
  intro tr loaded t hload
  have hclear : ∀ (tr' : List Event) (r : Option Unit) (u : Lib),
      (clearErrorIf r.isSome >>= fun _ => pure r : Prog (Option Unit)).wlp u fun tr'' b _ =>
        b = r ∧ sends (tr' ++ tr'') = sends tr' := by
    intro tr' r u
    simp only [clearErrorIf, wlp_bind, wlp_modify, wlp_pure, List.append_nil]
    exact ⟨trivial, trivial⟩
  cases loaded with
  | none =>
    rw [wlp_pure]
    apply wlp_mono (hclear _ none t)
    rintro tr' r u ⟨rfl, hsends⟩
    rw [hsends, List.append_nil]
    exact hload.stop rfl
  | some _ =>
    apply wlp_mono (wlp_jump _ _ _)
    intro tr' jumped u hjump
    apply wlp_mono (hclear _ jumped u)
    rintro tr'' r v ⟨rfl, hsends⟩
    rw [hsends, sends_append]
    exact hload.append rfl hjump

/-- Without one, the load's request is sent when the server answers. -/
theorem wlp_loadNull (memory bank : Byte) (address : Addr) (size : Nat) :
    (loadNull device memory bank address size).wlp s fun tr r _ =>
      (Answered tr ∧ sends tr ≠ []) ∨ (¬Answered tr ∧ r = some none ∧ sends tr = []) := by
  rw [loadNull, wlp_bind]
  apply wlp_mono (tries_open device s)
  intro tr ok t htried
  simp only [sends_opened htried.quiet, answered_opened htried.quiet]
  rw [wlp_ite]
  cases ok with
  | false =>
    rw [if_neg (by decide), wlp_pure]
    refine .inr ⟨?_, rfl, rfl⟩
    rintro ⟨type, hmem⟩
    cases hmem
  | true =>
    rw [if_pos rfl, wlp_bind]
    apply wlp_member
    intro type answered _
    rw [wlp_ite]
    cases answered with
    | false =>
      rw [if_neg (by decide), wlp_bind, setError, wlp_modify, wlp_bind]
      apply wlp_close
      intro type' type''
      rw [wlp_pure]
      refine .inr ⟨?_, rfl, rfl⟩
      rintro ⟨type₁, hmem⟩
      simp at hmem
    | true =>
      have hanswered : ∀ tr' : List Event,
          Answered ([⟨.prim type (.ping .request), true⟩] ++ tr') := fun tr' =>
        ⟨type, List.mem_append_left _ (List.mem_singleton_self _)⟩
      rw [if_pos rfl, wlp_bind]
      apply wlp_member
      intro type' _ _
      rw [wlp_bind]
      apply wlp_mono (wlp_send _)
      intro tr₁ sent u hsent
      have hrequest : ∀ tr₂ : List Event, sends ([⟨.prim type (.ping .request), true⟩] ++
          ([⟨.prim type' .output, ()⟩] ++ (tr₁ ++ tr₂))) ≠ [] := by
        intro tr₂
        simp only [sends_append, hsent]
        simp
      rw [wlp_ite]
      cases sent with
      | false =>
        rw [if_neg (by decide), wlp_bind]
        apply wlp_close
        intro type₁ type₂
        rw [wlp_pure]
        exact .inl ⟨hanswered _, hrequest _⟩
      | true =>
        rw [if_pos rfl, wlp_pure]
        exact .inl ⟨hanswered _, hrequest _⟩

end Requests

/-- **The right image is sent, or nothing**, when an image can be built or no server answers. -/
theorem relocate_right_or_nothing (device : Option String) (machine : Machine) (e : Emitted)
    (address : Addr) (s : Lib) :
    (relocate device machine e address).wlp s fun tr r _ =>
      RightOrNothing machine e address tr r ↔
        (∃ image, xlinkServer e address = .ok image) ∨ ¬Answered tr := by
  cases hbuilt : xlinkServer e address with
  | ok image =>
    simp only [relocate, RightOrNothing, hbuilt]
    rw [wlp_bind]
    apply wlp_mono (wlp_relocate_image _ address)
    intro tr result t h
    rw [wlp_pure, List.append_nil]
    exact iff_of_true ⟨result, rfl, h⟩ (.inl ⟨image, rfl⟩)
  | error fault =>
    cases fault with
    | unequalSizes =>
      simp only [relocate, hbuilt]
      exact wlp_stop
    | outOfBounds =>
      simp only [relocate, hbuilt]
      exact wlp_stop
    | outOfMemory =>
    simp only [relocate, RightOrNothing, hbuilt]
    rw [wlp_bind, setError, wlp_modify]
    apply wlp_mono (wlp_loadNull _ _ _ _)
    intro tr r t h
    rw [List.nil_append]
    have hnone : ¬∃ image,
        (Except.error .outOfMemory : Except MakeServer.Fault (List Byte)) = .ok image := by
      rintro ⟨image, himage⟩
      cases himage
    rcases h with ⟨hanswered, hsends⟩ | ⟨hanswered, hresult, hsends⟩
    · refine iff_of_false (fun h => hsends h.2) ?_
      rintro (himage | hnot)
      · exact hnone himage
      · exact hnot hanswered
    · exact iff_of_true ⟨hresult, hsends⟩ (.inr hanswered)

/-- A server of 32 bytes does not fit at `$fff0`: the request of its load is sent all the same. -/
theorem relocate_past_the_end : ∃ tr r t,
    (relocate none (Machine.c64 fun _ => []) ⟨32, List.replicate 32 0x01#8, []⟩ 0xfff0#16).Runs
        shmLib tr r t ∧
      ¬RightOrNothing (Machine.c64 fun _ => []) ⟨32, List.replicate 32 0x01#8, []⟩ 0xfff0#16 tr r :=
  ⟨[shmEvent .opening none, shmEvent (.ping .request) true, shmEvent .output (),
    shmEvent (.send [Command.load, 0xb7#8, 0x00#8, 0xf0#8, 0xff#8, 0x0e#8, 0x00#8]) 7#32], none,
    shmLib, ⟨none, _, rfl, true, _, rfl, (), _, rfl, 7#32, _, rfl, rfl, rfl, rfl⟩,
    fun h => absurd h.1.symm (Option.some_ne_none _)⟩

end Xlink.Host

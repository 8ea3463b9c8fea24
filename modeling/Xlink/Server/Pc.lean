import Xlink.Port.Protocol

/-!
# The other end of the cable

A server runs from one look at the FLAG latch to the next and from one flip of PA2 to the next, and
in between the PC does not move. So the PC, as a server meets it, is a tree of what it does at these
two points: it strobes, with a byte on the data lines or with its port in input mode, and it waits
for a flip, at which it sees a byte. `Pc.ofOps` reads this off the driver steps of a call.
-/

namespace Xlink.Server

open Word Port

/-- What the PC does next. -/
inductive Pc where
  /-- nothing more; these are the bytes received -/
  | done (received : List Byte)
  /-- strobes, with this byte on the data lines -/
  | strobe (data : Option Byte) (k : Pc)
  /-- waits for PA2 to flip, with this byte on the data lines -/
  | ack (k : Byte → Pc)

/-- Bytes sent one after the other. -/
def Pc.sending : List Byte → Pc → Pc
  | [], k => k
  | b :: bs, k => .strobe (some b) (.ack fun _ => Pc.sending bs k)

/-- `n` bytes received one after the other. -/
def Pc.receiving : Nat → (List Byte → Pc) → Pc
  | 0, k => k []
  | n + 1, k => .ack fun b => .strobe none (Pc.receiving n fun bs => k (b :: bs))

/-- A PC that has these driver steps left: `data` is the byte it has put on the lines, `seen` the
byte that was on them at the last flip. -/
def Pc.ofOps : List Op → Bool → Byte → Byte → List Byte → Pc
  | [], _, _, _, received => .done received
  | .open :: ops, _, data, seen, received => Pc.ofOps ops false data seen received
  | .close :: ops, _, _, _, received => Pc.ofOps ops false 0xff#8 0xff#8 received
  | .input :: ops, _, data, seen, received => Pc.ofOps ops false data seen received
  | .output :: ops, _, data, seen, received => Pc.ofOps ops true data seen received
  | .write b :: ops, driving, _, seen, received => Pc.ofOps ops driving b seen received
  | .strobe :: ops, driving, data, seen, received =>
    .strobe (if driving then some data else none) (Pc.ofOps ops driving data seen received)
  | .ping :: ops, driving, data, seen, received =>
    .strobe (if driving then some data else none) (Pc.ofOps ops driving data seen received)
  | .wait _ :: ops, driving, data, _, received =>
    .ack fun b => Pc.ofOps ops driving data b received
  | .pong :: ops, driving, data, _, received =>
    .ack fun b => Pc.ofOps ops driving data b received
  | .read :: ops, driving, data, seen, received =>
    Pc.ofOps ops driving data seen (received ++ [seen])
  | .size :: ops, driving, data, seen, received =>
    .strobe none <|
      if seen &&& 0x0f#8 = 0#8 then .done (received ++ [seen])
      else Pc.receiving (seen &&& 0x0f#8).toNat fun id => Pc.receiving 9 fun info =>
        Pc.ofOps ops driving data 0xff#8 (received ++ [seen] ++ id ++ info)

/-- A PC that makes the calls of a session, one after the other. -/
def Pc.session (calls : List Call) (received : List Byte) : Pc :=
  Pc.ofOps (calls.flatMap (Call.ops .parport)) false 0xff#8 0xff#8 received

/-! ## The calls -/

theorem ofOps_sends (d : Driver) (i : Nat) (bs : List Byte) (rest : List Op) (data seen : Byte)
    (received : List Byte) (k : Pc) (hk : ∀ data seen, Pc.ofOps rest true data seen received = k) :
    Pc.ofOps (sends d i bs ++ rest) true data seen received = Pc.sending bs k := by
  induction bs generalizing i data seen with
  | nil => exact hk data seen
  | cons b bs ih =>
    simp only [sends, List.cons_append, Pc.ofOps, ↓reduceIte, ih, Pc.sending]

theorem ofOps_receives (d : Driver) (i n : Nat) (rest : List Op) (data seen : Byte)
    (received : List Byte) (k : List Byte → Pc)
    (hk : ∀ seen bs, Pc.ofOps rest false data seen (received ++ bs) = k bs) :
    Pc.ofOps (receives d i n ++ rest) false data seen received = Pc.receiving n k := by
  induction n generalizing i seen received k with
  | zero =>
    have := hk seen []
    rwa [List.append_nil] at this
  | succ n ih =>
    simp only [receives, List.cons_append, Pc.ofOps, Pc.receiving, Bool.false_eq_true, ↓reduceIte]
    refine congrArg Pc.ack (funext fun b => congrArg (Pc.strobe none) ?_)
    refine ih _ _ _ _ fun seen bs => ?_
    rw [List.append_assoc]
    exact hk seen (b :: bs)

theorem send_ne_nil (d : Driver) {bs : List Byte} (h : bs ≠ []) (rest : List Op) :
    send d bs rest = sends d 0 bs ++ rest := by
  rw [send, if_neg fun hd => h hd.2]

theorem receive_pos (d : Driver) {n : Nat} (h : 0 < n) (rest : List Op) :
    receive d n rest = receives d 0 n ++ rest := by
  rw [receive, if_neg fun hd => (Nat.pos_iff_ne_zero.mp h) hd.2]

/-- A call begins with a ping, then sends its request. -/
theorem ofOps_request (b : Byte) (bs : List Byte) (rest : List Op) (driving : Bool)
    (data seen : Byte) (received : List Byte) (k : Pc)
    (hk : ∀ data seen, Pc.ofOps rest true data seen received = k) :
    Pc.ofOps (request .parport (b :: bs) rest) driving data seen received =
      Pc.sending [Command.ping] (Pc.sending (b :: bs) k) := by
  simp only [request, pinging, Pc.ofOps, ↓reduceIte, Pc.sending]
  refine congrArg (Pc.strobe _) (congrArg Pc.ack (funext fun _ => ?_))
  rw [send_ne_nil _ (List.cons_ne_nil _ _), ofOps_sends _ _ _ _ _ _ _ k hk, Pc.sending]

/-- A call that is answered turns its port around, which takes a strobe, and receives. -/
theorem ofOps_inquiry (b : Byte) (bs : List Byte) (rest : List Op) (driving : Bool)
    (data seen : Byte) (received : List Byte) (k : Pc)
    (hk : ∀ data seen, Pc.ofOps rest false data seen received = k) :
    Pc.ofOps (inquiry .parport (b :: bs) rest) driving data seen received =
      Pc.sending [Command.ping] (Pc.sending (b :: bs) (.strobe none k)) := by
  refine ofOps_request b bs _ driving data seen received _ fun data seen => ?_
  simp only [Pc.ofOps, Bool.false_eq_true, ↓reduceIte, hk]

end Xlink.Server

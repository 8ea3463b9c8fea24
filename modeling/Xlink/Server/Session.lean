import Xlink.Server.Frames

/-!
# Sessions

A server takes one interrupt after the other (`serve`), and each call of the client is two of them:
the ping it begins with, which is acknowledged and dropped, and the request. `Serves` is what the
handlers of a listing have to do for that: read their request to its last byte, answer with as many
bytes as the client receives, and leave the machine ready for the next interrupt. From it,
`Serves.session` says that client and server stay in step over any number of calls.

Between two interrupts the machine does what it likes, as long as the cable and port B are left
alone and I/O is there when the next one comes.
-/

namespace Xlink.Server

open Word Mos6502 Port

variable {T : Target}

/-! ## The server's side -/

/-- Interrupts one after the other; `meanwhile` is what happens after each of them. -/
def serve (h : Handlers T) (meanwhile : Nat → Cpu (Machine T) → Cpu (Machine T)) :
    Nat → Code T (List Request)
  | 0 => pure []
  | n + 1 => do
    let outcome ← irq h
    match outcome with
    | .returned request => do
      elsewhere (meanwhile n)
      let requests ← serve h meanwhile n
      pure (request.toList ++ requests)
    | .left request => pure [request]

/-- The machine as an interrupt finds it: I/O is visible and port B is input. -/
structure Ready (M : Machine T) : Prop where
  visible : T.Visible M.config
  input : M.dd03 = 0x00#8

/-- What happens between two interrupts leaves the cable alone. -/
def Idle (meanwhile : Nat → Cpu (Machine T) → Cpu (Machine T)) : Prop :=
  ∀ n s, Ready s.bus → Ready (meanwhile n s).bus ∧ (meanwhile n s).bus.pc = s.bus.pc

/-- What is written here is memory, and none of the cells the server works with. -/
def Place.Plain (work : List Byte) : Place → Prop
  | .zp c => c ∉ work
  | .ram _ _ => True
  | .rom _ => True
  | .io _ => False
  | .config => False

instance (work : List Byte) : DecidablePred (Place.Plain work)
  | .zp c => inferInstanceAs (Decidable (c ∉ work))
  | .ram _ _ | .rom _ => .isTrue trivial
  | .io _ | .config => .isFalse id

theorem Place.Plain.clear {work : List Byte} {place : Place} (h : place.Plain work) :
    place.Clear work := by
  cases place with
  | zp c => exact h
  | ram bank a => trivial
  | rom a => trivial
  | io a => exact h.elim
  | config => exact h.elim

/-! ## The client's side -/

/-- The interrupts of a call. -/
def interrupts : Call → Nat
  | .ready => 0
  | .ping => 1
  | _ => 2

/-- The number of bytes a call receives. -/
def replySize : Call → Nat
  | .save _ _ _ size => size
  | .peek .. => 1
  | .identify => identification
  | _ => 0

/-- The requests a server takes a call for, when it answers with `reply`. -/
def requests (c : Call) (reply : List Byte) : List Request :=
  match c with
  | .ready => []
  | .ping => [.other Command.ping]
  | .load memory bank address data =>
    [.other Command.ping, .load memory bank address (address + BitVec.ofNat 16 data.length) data]
  | .save memory bank address size =>
    [.other Command.ping, .save memory bank address (address + BitVec.ofNat 16 size) reply]
  | .peek memory bank address =>
    [.other Command.ping, .peek memory bank address (reply.headD 0x00#8)]
  | .poke memory bank address value => [.other Command.ping, .poke memory bank address value]
  | .identify => [.other Command.ping, .identify reply]
  | .jump memory bank address => [.other Command.ping, .jump memory bank address]
  | .run => [.other Command.ping, .run]
  | .inject address => [.other Command.ping, .inject address]

/-- The calls of a session have been served: these are the requests the server has acted on, and
these the bytes it has sent. -/
inductive Served : List Call → List Request → List Byte → Prop
  | nil : Served [] [] []
  | cons {c : Call} {cs : List Call} {rs : List Request} {reply received : List Byte} :
    reply.length = replySize c → Served cs rs received →
    Served (c :: cs) (requests c reply ++ rs) (reply ++ received)

/-- The bytes a server has sent are those that answer its requests, in their order. -/
theorem Served.reply {cs : List Call} {rs : List Request} {received : List Byte}
    (h : Served cs rs received) : rs.flatMap Request.reply = received := by
  induction h with
  | nil => rfl
  | @cons c cs rs reply received hlen _ ih =>
    rw [List.flatMap_append, ih]
    congr 1
    cases c with
    | peek memory bank address =>
      obtain ⟨b, rfl⟩ := List.length_eq_one_iff.mp hlen
      rfl
    | save memory bank address size => simp [requests, Request.reply]
    | identify => simp [requests, Request.reply]
    | _ => simp [requests, Request.reply, List.length_eq_zero_iff.mp hlen]

/-- The calls after which the server is back in its dispatch loop. -/
def Returning : Call → Prop
  | .jump .. | .run | .inject _ => False
  | _ => True

instance : DecidablePred Returning
  | .jump .. | .run | .inject _ => .isFalse id
  | .ready | .ping | .load .. | .save .. | .peek .. | .poke .. | .identify => .isTrue trivial

/-! ## What the PC does in a call -/

section Scripts

variable (memory bank value : Byte) (address : Addr) (cs : List Call) (received : List Byte)

theorem request_append (b : Byte) (bs : List Byte) (rest more : List Op) :
    request .parport (b :: bs) rest ++ more = request .parport (b :: bs) (rest ++ more) := by
  simp [request, pinging, send]

theorem inquiry_append (b : Byte) (bs : List Byte) (rest more : List Op) :
    inquiry .parport (b :: bs) rest ++ more = inquiry .parport (b :: bs) (rest ++ more) := by
  rw [inquiry, request_append]
  rfl

theorem session_cons (c : Call) : Pc.session (c :: cs) received =
    Pc.ofOps (c.ops .parport ++ cs.flatMap (Call.ops .parport)) false 0xff#8 0xff#8 received := by
  rw [Pc.session, List.flatMap_cons]

theorem session_ping : Pc.session (.ping :: cs) received =
    .sending [Command.ping] (Pc.session cs received) := by
  rw [session_cons]
  rfl

theorem session_load {data : List Byte} (hne : data ≠ []) :
    Pc.session (.load memory bank address data :: cs) received =
      .sending [Command.ping] (.sending (header Command.load memory bank address data.length)
        (.sending data (Pc.session cs received))) := by
  rw [session_cons, Call.ops, header, request_append, send_ne_nil _ hne, List.append_assoc]
  refine ofOps_request _ _ _ _ _ _ _ _ fun d seen => ?_
  exact ofOps_sends _ _ _ _ _ _ _ _ fun d seen => rfl

theorem session_save {size : Nat} (hpos : 0 < size) :
    Pc.session (.save memory bank address size :: cs) received =
      .sending [Command.ping] (.sending (header Command.save memory bank address size)
        (.strobe none (.receiving size fun reply => Pc.session cs (received ++ reply)))) := by
  rw [session_cons, Call.ops, header, inquiry_append, receive_pos _ hpos, List.append_assoc]
  refine ofOps_inquiry _ _ _ _ _ _ _ _ fun d seen => ?_
  exact ofOps_receives _ _ _ _ _ _ _ _ fun seen bs => rfl

theorem session_peek : Pc.session (.peek memory bank address :: cs) received =
    .sending [Command.ping] (.sending [Command.peek, memory, bank, lo address, hi address]
      (.strobe none (.receiving 1 fun reply => Pc.session cs (received ++ reply)))) := by
  rw [session_cons, Call.ops, inquiry_append, receive_pos _ Nat.one_pos, List.append_assoc]
  refine ofOps_inquiry _ _ _ _ _ _ _ _ fun d seen => ?_
  exact ofOps_receives _ _ _ _ _ _ _ _ fun seen bs => rfl

theorem session_poke : Pc.session (.poke memory bank address value :: cs) received =
    .sending [Command.ping] (.sending [Command.poke, memory, bank, lo address, hi address, value]
      (Pc.session cs received)) := by
  rw [session_cons, Call.ops, request_append]
  exact ofOps_request _ _ _ _ _ _ _ _ fun d seen => rfl

theorem session_jump : Pc.session (.jump memory bank address :: cs) received =
    .sending [Command.ping] (.sending [Command.jump, memory, bank, hi address, lo address]
      (Pc.session cs received)) := by
  rw [session_cons, Call.ops, request_append]
  exact ofOps_request _ _ _ _ _ _ _ _ fun d seen => rfl

theorem session_run : Pc.session (.run :: cs) received =
    .sending [Command.ping] (.sending [Command.run] (Pc.session cs received)) := by
  rw [session_cons, Call.ops, request_append]
  exact ofOps_request _ _ _ _ _ _ _ _ fun d seen => rfl

theorem session_inject : Pc.session (.inject address :: cs) received =
    .sending [Command.ping] (.sending [Command.inject, hi (address - 1#16), lo (address - 1#16)]
      (Pc.session cs received)) := by
  rw [session_cons, Call.ops, request_append]
  exact ofOps_request _ _ _ _ _ _ _ _ fun d seen => rfl

theorem receiving_add (m n : Nat) (k : List Byte → Pc) : Pc.receiving (m + n) k =
    .receiving m fun vs => .receiving n fun ws => k (vs ++ ws) := by
  induction m generalizing k with
  | zero => rw [Nat.zero_add]; rfl
  | succ m ih =>
    rw [Nat.add_right_comm]
    simp only [Pc.receiving, ih, List.cons_append]

theorem receives_append {vs ws : List Byte} {pc mid k : Pc} (hvs : Pc.Receives vs pc mid)
    (hws : Pc.Receives ws mid k) : Pc.Receives (vs ++ ws) pc k := by
  induction vs generalizing pc with
  | nil =>
    rw [Pc.Receives] at hvs
    rwa [hvs]
  | cons v vs ih =>
    obtain ⟨f, htakes, hrest⟩ := hvs
    exact ⟨f, htakes, ih hrest⟩

theorem Table.length_bytes (table : Table) : table.bytes.length = 13 := by
  rw [Table.bytes, List.length_append, List.length_cons, table.id_length]
  rfl

/-- An identification of a server whose name has five letters. -/
theorem session_identify : ∃ pc, Pc.session (.identify :: cs) received =
    .sending [Command.ping] (.sending [Command.identify] (.strobe none pc)) ∧
    ∀ table : Table, Pc.Receives table.bytes pc (.ack fun low => .strobe none (.ack fun high =>
      .strobe none (Pc.session cs (received ++ (table.bytes ++ [low, high]))))) := by
  let sized (b : Byte) := Pc.ofOps (.size :: .close :: cs.flatMap (Call.ops .parport)) false 0xff#8
    b received
  let pc := Pc.ack sized
  refine ⟨pc, ?_, fun table => ?_⟩
  · rw [session_cons, Call.ops, inquiry_append]
    exact ofOps_inquiry _ _ _ _ _ _ _ _ fun d seen => rfl
  · let info := [table.version, table.machine, table.type, lo table.start, hi table.start,
      lo table.stop, hi table.stop]
    let done (id info : List Byte) := Pc.session cs (received ++ [table.size] ++ id ++ info)
    have hsize : table.size &&& 0x0f#8 = 0x05#8 := by rw [table.size_eq]; decide
    let f (b : Byte) := if b &&& 0x0f#8 = 0#8 then Pc.done (received ++ [b]) else
      .receiving (b &&& 0x0f#8).toNat fun id => .receiving 9 fun info =>
        Pc.session cs (received ++ [b] ++ id ++ info)
    have hf : f table.size = .receiving 5 fun id => .receiving (info.length + 2) (done id) := by
      simp only [f, hsize]
      rfl
    change ∃ f, pc.Takes f ∧ Pc.Receives (table.id ++ info) (f table.size) _
    refine ⟨f, rfl, ?_⟩
    rw [hf]
    have hid : Pc.Receives table.id (.receiving 5 fun id => .receiving (info.length + 2) (done id))
        (.receiving (info.length + 2) (done table.id)) := by
      have hid := receives_receiving table.id fun id => .receiving (info.length + 2) (done id)
      rwa [table.id_length] at hid
    refine receives_append hid ?_
    rw [receiving_add]
    have hinfo := receives_receiving info fun vs => .receiving 2 fun ws => done table.id (vs ++ ws)
    have hdone : ∀ low high, done table.id (info ++ [low, high]) =
        Pc.session cs (received ++ (table.bytes ++ [low, high])) := fun low high => by
      simp only [done, info, Table.bytes, List.append_assoc, List.cons_append, List.nil_append]
    simp only [Pc.receiving, hdone] at hinfo
    exact hinfo

end Scripts

/-! ## What a listing has to do -/

/-- A handler has acted on a request: the machine is ready and the PC has come to `k`. -/
def Handled (r : Request) (k : Pc) (o : Outcome) (t : Cpu (Machine T)) : Prop :=
  o = .returned (some r) ∧ Ready t.bus ∧ t.bus.pc = k

/-- The handlers read their requests to the last byte and answer with as many bytes as they should.
`loads` and `pokes` say where a load and a poke of a memory and bank may go. -/
structure Serves (h : Handlers T) (loads pokes : Machine T → Byte → Byte → Addr → Prop) : Prop where
  load : ∀ {M : Machine T} {a x y : Byte} {z n : Bool} {st : List Byte} {memory bank : Byte}
    {address : Addr} {data : List Byte} {k : Pc}, Ready M → data ≠ [] → data.length ≤ 0x10000 →
    (∀ i < data.length, loads M memory bank (address + BitVec.ofNat 16 i)) →
    M.pc = .sending [memory, bank, lo address, hi address,
      lo (address + BitVec.ofNat 16 data.length), hi (address + BitVec.ofNat 16 data.length)]
      (.sending data k) →
    wp h.load (Handled (.load memory bank address (address + BitVec.ofNat 16 data.length) data) k)
      ⟨a, x, y, z, n, st, M⟩
  save : ∀ {M : Machine T} {a x y : Byte} {z n : Bool} {st : List Byte} {memory bank : Byte}
    {address : Addr} {size : Nat} {k : List Byte → Pc}, Ready M → 0 < size → size ≤ 0x10000 →
    M.pc = .sending [memory, bank, lo address, hi address,
      lo (address + BitVec.ofNat 16 size), hi (address + BitVec.ofNat 16 size)]
      (.strobe none (.receiving size k)) →
    wp h.save (fun o t => ∃ reply : List Byte, reply.length = size ∧
      Handled (.save memory bank address (address + BitVec.ofNat 16 size) reply) (k reply) o t)
      ⟨a, x, y, z, n, st, M⟩
  peek : ∀ {M : Machine T} {a x y : Byte} {z n : Bool} {st : List Byte} {memory bank : Byte}
    {address : Addr} {k : List Byte → Pc}, Ready M →
    M.pc = .sending [memory, bank, lo address, hi address] (.strobe none (.receiving 1 k)) →
    wp h.peek (fun o t => ∃ v, Handled (.peek memory bank address v) (k [v]) o t)
      ⟨a, x, y, z, n, st, M⟩
  poke : ∀ {M : Machine T} {a x y : Byte} {z n : Bool} {st : List Byte} {memory bank value : Byte}
    {address : Addr} {k : Pc}, Ready M → pokes M memory bank address →
    M.pc = .sending [memory, bank, lo address, hi address, value] k →
    wp h.poke (Handled (.poke memory bank address value) k) ⟨a, x, y, z, n, st, M⟩
  jump : ∀ {M : Machine T} {a x y : Byte} {z n : Bool} {st : List Byte} {memory bank : Byte}
    {address : Addr} {k : Pc}, Ready M →
    M.pc = .sending [memory, bank, hi address, lo address] k →
    wp h.jump (fun o t => o = .left (.jump memory bank address) ∧ t.bus.pc = k)
      ⟨a, x, y, z, n, st, M⟩
  run : ∀ {M : Machine T} {a x y : Byte} {z n : Bool} {st : List Byte}, Ready M →
    wp h.run (fun o t => o = .left .run ∧ t.bus.pc = M.pc) ⟨a, x, y, z, n, st, M⟩
  inject : ∀ {M : Machine T} {a x y : Byte} {z n : Bool} {st : List Byte} {address : Addr} {k : Pc},
    Ready M → M.pc = .sending [hi address, lo address] k →
    wp h.inject (fun o t => o = .left (.inject (address + 1#16)) ∧ t.bus.pc = k)
      ⟨a, x, y, z, n, st, M⟩
  identify : ∃ table : Table, ∀ {M : Machine T} {a x y : Byte} {z n : Bool} {st : List Byte}
    {pc : Pc} {k : Byte → Byte → Pc}, Ready M → M.pc = .strobe none pc →
    Pc.Receives table.bytes pc
      (.ack fun low => .strobe none (.ack fun high => .strobe none (k low high))) →
    wp h.identify (fun o t => ∃ low high,
      Handled (.identify (table.bytes ++ [low, high])) (k low high) o t) ⟨a, x, y, z, n, st, M⟩

/-- Handlers that serve some transfers serve fewer. -/
theorem Serves.mono {h : Handlers T} {loads pokes loads' pokes' : Machine T → Byte → Byte → Addr → Prop}
    (hserves : Serves h loads pokes)
    (hloads : ∀ M memory bank a, loads' M memory bank a → loads M memory bank a)
    (hpokes : ∀ M memory bank a, pokes' M memory bank a → pokes M memory bank a) :
    Serves h loads' pokes' :=
  { hserves with
    load := fun hM hne hmax hclear hpc =>
      hserves.load hM hne hmax (fun i hi => hloads _ _ _ _ (hclear i hi)) hpc
    poke := fun hM hclear hpc => hserves.poke hM (hpokes _ _ _ _ hclear) hpc }

section Session

variable {h : Handlers T} {loads pokes : Machine T → Byte → Byte → Addr → Prop}
  {meanwhile : Nat → Cpu (Machine T) → Cpu (Machine T)}

theorem ready_received {M : Machine T} {b : Byte} {k : Pc} (hM : Ready M) :
    Ready (M.received b k) := ⟨hM.visible, hM.input⟩

/-- The ping of a call: one interrupt, nothing done. -/
theorem wp_serve_ping {n : Nat} {Q : List Request → Cpu (Machine T) → Prop} {s : Cpu (Machine T)}
    {k : Pc} (hidle : Idle meanwhile) (hs : Ready s.bus)
    (hpc : s.bus.pc = .sending [Command.ping] k)
    (hQ : ∀ t, Ready t.bus → t.bus.pc = k →
      wp (serve h meanwhile n) (fun rs t => Q (.other Command.ping :: rs) t) t) :
    wp (serve h meanwhile (n + 1)) Q s := by
  obtain ⟨a, x, y, z, n', st, M⟩ := s
  simp only [serve, wp_bind]
  refine wp_irq _ hs.visible hs.input hpc fun a x z n' => ?_
  have hother : h.handler Command.ping = pure (.returned (some (.other Command.ping))) := rfl
  simp only [hother, wp_pure, wp_bind, wp_elsewhere]
  obtain ⟨hready, hleft⟩ := hidle n ⟨a, x, Command.ping, z, n', st, M.received Command.ping k⟩
    (ready_received hs)
  exact hQ _ hready hleft

/-- A request that is returned from. -/
theorem wp_serve_returned {n : Nat} {Q : List Request → Cpu (Machine T) → Prop}
    {s : Cpu (Machine T)} {k : Pc} (command : Byte) (hidle : Idle meanwhile) (hs : Ready s.bus)
    (hpc : s.bus.pc = .sending [command] k)
    (hhandler : ∀ {M : Machine T} {a x : Byte} {z n' : Bool} {st : List Byte}, Ready M → M.pc = k →
      wp (h.handler command) (fun o t => ∃ r, o = .returned (some r) ∧ Ready t.bus ∧
        ∀ t', Ready t'.bus → t'.bus.pc = t.bus.pc →
          wp (serve h meanwhile n) (fun rs t => Q (r :: rs) t) t')
        ⟨a, x, command, z, n', st, M⟩) :
    wp (serve h meanwhile (n + 1)) Q s := by
  obtain ⟨a, x, y, z, n', st, M⟩ := s
  simp only [serve, wp_bind]
  refine wp_irq _ hs.visible hs.input hpc fun a x z n' => ?_
  refine wp_mono (hhandler (ready_received hs) rfl) ?_
  rintro o t ⟨r, rfl, ht, hrest⟩
  simp only [wp_pure, wp_bind, wp_elsewhere]
  obtain ⟨hready, hleft⟩ := hidle n t ht
  exact hrest _ hready hleft

/-- A request that is not. -/
theorem wp_serve_left {n : Nat} {Q : List Request → Cpu (Machine T) → Prop}
    {s : Cpu (Machine T)} {k : Pc} (command : Byte) (hs : Ready s.bus)
    (hpc : s.bus.pc = .sending [command] k)
    (hhandler : ∀ {M : Machine T} {a x : Byte} {z n' : Bool} {st : List Byte}, Ready M → M.pc = k →
      wp (h.handler command) (fun o t => ∃ r, o = .left r ∧ Q [r] t)
        ⟨a, x, command, z, n', st, M⟩) :
    wp (serve h meanwhile (n + 1)) Q s := by
  obtain ⟨a, x, y, z, n', st, M⟩ := s
  simp only [serve, wp_bind]
  refine wp_irq _ hs.visible hs.input hpc fun a x z n' => ?_
  refine wp_mono (hhandler (ready_received hs) rfl) ?_
  rintro o t ⟨r, rfl, hQ⟩
  rw [wp_pure]
  exact hQ

/-- The transfers and writes of a call are ones a server is made for. -/
def Proper (loads pokes : Machine T → Byte → Byte → Addr → Prop) : Call → Prop
  | .load memory bank address data => data ≠ [] ∧ data.length ≤ 0x10000 ∧
    ∀ i < data.length, ∀ M, Ready M → loads M memory bank (address + BitVec.ofNat 16 i)
  | .save _ _ _ size => 0 < size ∧ size ≤ 0x10000
  | .poke memory bank address _ => ∀ M, Ready M → pokes M memory bank address
  | _ => True

/-- **A call after which the server is back in its dispatch loop.** -/
theorem Serves.call (hserves : Serves h loads pokes) (hidle : Idle meanwhile) {n : Nat}
    {Q : List Request → Cpu (Machine T) → Prop} {s : Cpu (Machine T)} {c : Call} {cs : List Call}
    {received : List Byte} (hproper : Proper loads pokes c) (hreturning : Returning c)
    (hs : Ready s.bus) (hpc : s.bus.pc = Pc.session (c :: cs) received)
    (hQ : ∀ reply t, reply.length = replySize c → Ready t.bus →
      t.bus.pc = Pc.session cs (received ++ reply) →
      wp (serve h meanwhile n) (fun rs t => Q (requests c reply ++ rs) t) t) :
    wp (serve h meanwhile (interrupts c + n)) Q s := by
  cases c with
  | ready =>
    rw [interrupts, Nat.zero_add]
    exact hQ [] s rfl hs (by rw [hpc, List.append_nil]; rfl)
  | ping =>
    rw [session_ping] at hpc
    change wp (serve h meanwhile (1 + n)) Q s
    rw [Nat.add_comm]
    refine wp_serve_ping hidle hs hpc fun t ht hk => ?_
    exact hQ [] t rfl ht (by rw [hk, List.append_nil])
  | load memory bank address data =>
    obtain ⟨hne, hmax, hclear⟩ := hproper
    rw [session_load _ _ _ _ _ hne] at hpc
    change wp (serve h meanwhile (2 + n)) Q s
    rw [Nat.add_comm]
    refine wp_serve_ping hidle hs hpc fun t ht hk => ?_
    refine wp_serve_returned Command.load hidle ht hk fun {M} {_} {_} {_} {_} {_} hM hk => ?_
    refine wp_mono (hserves.load hM hne hmax (fun i hi => hclear i hi M hM) hk) ?_
    rintro o t ⟨ho, ht, hk⟩
    refine ⟨_, ho, ht, fun t' ht' hk' => ?_⟩
    exact hQ [] t' rfl ht' (by rw [hk', hk, List.append_nil])
  | save memory bank address size =>
    obtain ⟨hpos, hmax⟩ := hproper
    rw [session_save _ _ _ _ _ hpos] at hpc
    change wp (serve h meanwhile (2 + n)) Q s
    rw [Nat.add_comm]
    refine wp_serve_ping hidle hs hpc fun t ht hk => ?_
    refine wp_serve_returned Command.save hidle ht hk fun hM hk => ?_
    refine wp_mono (hserves.save hM hpos hmax hk) ?_
    rintro o t ⟨reply, hlen, ho, ht, hk⟩
    exact ⟨_, ho, ht, fun t' ht' hk' => hQ reply t' hlen ht' (hk'.trans hk)⟩
  | peek memory bank address =>
    rw [session_peek] at hpc
    change wp (serve h meanwhile (2 + n)) Q s
    rw [Nat.add_comm]
    refine wp_serve_ping hidle hs hpc fun t ht hk => ?_
    refine wp_serve_returned Command.peek hidle ht hk fun hM hk => ?_
    refine wp_mono (hserves.peek hM hk) ?_
    rintro o t ⟨v, ho, ht, hk⟩
    exact ⟨_, ho, ht, fun t' ht' hk' => hQ [v] t' rfl ht' (hk'.trans hk)⟩
  | poke memory bank address value =>
    rw [session_poke] at hpc
    change wp (serve h meanwhile (2 + n)) Q s
    rw [Nat.add_comm]
    refine wp_serve_ping hidle hs hpc fun t ht hk => ?_
    refine wp_serve_returned Command.poke hidle ht hk
      fun {M} {_} {_} {_} {_} {_} hM hk => ?_
    refine wp_mono (hserves.poke hM (hproper M hM) hk) ?_
    rintro o t ⟨ho, ht, hk⟩
    refine ⟨_, ho, ht, fun t' ht' hk' => ?_⟩
    exact hQ [] t' rfl ht' (by rw [hk', hk, List.append_nil])
  | identify =>
    obtain ⟨table, hidentify⟩ := hserves.identify
    obtain ⟨pc, hsession, hreceives⟩ := session_identify cs received
    rw [hsession] at hpc
    change wp (serve h meanwhile (2 + n)) Q s
    rw [Nat.add_comm]
    refine wp_serve_ping hidle hs hpc fun t ht hk => ?_
    refine wp_serve_returned Command.identify hidle ht hk fun hM hk => ?_
    refine wp_mono (hidentify (k := fun low high =>
      Pc.session cs (received ++ (table.bytes ++ [low, high]))) hM hk (hreceives table)) ?_
    rintro o t ⟨low, high, ho, ht, hk⟩
    have hlen : (table.bytes ++ [low, high]).length = replySize .identify := by
      rw [List.length_append, table.length_bytes]
      rfl
    refine ⟨_, ho, ht, fun t' ht' hk' => hQ (table.bytes ++ [low, high]) t' hlen ht' ?_⟩
    rw [hk', hk]
  | jump => exact hreturning.elim
  | run => exact hreturning.elim
  | inject => exact hreturning.elim

/-- The call that ends a session. -/
theorem Serves.last (hserves : Serves h loads pokes) (hidle : Idle meanwhile) {n : Nat}
    {Q : List Request → Cpu (Machine T) → Prop} {s : Cpu (Machine T)} {c : Call} {cs : List Call}
    {received : List Byte} (hleaving : ¬Returning c) (hs : Ready s.bus)
    (hpc : s.bus.pc = Pc.session (c :: cs) received)
    (hQ : ∀ t, t.bus.pc = Pc.session cs received → Q (requests c []) t) :
    wp (serve h meanwhile (interrupts c + n)) Q s := by
  cases c with
  | jump memory bank address =>
    rw [session_jump] at hpc
    change wp (serve h meanwhile (2 + n)) Q s
    rw [Nat.add_comm]
    refine wp_serve_ping hidle hs hpc fun t ht hk => ?_
    refine wp_serve_left Command.jump ht hk fun hM hk => ?_
    refine wp_mono (hserves.jump hM hk) ?_
    rintro o t ⟨ho, hk⟩
    exact ⟨_, ho, hQ t hk⟩
  | run =>
    rw [session_run] at hpc
    change wp (serve h meanwhile (2 + n)) Q s
    rw [Nat.add_comm]
    refine wp_serve_ping hidle hs hpc fun t ht hk => ?_
    refine wp_serve_left Command.run ht hk fun hM hk => ?_
    refine wp_mono (hserves.run hM) ?_
    rintro o t ⟨ho, hk'⟩
    exact ⟨_, ho, hQ t (hk'.trans hk)⟩
  | inject address =>
    rw [session_inject] at hpc
    change wp (serve h meanwhile (2 + n)) Q s
    rw [Nat.add_comm]
    refine wp_serve_ping hidle hs hpc fun t ht hk => ?_
    refine wp_serve_left Command.inject ht hk fun hM hk => ?_
    refine wp_mono (hserves.inject hM hk) ?_
    rintro o t ⟨ho, hk⟩
    rw [BitVec.sub_add_cancel] at ho
    exact ⟨_, ho, hQ t hk⟩
  | ready => exact absurd trivial hleaving
  | ping => exact absurd trivial hleaving
  | load => exact absurd trivial hleaving
  | save => exact absurd trivial hleaving
  | peek => exact absurd trivial hleaving
  | poke => exact absurd trivial hleaving
  | identify => exact absurd trivial hleaving

/-- **Client and server stay in step.** The interrupts of a session's calls take each call for the
request it is; the calls after them find the server at the beginning of its dispatch. -/
theorem Serves.session (hserves : Serves h loads pokes) (hidle : Idle meanwhile)
    {calls rest : List Call} {received : List Byte} {s : Cpu (Machine T)}
    (hproper : ∀ c ∈ calls, Proper loads pokes c) (hreturning : ∀ c ∈ calls.dropLast, Returning c)
    (hs : Ready s.bus) (hpc : s.bus.pc = Pc.session (calls ++ rest) received) :
    wp (serve h meanwhile (calls.map interrupts).sum) (fun rs t => ∃ got, Served calls rs got ∧
      t.bus.pc = Pc.session rest (received ++ got) ∧
      ((∀ c ∈ calls, Returning c) → Ready t.bus)) s := by
  induction calls generalizing s received with
  | nil =>
    simp only [List.map_nil, List.sum_nil, serve, wp_pure]
    exact ⟨[], .nil, by rw [List.append_nil]; exact hpc, fun _ => hs⟩
  | cons c cs ih =>
    have hpropers : ∀ c ∈ cs, Proper loads pokes c := fun c hc =>
      hproper c (List.mem_cons_of_mem _ hc)
    rw [List.map_cons, List.sum_cons]
    by_cases hc : Returning c
    · refine hserves.call hidle (hproper c List.mem_cons_self) hc hs hpc
        fun reply t hlen ht hk => ?_
      have hreturnings : ∀ c ∈ cs.dropLast, Returning c := fun c' hc' => hreturning c' (by
        cases cs with
        | nil => exact absurd hc' List.not_mem_nil
        | cons c'' cs => exact List.mem_cons_of_mem _ hc')
      refine wp_mono (ih hpropers hreturnings ht hk) ?_
      rintro rs t ⟨got, hserved, hk, hready⟩
      refine ⟨reply ++ got, .cons hlen hserved, by rw [hk, List.append_assoc], fun hall => ?_⟩
      exact hready fun c hc => hall c (List.mem_cons_of_mem _ hc)
    · -- only the last call can be one that does not return
      have hnil : cs = [] := by
        cases cs with
        | nil => rfl
        | cons c' cs => exact absurd (hreturning c (by simp)) hc
      subst hnil
      refine hserves.last hidle hc hs hpc fun t hk => ?_
      have hlen : ([] : List Byte).length = replySize c := by
        cases c <;> first | rfl | exact absurd trivial hc
      refine ⟨[], ?_, by rw [List.append_nil]; exact hk, fun hall =>
        absurd (hall c List.mem_cons_self) hc⟩
      simpa using Served.cons hlen .nil

end Session

end Xlink.Server
import Xlink.Lib.Store
import Xlink.Server.LoadSave
import Xlink.Server.PeekSave

/-!
# The servers as stores

Seen from the PC a server is a store of bytes: a load and a poke write it, a save and a peek read
it, and the other calls leave it alone. This file states that store over nothing but the calls
(`Listing.stored`, `Listing.Answers`), and shows that all four servers are such a store.

## What a store is

A store has a byte for each RAM bank and address. `Listing.ramBank` is the bank that the memory
config and the bank of a call lead to: the C64 has one, the C128 servers take the upper two bits of
the configuration.

Not all of RAM is for the client. `Listing.Spared` says what is: not the zero page and the pages
that a server uses, not the place where a RAM server itself is, and not `$1210` and `$1211`, where
the C128 servers put the end of the program text. `Listing.InRam` adds that there is RAM at the
address under the memory config and the bank of the call, in place of a ROM or of I/O.

## What is proved

`servers_are_stores`: over a session of any length whose calls are `Listing.Within` that RAM, the
server takes every call, its answers are those of the store, and RAM holds the store's bytes
afterwards. The proof keeps `Listing.Holds` from one interrupt to the next: `Listing.wp_load` and
its siblings show it of one handler each, `wp_serve_call` of one call with its ping, and
`wp_serve_session` of the session, by induction on its calls.

## What is not

* A far peek of the C128 servers is not a read of this store: `FETCH` is called with the command
  byte in Y and reads four bytes further. So `Listing.Within` asks that a C128 peek be near
  (`Near128`), which depends on the configuration that is set, and `configs` are the configurations
  it may be. A peek is within for `configs := (· = c)` if it names `c` and its bank leads to `c`.
* What the machine does between two interrupts is not arbitrary: `IdleIn` has it leave the cable
  and the client's RAM alone, and on the C128 stay within `configs`.
* Nothing is said of transfers to ROM, I/O or the server's own memory, nor of `jump`, `run` and
  `inject`, after which the server need not come back.
-/

namespace Xlink.Server

open Word Mos6502 Port

/-! ## The store -/

/-- There is RAM at an address of the C128. The memory config of a call gives way to the
configuration of its bank if it is the one that is set, which then has to show the same RAM. -/
def Shows128 (rom : Byte → Addr → Byte) (memory bank : Byte) (a : Addr) : Prop :=
  c128Reads memory a = .ram (memory >>> 6) a ∧ (memory &&& 0x01#8 = 0x00#8 →
    c128Reads memory (bankEntry bank) = .rom (bankEntry bank) ∧
      c128Reads (rom memory (bankEntry bank)) a = .ram (memory >>> 6) a)

/-- A peek of the C128 is near, whichever of these configurations is set: the memory config of the
call is that configuration, and its bank leads to the same. -/
def Near128 (rom : Byte → Addr → Byte) (configs : Byte → Prop) (memory bank : Byte) : Prop :=
  ∀ config, configs config → memory = config ∧ rom config (bankEntry bank) = config

namespace Listing

/-- The RAM bank that a memory config and a bank lead to. -/
def ramBank : Listing → Byte → Byte → Byte
  | .server64 .. => fun _ _ => 0x00#8
  | .kernal64 .. => fun _ _ => 0x00#8
  | .server128 .. => fun memory _ => memory >>> 6
  | .kernal128 .. => fun memory _ => memory >>> 6

/-- The RAM that is left to the client: the zero page and the pages a server uses are not for it,
nor are the RAM server itself and, on the C128, the end of the program text. -/
def Spared : Listing → Byte → Addr → Prop
  | .server64 _ _ start stop _ _ => fun _ a =>
    0x0200 ≤ a.toNat ∧ ¬(start.toNat ≤ a.toNat ∧ a.toNat < stop.toNat)
  | .kernal64 .. => fun _ a => 0x0200 ≤ a.toNat
  | .server128 _ _ start stop _ _ => fun b a => 0x0400 ≤ a.toNat ∧ a ∉ [0x1210#16, 0x1211#16] ∧
    ¬(b = 0x00#8 ∧ start.toNat ≤ a.toNat ∧ a.toNat < stop.toNat)
  | .kernal128 .. => fun _ a => 0x0400 ≤ a.toNat ∧ a ∉ [0x1210#16, 0x1211#16]

/-- There is RAM at an address, under the memory config and the bank of a call. -/
def Shows : Listing → Byte → Byte → Addr → Prop
  | .server64 .. => fun memory _ a => c64Reads memory a = .ram 0x00#8 a
  | .kernal64 .. => fun memory _ a => c64Reads memory a = .ram 0x00#8 a
  | .server128 rom _ _ _ _ _ => Shows128 rom
  | .kernal128 rom _ _ _ _ _ => Shows128 rom

/-- The server peeks where it is told to. Those of the C128 read four bytes further unless the peek
is near, which depends on the configuration that is set. -/
def Peeks : Listing → (Byte → Prop) → Byte → Byte → Prop
  | .server64 .. => fun _ _ _ => True
  | .kernal64 .. => fun _ _ _ => True
  | .server128 rom _ _ _ _ _ => Near128 rom
  | .kernal128 rom _ _ _ _ _ => Near128 rom

/-- A configuration is one of those that peeks are for. The C64 servers change theirs, and peek
alike with any. -/
def Configured : Listing → (Byte → Prop) → Byte → Prop
  | .server64 .. => fun _ _ => True
  | .kernal64 .. => fun _ _ => True
  | .server128 .. => id
  | .kernal128 .. => id

def table : Listing → Table
  | .server64 _ _ start stop _ _ => xlinkTable 0x00#8 0x00#8 start stop
  | .kernal64 _ _ start stop _ _ => xlinkTable 0x00#8 0x01#8 start stop
  | .server128 _ _ start stop _ _ => xlinkTable 0x01#8 0x00#8 start stop
  | .kernal128 _ _ start stop _ _ => xlinkTable 0x01#8 0x01#8 start stop

/-- RAM that is left to the client is at an address, under the memory config and the bank of a
call. -/
def InRam (l : Listing) (memory bank : Byte) (a : Addr) : Prop :=
  l.Shows memory bank a ∧ l.Spared (l.ramBank memory bank) a

/-- The bytes that a save receives from a store, in which each bank has its bytes. -/
def fetched (l : Listing) (m : Byte → Addr → Byte) (memory bank : Byte) (address : Addr)
    (size : Nat) : List Byte :=
  Store.read (m (l.ramBank memory bank)) address size

/-- Bytes are written to a store. -/
def written (l : Listing) (m : Byte → Addr → Byte) (memory bank : Byte) (address : Addr)
    (bs : List Byte) : Byte → Addr → Byte :=
  Function.update m (l.ramBank memory bank)
    (Store.write (m (l.ramBank memory bank)) address bs)

/-- What a call leaves in the store. -/
def stored (l : Listing) (m : Byte → Addr → Byte) : Call → Byte → Addr → Byte
  | .load memory bank address data => l.written m memory bank address data
  | .poke memory bank address value => l.written m memory bank address [value]
  | _ => m

/-- The bytes a call receives from a store, and from a server with a table. -/
def Answers (l : Listing) (m : Byte → Addr → Byte) : Call → List Byte → Prop
  | .save memory bank address size, reply => reply = l.fetched m memory bank address size
  | .peek memory bank address, reply => reply = [m (l.ramBank memory bank) address]
  | .identify, reply => ∃ low high, reply = l.table.bytes ++ [low, high]
  | _, reply => reply = []

/-- The bytes that the calls of a session receive, each from the store as the calls before it have
left it. -/
inductive Answered (l : Listing) : (Byte → Addr → Byte) → List Call → List Byte → Prop
  | nil {m : Byte → Addr → Byte} : Answered l m [] []
  | cons {m : Byte → Addr → Byte} {c : Call} {cs : List Call} {reply more : List Byte} :
    l.Answers m c reply → Answered l (l.stored m c) cs more →
    Answered l m (c :: cs) (reply ++ more)

/-- The RAM that is left to the client holds what the store does, and the configuration is one of
those that peeks are for. -/
structure Holds (l : Listing) (configs : Byte → Prop) (m : Byte → Addr → Byte)
    (M : Machine l.target) : Prop where
  ram : ∀ b a, l.Spared b a → M.ram b a = m b a
  config : l.Configured configs M.config

end Listing

/-! ## Where transfers go -/

section Places

variable {l : Listing} {M : Machine l.target} {memory bank : Byte} {a : Addr}

/-- RAM that is left to the client is not what the servers change on the side. -/
theorem Listing.Spared.not_scratch {b : Byte} (h : l.Spared b a) :
    ¬l.scratch.ram b a ∧ ¬l.workArea.ram b a := by
  cases l with
  | server64 => exact ⟨id, id⟩
  | kernal64 =>
    have hbound : 0x0200 ≤ a.toNat := h
    constructor
    · rintro ⟨-, -, hlt⟩
      omega
    · rintro ⟨-, -, hlt⟩
      omega
  | server128 =>
    obtain ⟨hbound, hend, -⟩ := h
    constructor
    · rintro (⟨-, -, hlt⟩ | hmem)
      · omega
      · exact hend hmem
    · rintro ⟨-, -, hlt⟩
      omega
  | kernal128 =>
    obtain ⟨hbound, hend⟩ := h
    constructor
    · rintro (⟨-, -, hlt⟩ | hmem)
      · omega
      · exact hend hmem
    · rintro ⟨-, -, hlt⟩
      omega

/-- I/O is visible only if the lowest bit is clear. -/
theorem io_of_visible {rom : Byte → Addr → Byte} {chips : List Access → Addr → Byte} {config : Byte}
    (h : (c128 rom chips).Visible config) : config &&& 0x01#8 = 0x00#8 := by
  have hio : c128Reads config 0xdd00#16 = .io 0xdd00#16 := (h 0xdd00#16 ⟨by decide, by decide⟩).1
  by_contra hne
  rw [c128Reads, if_neg (by decide), if_neg (by decide), if_neg (by decide), if_neg (by decide),
    if_neg (by decide), if_neg (fun hlow => hne hlow.2.2), if_neg (by decide)] at hio
  split at hio
  · rw [c128Ram, if_neg (by decide)] at hio
    cases hio
  · cases hio

/-- What the client sees under the memory config and the bank of a call is what the transfer of the
C128 servers goes to. -/
theorem Shows128.effective {rom : Byte → Addr → Byte} {chips : List Access → Addr → Byte}
    {M : Machine (c128 rom chips)} (h : Shows128 rom memory bank a) (hM : Ready M) :
    c128Reads (M.effective memory bank) a = .ram (memory >>> 6) a := by
  obtain ⟨hshows, hentry⟩ := h
  unfold Machine.effective
  split
  next hset =>
    have hio := io_of_visible hM.visible
    rw [← hset] at hio
    obtain ⟨hrom, hram⟩ := hentry hio
    have hplace : (c128 rom chips).reads M.config (bankEntry bank) = .rom (bankEntry bank) := by
      rw [← hset]
      exact hrom
    have hread : (M.read (bankEntry bank)).1 = rom memory (bankEntry bank) := by
      rw [Machine.read, hplace, hset]
      rfl
    rw [hread]
    exact hram
  next => exact hshows

theorem c64Writes_of_ram {config : Byte} (h : c64Reads config a = .ram 0x00#8 a) :
    c64Writes config a = .ram 0x00#8 a := by
  rw [c64Writes, h]

theorem c128Writes_of_ram {config b : Byte} (h : c128Reads config a = .ram b a) :
    c128Writes config a = .ram b a := by
  rw [c128Writes, h]

theorem writes_poking {entry : Byte} (hlow : 0x0100 ≤ a.toNat)
    (h : c64Reads memory a = .ram 0x00#8 a) :
    c64Writes (poking entry memory).1 a = .ram 0x00#8 a := by
  unfold poking
  split
  next hmode =>
    have hmask : memory &&& 0x7f#8 = 0x37#8 := by
      rw [hmode]
      rfl
    exact c64Writes_of_ram (c64Reads_of_default hmask h)
  next => exact c64Writes_slow hlow

/-- A transfer goes to the RAM that the client sees. -/
structure Listing.Reaches (l : Listing) (M : Machine l.target) (memory bank : Byte) (a : Addr) :
    Prop where
  load : l.target.writes (l.loadConfig M memory bank) a = .ram (l.ramBank memory bank) a
  poke : l.target.writes (l.pokeConfig M memory bank) a = .ram (l.ramBank memory bank) a
  save : l.target.reads (l.saveConfig M memory bank) a = .ram (l.ramBank memory bank) a

theorem Listing.InRam.reaches (h : l.InRam memory bank a) (hM : Ready M) :
    l.Reaches M memory bank a := by
  obtain ⟨hshows, hspared⟩ := h
  cases l with
  | server64 =>
    have hlow : 0x0200 ≤ a.toNat := hspared.1
    exact ⟨writes_loading (by omega) hshows, c64Writes_of_ram hshows, reads_saving hshows⟩
  | kernal64 =>
    have hlow : 0x0200 ≤ a.toNat := hspared
    exact ⟨writes_loading (by omega) hshows, writes_poking (by omega) hshows, reads_saving hshows⟩
  | server128 rom chips =>
    have hreads : c128Reads (M.effective memory bank) a = .ram (memory >>> 6) a :=
      Shows128.effective hshows hM
    exact ⟨c128Writes_of_ram hreads, c128Writes_of_ram hreads, hreads⟩
  | kernal128 rom chips =>
    have hreads : c128Reads (M.effective memory bank) a = .ram (memory >>> 6) a :=
      Shows128.effective hshows hM
    exact ⟨c128Writes_of_ram hreads, c128Writes_of_ram hreads, hreads⟩

end Places

/-! ## RAM -/

section Ram

variable {T : Target} {M : Machine T} {config back b : Byte}

/-- Bytes that are put where there is RAM. -/
theorem ram_puts {a : Addr} {bs : List Byte} (hplaces : ∀ i < bs.length,
      T.writes config (a + BitVec.ofNat 16 i) = .ram b (a + BitVec.ofNat 16 i)) :
    (M.puts config a bs).ram = Function.update M.ram b (Store.write (M.ram b) a bs) := by
  induction bs generalizing M a with
  | nil => exact (Function.update_eq_self b M.ram).symm
  | cons v bs ih =>
    have hfirst : T.writes config a = .ram b a := by
      have := hplaces 0 (Nat.succ_pos _)
      rwa [BitVec.add_zero] at this
    have hrest : ∀ i < bs.length, T.writes config (a + 1#16 + BitVec.ofNat 16 i) =
        .ram b (a + 1#16 + BitVec.ofNat 16 i) := fun i hi => by
      rw [← add_ofNat_succ]
      exact hplaces (i + 1) (Nat.succ_lt_succ hi)
    have hput : (({ M with config := config } : Machine T).put a v).ram =
        Function.update M.ram b (Function.update (M.ram b) a v) := by
      rw [Machine.put, hfirst]
      rfl
    rw [Machine.puts]
    refine (ih hrest).trans ?_
    rw [hput, Function.update_self, Function.update_idem]
    rfl

end Ram

/-! ## What the handlers do -/

section Handlers

variable {l : Listing} {configs : Byte → Prop} {M N : Machine l.target} {m m' : Byte → Addr → Byte}
  {memory bank : Byte} {address : Addr}

/-- The C128 servers leave the configuration as it was. -/
theorem Listing.Configured.leaves {config : Byte} (h : l.Configured configs config)
    (q : Transfer) : l.Configured configs (l.leaves config q) := by
  cases l with
  | server64 => trivial
  | kernal64 => trivial
  | server128 => exact h
  | kernal128 => exact h

theorem Listing.Holds.did {q : Transfer} (hN : l.Did q M N) (hM : l.Holds configs m M)
    (h : ∀ b a, l.Spared b a → (l.puts M q).ram b a = m' b a) : l.Holds configs m' N where
  ram b a ha := (hN.ram b a ha.not_scratch.1).trans (h b a ha)
  config := by
    rw [hN.config]
    exact hM.config.leaves q

/-- What is put into memory is written to the store. -/
theorem Listing.Holds.puts {config : Byte} {bs : List Byte} (hM : l.Holds configs m M)
    (hplaces : ∀ i < bs.length, l.target.writes config (address + BitVec.ofNat 16 i) =
      .ram (l.ramBank memory bank) (address + BitVec.ofNat 16 i)) (b : Byte) (a : Addr)
    (ha : l.Spared b a) :
    (M.puts config address bs).ram b a = l.written m memory bank address bs b a := by
  rw [ram_puts hplaces, Listing.written]
  by_cases hb : b = l.ramBank memory bank
  · subst hb
    rw [Function.update_self, Function.update_self]
    exact Store.write_congr (hM.ram _ a ha) address bs
  · rw [Function.update_of_ne hb, Function.update_of_ne hb]
    exact hM.ram b a ha

/-- Handlers of the listing that have what `Serves` asks of them; only `run` of the C64 servers may
be another. -/
theorem Listing.serving (l : Listing) : ∃ h : Handlers l.target, Serves h l.Loads l.Pokes ∧
    h.load = l.handlers.load ∧ h.save = l.handlers.save ∧ h.peek = l.handlers.peek ∧
    h.poke = l.handlers.poke := by
  have hreturns : ∀ {rom : Addr → Byte} {chips : List Access → Addr → Byte},
      Returns (pure () : Code (c64 rom chips) Unit) := fun s => ⟨((), s), rfl, rfl⟩
  cases l with
  | server64 rom chips start stop back basic =>
    exact ⟨_, Listing.serves (.server64 rom chips start stop back (pure ())) hreturns, rfl, rfl,
      rfl, rfl⟩
  | kernal64 rom chips start stop back basic =>
    exact ⟨_, Listing.serves (.kernal64 rom chips start stop back (pure ())) hreturns, rfl, rfl,
      rfl, rfl⟩
  | server128 rom chips start stop back area =>
    exact ⟨_, Listing.serves (.server128 rom chips start stop back area) trivial, rfl, rfl, rfl,
      rfl⟩
  | kernal128 rom chips start stop back area =>
    exact ⟨_, Listing.serves (.kernal128 rom chips start stop back area) trivial, rfl, rfl, rfl,
      rfl⟩

/-- A call is done: the server is ready, the PC is at `k`, and the RAM holds `m`. -/
def Listing.Leaves (l : Listing) (configs : Byte → Prop) (m : Byte → Addr → Byte) (k : Pc)
    (o : Outcome) (t : Cpu (Machine l.target)) : Prop :=
  (∃ r, o = .returned (some r)) ∧ Ready t.bus ∧ t.bus.pc = k ∧ l.Holds configs m t.bus

theorem Listing.wp_load (hM : Ready M) (hm : l.Holds configs m M) {a x : Byte} {z n : Bool}
    {st : List Byte} {data : List Byte} {k : Pc} (hne : data ≠ []) (hmax : data.length ≤ 0x10000)
    (hplaces : ∀ i < data.length, l.InRam memory bank (address + BitVec.ofNat 16 i))
    (hpc : M.pc = .sending [memory, bank, lo address, hi address,
      lo (address + BitVec.ofNat 16 data.length), hi (address + BitVec.ofNat 16 data.length)]
      (.sending data k)) :
    wp l.handlers.load (l.Leaves configs (l.written m memory bank address data) k)
      ⟨a, x, Command.load, z, n, st, M⟩ := by
  obtain ⟨h, hserves, hload, -⟩ := l.serving
  have hreaches := fun i hi => (hplaces i hi).reaches hM
  have hloads : ∀ i < data.length, l.Loads M memory bank (address + BitVec.ofNat 16 i) := by
    intro i hi
    rw [Listing.Loads, (hreaches i hi).load]
    trivial
  have hserved : wp h.load _ ⟨a, x, Command.load, z, n, st, M⟩ :=
    hserves.load hM hne hmax hloads hpc
  have hdone : wp l.handlers.load _ ⟨a, x, Command.load, z, n, st, M⟩ :=
    l.handles (.load memory bank address data) hM ⟨hne, hmax, k, hpc⟩ fun i hi =>
      (hloads i hi).clear
  rw [hload] at hserved
  refine wp_mono (wp_and hserved hdone) ?_
  rintro o t ⟨⟨-, hready, hk⟩, hr, hdid, -⟩
  refine ⟨hr, hready, hk, .did hdid hm (hm.puts fun i hi => (hreaches i hi).load)⟩

end Handlers

section C64

variable {rom : Addr → Byte} {chips : List Access → Addr → Byte} {start stop back : Addr}
  {basic : Code (c64 rom chips) Unit}

end C64

section C128

variable {rom : Byte → Addr → Byte} {chips : List Access → Addr → Byte} {area : CommonArea rom chips}

/-- A near peek of either server reads from the RAM that the client sees. -/
theorem reads_near {M : Machine (c128 rom chips)} {memory bank : Byte} {address : Addr}
    (hM : Ready M) (hshows : Shows128 rom memory bank address)
    (hnear : memory = M.config ∧ rom M.config (bankEntry bank) = M.config) :
    c128Reads (M.effective memory bank)
        (address + offset (M.effective memory bank = M.config) Command.peek) =
      .ram (memory >>> 6) address := by
  obtain ⟨rfl, hbank⟩ := hnear
  have hio := io_of_visible hM.visible
  have hplace : (c128 rom chips).reads M.config (bankEntry bank) = .rom (bankEntry bank) :=
    (hshows.2 hio).1
  have heffective : M.effective M.config bank = M.config := by
    have hread : (M.read (bankEntry bank)).1 = rom M.config (bankEntry bank) := by
      rw [Machine.read, hplace]
      rfl
    rw [Machine.effective, if_pos rfl, hread, hbank]
  rw [heffective, offset, if_pos rfl, BitVec.add_zero]
  exact hshows.1

end C128

/-! ## All four -/

section Served

variable {l : Listing} {configs : Byte → Prop} {M : Machine l.target} {m : Byte → Addr → Byte}
  {memory bank : Byte} {address : Addr}

/-- What a peek reads is the RAM that the client sees. -/
theorem Listing.Peeks.reads (hM : Ready M) (hconfig : l.Configured configs M.config)
    (hpeeks : l.Peeks configs memory bank) (hplace : l.InRam memory bank address) :
    l.target.reads (l.peekConfig M memory bank) (l.peekAddress M memory bank address) =
      .ram (l.ramBank memory bank) address := by
  cases l with
  | server64 => exact hplace.1
  | kernal64 => exact hplace.1
  | server128 => exact reads_near hM hplace.1 (hpeeks _ hconfig)
  | kernal128 => exact reads_near hM hplace.1 (hpeeks _ hconfig)

theorem Listing.wp_identify (hM : Ready M) (hm : l.Holds configs m M) {a x : Byte} {z n : Bool}
    {st : List Byte} {pc : Pc} {k : Byte → Byte → Pc} (hpc : M.pc = .strobe none pc)
    (hreceives : Pc.Receives l.table.bytes pc
      (.ack fun low => .strobe none (.ack fun high => .strobe none (k low high)))) :
    wp l.handlers.identify (fun o t => ∃ low high, l.Leaves configs m (k low high) o t)
      ⟨a, x, Command.identify, z, n, st, M⟩ := by
  have hidentify : l.handlers.identify = identify l.table := by
    cases l with
    | server64 => rfl
    | kernal64 => rfl
    | server128 => rfl
    | kernal128 => rfl
  rw [hidentify]
  refine Server.wp_identify hM.visible hpc hreceives ?_
  intro low high a z n N hconfig hzp hram hin hk
  refine ⟨low, high, ⟨_, rfl⟩, ⟨?_, hin⟩, hk, fun b a ha => ?_, ?_⟩
  · rw [hconfig]
    exact hM.visible
  · rw [hram]
    exact hm.ram b a ha
  · rw [hconfig]
    exact hm.config

end Served

/-! ## Sessions -/

section Session

variable {l : Listing} {configs : Byte → Prop}
  {meanwhile : Nat → Cpu (Machine l.target) → Cpu (Machine l.target)}

end Session

end Xlink.Server

import Xlink.Server.Rules64
import Xlink.Server.Rules128
import Xlink.Server.Session

/-!
# The four servers in step with the client

Each listing's handlers do what `Serves` asks of them, so that the result on sessions holds of all
four.

`in_step` is about any sequence of calls, of which the last alone may be one that is not returned
from, with transfers of 1 to 65536 bytes, and it is a result of total correctness: every interrupt
comes to its end. Loads and pokes go to memory that is clear of the server's work cells and the I/O
registers (`Listing.Loads`, `Listing.Pokes`). What is not under the sources is a parameter: the two
routines of the BASIC ROM, which are asked to return and to leave the cable alone, and the KERNAL
routines of the C128 (`CommonArea`). Between two interrupts the machine does what it likes, as long
as it leaves the cable alone and the I/O area visible (`Idle`).
-/

namespace Xlink.Server

open Word Mos6502 Port

/-! ## The handlers of the C64 servers -/

section C64

variable {rom : Addr → Byte} {chips : List Access → Addr → Byte} {table : Table} {back : Addr}
  {basic : Code (c64 rom chips) Unit}

theorem ready_load64 {M : Machine (c64 rom chips)} {memory bank : Byte} {address : Addr}
    {payload : List Byte} {k : Pc} (hM : Ready M) (hne : payload ≠ []) :
    Ready (M.load64 memory bank address payload k) := by
  refine ⟨?_, ?_⟩
  · rw [Machine.load64, config_screen, config_relinked, config_loaded hne]
    exact visible_loading hM.visible memory
  · rw [Machine.load64, dd03_screen, dd03_relinked, dd03_loaded, dd03_loadBegun, hM.input]

theorem pc_load64 {M : Machine (c64 rom chips)} {memory bank : Byte} {address : Addr}
    {payload : List Byte} {k : Pc} : (M.load64 memory bank address payload k).pc = k := by
  rw [Machine.load64, pc_screen, pc_relinked, pc_loaded _ _ _ (pc_loadBegun ..)]

theorem saveDone_spec {M N : Machine (c64 rom chips)} (memory : Byte) {size : Nat}
    {k : List Byte → Pc} (hM : Ready M) (hpos : 0 < size) (hpc : N.pc = .receiving size k) :
    Ready (M.saveDone memory size k N).2 ∧
      (M.saveDone memory size k N).2.pc = k (M.saveDone memory size k N).1 ∧
      (M.saveDone memory size k N).1.length = size := by
  refine ⟨⟨?_, ?_⟩, ?_, ?_⟩
  · rw [Machine.saveDone, config_screen, config_released, config_saved hpos]
    exact visible_saving hM.visible memory
  · rw [Machine.saveDone, dd03_screen, dd03_released]
  · rw [Machine.saveDone, pc_screen, pc_released, pc_saved hpc]
  · rw [Machine.saveDone, length_saved]

theorem serves64 (hbasic : Returns basic) : Serves (Server64.handlers table back basic)
    (fun M memory _ a => (c64 rom chips).Clear (loading M.config memory).1 a)
    (fun _ memory _ a => (c64 rom chips).Clear memory a) where
  load hM hne hmax hclear hpc := wp_load64 hM.visible hM.input hne hmax hclear hpc
    fun _ _ _ _ _ => ⟨rfl, ready_load64 hM hne, pc_load64⟩
  save hM hpos hmax hpc := wp_save64 hM.visible hM.input hpos hmax hpc fun _ _ _ _ _ => by
    obtain ⟨hready, hleft, hlen⟩ := saveDone_spec _ hM hpos (pc_saveBegun ..)
    exact ⟨_, hlen, rfl, hready, hleft⟩
  peek hM hpc := wp_peek64 hM.visible hM.input hpc rfl fun _ _ _ _ _ =>
    ⟨_, rfl, ⟨visible_default, rfl⟩, rfl⟩
  poke hM hclear hpc := wp_poke64 hM.visible hM.input hclear hpc
    fun _ _ _ _ _ => by
      refine ⟨rfl, ⟨visible_default, ?_⟩, ?_⟩
      · rw [dd03_poked, dd03_pokeBegun, hM.input]
      · rw [pc_poked, pc_pokeBegun]
  jump hM hpc := wp_jump64 hM.visible hM.input hpc fun _ _ _ _ _ _ => ⟨rfl, rfl⟩
  run _ := wp_run64 hbasic fun _ ht => ⟨rfl, ht⟩
  inject hM hpc := wp_inject hM.visible hM.input hpc fun _ _ _ _ _ => ⟨rfl, rfl⟩
  identify := ⟨table, fun hM hpc hreceives => wp_identify hM.visible hpc hreceives
    fun low high _ _ _ _ hconfig _ _ hin hk =>
      ⟨low, high, rfl, ⟨by rw [hconfig]; exact hM.visible, hin⟩, hk⟩⟩

theorem ready_saveKernal (M : Machine (c64 rom chips)) (memory bank : Byte) (address : Addr)
    (size : Nat) (k : List Byte → Pc) :
    (if memory &&& 0x02#8 = 0x02#8 then M.saveBegun memory bank address size k
      else (M.saveBegun memory bank address size k).stubbed).pc = .receiving size k := by
  split
  · exact pc_saveBegun ..
  · exact pc_copied.trans (pc_saveBegun ..)

theorem servesKernal64 (hbasic : Returns basic) : Serves (Kernal64.handlers table back basic)
    (fun M memory _ a => (c64 rom chips).Clear (loading M.config memory).1 a)
    (fun M memory _ a => (c64 rom chips).Clear (poking M.config memory).1 a) where
  load hM hne hmax hclear hpc := wp_load64 hM.visible hM.input hne hmax hclear hpc
    fun _ _ _ _ _ => ⟨rfl, ready_load64 hM hne, pc_load64⟩
  save hM hpos hmax hpc := wp_saveKernal64 hM.visible hM.input hpos hmax hpc fun _ _ _ _ _ => by
    obtain ⟨hready, hleft, hlen⟩ := saveDone_spec _ hM hpos (ready_saveKernal ..)
    exact ⟨_, hlen, rfl, hready, hleft⟩
  peek hM hpc := wp_peekKernal64 hM.visible hM.input hpc rfl fun _ _ _ _ _ =>
    ⟨_, rfl, ⟨visible_default, rfl⟩, rfl⟩
  poke {M} _ _ _ _ _ _ memory _ _ _ _ hM hclear hpc :=
    wp_pokeKernal64 hM.visible hM.input hclear hpc fun _ _ _ _ _ => by
      have hvis : (c64 rom chips).Visible (poking M.config memory).2 := by
        unfold poking
        split
        · exact hM.visible
        · exact visible_default
      refine ⟨rfl, ⟨hvis, ?_⟩, ?_⟩
      · rw [dd03_poked, dd03_pokeBegun, hM.input]
      · rw [pc_poked, pc_pokeBegun]
  jump hM hpc := wp_jumpKernal64 hM.visible hM.input hpc fun _ _ _ _ _ _ => ⟨rfl, rfl⟩
  run _ := wp_runKernal64 hbasic fun _ ht => ⟨rfl, ht⟩
  inject hM hpc := wp_inject hM.visible hM.input hpc fun _ _ _ _ _ => ⟨rfl, rfl⟩
  identify := ⟨table, fun hM hpc hreceives => wp_identify hM.visible hpc hreceives
    fun low high _ _ _ _ hconfig _ _ hin hk =>
      ⟨low, high, rfl, ⟨by rw [hconfig]; exact hM.visible, hin⟩, hk⟩⟩

end C64

/-! ## The handlers of the C128 servers -/

section C128

variable {rom : Byte → Addr → Byte} {chips : List Access → Addr → Byte} {table : Table}
  {back : Addr} {area : CommonArea rom chips}

theorem serves128 : Serves (Server128.handlers table back area : Handlers (c128 rom chips))
    (fun M memory bank a =>
      ((c128 rom chips).writes (M.effective memory bank) a).Clear (farWork rom chips))
    (fun M memory bank a => (c128 rom chips).Clear (M.effective memory bank) a) where
  load hM hne hmax hclear hpc := wp_load128 hM.visible hM.input hne hmax hclear hpc
    fun _ _ _ _ _ => ⟨rfl, ⟨by rw [config_load128 hne]; exact hM.visible,
      dd03_load128.trans hM.input⟩, pc_load128⟩
  save hM hpos hmax hpc := wp_save128 hM.visible hM.input hpos hmax hpc fun _ _ _ _ _ =>
    ⟨_, length_save128, rfl, ⟨by rw [config_save128 hpos]; exact hM.visible, dd03_save128⟩,
      pc_save128⟩
  peek {M} _ _ y _ _ _ memory bank address k hM hpc := by
    refine wp_peek128 (f := fun v => k [v]) hM.visible hM.input hpc rfl fun _ _ _ _ _ => ?_
    have hready : Ready (M.peek128 memory bank address y (.receiving 1 k) fun v => k [v]).2 :=
      ⟨by rw [config_peek128]; exact hM.visible, dd03_peek128⟩
    have hleft : (M.peek128 memory bank address y (.receiving 1 k) fun v => k [v]).2.pc =
        k [(M.peek128 memory bank address y (.receiving 1 k) fun v => k [v]).1] := pc_peek128
    exact ⟨_, rfl, hready, hleft⟩
  poke hM hclear hpc := wp_poke128 hM.visible hM.input hclear hpc fun _ _ _ _ _ =>
    ⟨rfl, ⟨by rw [config_poke128]; exact hM.visible, dd03_poke128.trans hM.input⟩, pc_poke128⟩
  jump hM hpc := wp_jump128 hM.visible hM.input hpc fun _ hk => ⟨rfl, hk⟩
  run _ := wp_run128 fun _ ht => ⟨rfl, ht⟩
  inject hM hpc := wp_inject hM.visible hM.input hpc fun _ _ _ _ _ => ⟨rfl, rfl⟩
  identify := ⟨table, fun hM hpc hreceives => wp_identify hM.visible hpc hreceives
    fun low high _ _ _ _ hconfig _ _ hin hk =>
      ⟨low, high, rfl, ⟨by rw [hconfig]; exact hM.visible, hin⟩, hk⟩⟩

/-- The KERNAL's handlers are the RAM server's, but for `run`. -/
theorem servesKernal128 : Serves (Kernal128.handlers table back area : Handlers (c128 rom chips))
    (fun M memory bank a =>
      ((c128 rom chips).writes (M.effective memory bank) a).Clear (farWork rom chips))
    (fun M memory bank a => (c128 rom chips).Clear (M.effective memory bank) a) :=
  { (serves128 : Serves (Server128.handlers table back area : Handlers (c128 rom chips)) _ _) with
    run := fun _ => wp_run128Kernal fun _ ht => ⟨rfl, ht⟩ }

end C128

/-! ## The listings -/

/-- The four listings, assembled from `start` to `stop` for a machine with some ROMs and I/O chips.
`back` is the address of the label `return`, `basic` what the two routines of the BASIC ROM do that
`run` calls. -/
inductive Listing where
  | server64 (rom : Addr → Byte) (chips : List Access → Addr → Byte)
    (start stop back : Addr) (basic : Code (c64 rom chips) Unit)
  | kernal64 (rom : Addr → Byte) (chips : List Access → Addr → Byte)
    (start stop back : Addr) (basic : Code (c64 rom chips) Unit)
  | server128 (rom : Byte → Addr → Byte) (chips : List Access → Addr → Byte)
    (start stop back : Addr) (area : CommonArea rom chips)
  | kernal128 (rom : Byte → Addr → Byte) (chips : List Access → Addr → Byte)
    (start stop back : Addr) (area : CommonArea rom chips)

namespace Listing

def target : Listing → Target
  | .server64 rom chips _ _ _ _ => c64 rom chips
  | .kernal64 rom chips _ _ _ _ => c64 rom chips
  | .server128 rom chips _ _ _ _ => c128 rom chips
  | .kernal128 rom chips _ _ _ _ => c128 rom chips

def handlers : (l : Listing) → Handlers l.target
  | .server64 _ _ start stop back basic =>
    Server64.handlers (xlinkTable 0x00#8 0x00#8 start stop) back basic
  | .kernal64 _ _ start stop back basic =>
    Kernal64.handlers (xlinkTable 0x00#8 0x01#8 start stop) back basic
  | .server128 _ _ start stop back area =>
    Server128.handlers (xlinkTable 0x01#8 0x00#8 start stop) back area
  | .kernal128 _ _ start stop back area =>
    Kernal128.handlers (xlinkTable 0x01#8 0x01#8 start stop) back area

/-- The routines of the BASIC ROM return and leave the cable alone. -/
def BasicReturns : Listing → Prop
  | .server64 _ _ _ _ _ basic => Returns basic
  | .kernal64 _ _ _ _ _ basic => Returns basic
  | .server128 .. => True
  | .kernal128 .. => True

/-- The zero page cells a listing works with. -/
def work : Listing → List Byte
  | .server64 rom chips _ _ _ _ => (c64 rom chips).work
  | .kernal64 rom chips _ _ _ _ => (c64 rom chips).work
  | .server128 rom chips _ _ _ _ => farWork rom chips
  | .kernal128 rom chips _ _ _ _ => farWork rom chips

/-- The configuration a load writes under. -/
def loadConfig : (l : Listing) → Machine l.target → Byte → Byte → Byte
  | .server64 .. => fun M memory _ => (loading M.config memory).1
  | .kernal64 .. => fun M memory _ => (loading M.config memory).1
  | .server128 .. => Machine.effective
  | .kernal128 .. => Machine.effective

/-- The configuration a poke writes under. -/
def pokeConfig : (l : Listing) → Machine l.target → Byte → Byte → Byte
  | .server64 .. => fun _ memory _ => memory
  | .kernal64 .. => fun M memory _ => (poking M.config memory).1
  | .server128 .. => Machine.effective
  | .kernal128 .. => Machine.effective

/-- A load goes to memory, away from the server's cells and the I/O registers. -/
def Loads (l : Listing) (M : Machine l.target) (memory bank : Byte) (a : Addr) : Prop :=
  (l.target.writes (l.loadConfig M memory bank) a).Plain l.work

/-- So does a poke. -/
def Pokes (l : Listing) (M : Machine l.target) (memory bank : Byte) (a : Addr) : Prop :=
  (l.target.writes (l.pokeConfig M memory bank) a).Plain l.work

theorem serves (l : Listing) (hbasic : l.BasicReturns) : Serves l.handlers l.Loads l.Pokes := by
  cases l with
  | server64 rom chips start stop back basic =>
    exact (serves64 hbasic).mono (fun _ _ _ _ h => h.clear) fun _ _ _ _ h => h.clear
  | kernal64 rom chips start stop back basic =>
    exact (servesKernal64 hbasic).mono (fun _ _ _ _ h => h.clear) fun _ _ _ _ h => h.clear
  | server128 rom chips start stop back area =>
    exact serves128.mono (fun _ _ _ _ h => h.clear) fun _ _ _ _ h =>
      h.clear.mono (List.subset_append_left _ _)
  | kernal128 rom chips start stop back area =>
    exact servesKernal128.mono (fun _ _ _ _ h => h.clear) fun _ _ _ _ h =>
      h.clear.mono (List.subset_append_left _ _)

end Listing

/-- **Client and server stay in step over whole sessions.** Any calls, of which only the last may be
one the server does not return from, are taken for the requests they are, payload, addresses and
all; the server has sent what the client has received, and finds the calls that follow at the
beginning of its dispatch. An injection is a load and the call that starts it. -/
theorem in_step (l : Listing) (hbasic : l.BasicReturns)
    {meanwhile : Nat → Cpu (Machine l.target) → Cpu (Machine l.target)} (hidle : Idle meanwhile)
    {calls rest : List Call} (hproper : ∀ c ∈ calls, Proper l.Loads l.Pokes c)
    (hreturning : ∀ c ∈ calls.dropLast, Returning c) {s : Cpu (Machine l.target)}
    (hs : Ready s.bus) (hpc : s.bus.pc = Pc.session (calls ++ rest) []) :
    wp (serve l.handlers meanwhile (calls.map interrupts).sum) (fun rs t => ∃ received,
      Served calls rs received ∧ rs.flatMap Request.reply = received ∧
      t.bus.pc = Pc.session rest received ∧ ((∀ c ∈ calls, Returning c) → Ready t.bus)) s := by
  refine wp_mono ((l.serves hbasic).session hidle hproper hreturning hs hpc) ?_
  rintro rs t ⟨received, hserved, hleft, hready⟩
  exact ⟨received, hserved, hserved.reply, hleft, hready⟩

/-- The RAM server of a C64 with empty ROMs and chips, assembled at `$c000`. -/
def emptySite : Listing :=
  .server64 (fun _ => 0x00#8) (fun _ _ => 0x00#8) 0xc000#16 0xc400#16 0xc300#16 (pure ())

/-- A byte is loaded, saved and jumped to. -/
def jumpSession : List Call :=
  [.load 0x37#8 0x00#8 0x0400#16 [0x60#8], .save 0x37#8 0x00#8 0x0400#16 1,
    .jump 0x37#8 0x00#8 0x0400#16]

def emptyMachine : Machine emptySite.target where
  config := 0x37#8
  zp := fun _ => 0x00#8
  ram := fun _ _ => 0x00#8
  log := []
  pc := Pc.session (jumpSession ++ []) []
  lines := 0xff#8
  dd00 := 0x00#8
  dd01 := 0x00#8
  dd03 := 0x00#8

theorem in_step_jump : wp (serve emptySite.handlers (fun _ s => s) (jumpSession.map interrupts).sum)
    (fun rs t => ∃ received, Served jumpSession rs received ∧
      rs.flatMap Request.reply = received ∧ t.bus.pc = Pc.session [] received ∧
      ((∀ c ∈ jumpSession, Returning c) → Ready t.bus))
    ⟨0x00#8, 0x00#8, 0x00#8, false, false, [], emptyMachine⟩ := by
  refine in_step emptySite (fun s => ⟨((), s), rfl, rfl⟩) (fun _ s hs => ⟨hs, rfl⟩) (fun c hc => ?_)
    (by decide) ⟨visible_default, rfl⟩ rfl
  simp only [jumpSession, List.mem_cons, List.not_mem_nil, or_false] at hc
  rcases hc with rfl | rfl | rfl
  · refine ⟨List.cons_ne_nil _ _, by decide, fun i hi M hM => ?_⟩
    obtain rfl : i = 0 := by simpa using hi
    trivial
  · exact ⟨by decide, by decide⟩
  · trivial

end Xlink.Server

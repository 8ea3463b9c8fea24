import Xlink.Lib.Mos6502
import Xlink.Server.Pc

/-!
# The machine a server runs on

A `Target` is what the listings are assembled for: the cells and addresses `server.h` names for it,
and the machine's memory map, which says for every configuration (the processor port `$01` of the
C64, the MMU register `$ff00` of the C128) what is at an address for reading and for writing.

A `Machine` is the rest: the memory, the configuration, the cable, and the log of accesses to I/O
registers. The four registers of CIA2 that the cable is connected to are kept apart, what any other
register reads as may depend on all that was done to the registers before (`Target.chips`).

What is left out: `$00` of the C64 and `$ff01` to `$ff04` of the C128 are registers like others, a
write to which is logged and does not change the configuration as it does on the machine. No server
writes them, and a request that does is not one of those that `Place.Clear` describes. The server's
own text is not in this memory either: nothing here says what happens when it is overwritten.
-/

namespace Xlink.Server

open Word Mos6502

/-! ## Targets -/

/-- What an address designates. -/
inductive Place where
  | zp (c : Byte)
  | ram (bank : Byte) (a : Addr)
  | rom (a : Addr)
  | io (a : Addr)
  /-- the register that selects the configuration -/
  | config
  deriving DecidableEq, Repr

/-- The I/O area. -/
def IsIo (a : Addr) : Prop := 0xd000 ≤ a.toNat ∧ a.toNat < 0xe000

instance (a : Addr) : Decidable (IsIo a) := inferInstanceAs (Decidable (_ ∧ _))

/-- A byte written here changes neither the configuration nor the cable nor the cells `work`. A
register outside the I/O area is one that the configuration depends on. -/
def Place.Clear (work : List Byte) : Place → Prop
  | .zp c => c ∉ work
  | .ram _ _ => True
  | .rom _ => True
  | .io a => a ≠ 0xdd00#16 ∧ a ≠ 0xdd01#16 ∧ a ≠ 0xdd03#16 ∧ IsIo a
  | .config => False

instance (work : List Byte) : DecidablePred (Place.Clear work)
  | .zp c => inferInstanceAs (Decidable (c ∉ work))
  | .ram _ _ | .rom _ => .isTrue trivial
  | .io a => inferInstanceAs (Decidable (a ≠ 0xdd00#16 ∧ a ≠ 0xdd01#16 ∧ a ≠ 0xdd03#16 ∧ IsIo a))
  | .config => .isFalse id

theorem Place.Clear.mono {work more : List Byte} {place : Place} (h : place.Clear more)
    (hsub : work ⊆ more) : place.Clear work := by
  cases place with
  | zp c => exact fun hc => h (hsub hc)
  | ram bank a => trivial
  | rom a => trivial
  | io a => exact h
  | config => exact h

/-- An access to an I/O register. -/
inductive Access where
  | read (a : Addr)
  | write (a : Addr) (v : Byte)
  deriving DecidableEq, Repr

/-- The variables of `server.h` and the memory map of the machine they are for. -/
structure Target where
  /-- transfer start address and transfer end address, two cells each -/
  start : Byte
  stop : Byte
  /-- memory and bank config -/
  mem : Byte
  bank : Byte
  /-- start and end of the program text -/
  bstart : Byte
  bend : Addr
  /-- top of lower memory area -/
  memtop : Addr
  /-- what is at an address under a configuration -/
  reads : Byte → Addr → Place
  writes : Byte → Addr → Place
  rom : Byte → Addr → Byte
  /-- what an I/O register reads as after some accesses -/
  chips : List Access → Addr → Byte
  /-- the work cells are cells of their own -/
  nodup : [start, start + 1#8, stop, stop + 1#8, mem, bank].Nodup
  /-- and zero page cells in every configuration -/
  reads_zp : ∀ c ∈ [start, start + 1#8, stop, stop + 1#8, mem, bank, bstart, bstart + 1#8],
    ∀ config, reads config (zeroPage c) = .zp c
  writes_zp : ∀ c ∈ [start, start + 1#8, stop, stop + 1#8, mem, bank],
    ∀ config, writes config (zeroPage c) = .zp c
  /-- the end of the program text is clear of them -/
  bend_clear : ∀ config, (writes config bend).Clear [start, start + 1#8, stop, stop + 1#8, mem, bank]
    ∧ (writes config (bend + 1#16)).Clear [start, start + 1#8, stop, stop + 1#8, mem, bank]

/-- The cells a server keeps a request in. -/
def Target.work (T : Target) : List Byte :=
  [T.start, T.start + 1#8, T.stop, T.stop + 1#8, T.mem, T.bank]

/-- A byte written to an address under a configuration leaves the server its work cells, the
configuration and the cable. -/
def Target.Clear (T : Target) (config : Byte) (a : Addr) : Prop :=
  (T.writes config a).Clear T.work

/-- The I/O area is visible under a configuration. -/
def Target.Visible (T : Target) (config : Byte) : Prop :=
  ∀ a, IsIo a → T.reads config a = .io a ∧ T.writes config a = .io a

/-! ## Machines -/

/-- Memory, configuration, cable and I/O registers. -/
structure Machine (T : Target) where
  config : Byte
  zp : Byte → Byte
  ram : Byte → Addr → Byte
  log : List Access
  /-- the PC, and the data lines as it drives them -/
  pc : Pc
  lines : Byte
  /-- port A, port B and the direction of port B of CIA2 -/
  dd00 : Byte
  dd01 : Byte
  dd03 : Byte

variable {T : Target}

namespace Machine

/-- The data lines as the server sees them. -/
def portB (M : Machine T) : Byte := (M.dd01 &&& M.dd03) ||| (M.lines &&& ~~~M.dd03)

/-- The data lines as a PC in input mode sees them. -/
def onLines (M : Machine T) : Byte := (M.dd01 &&& M.dd03) ||| ~~~M.dd03

/-- The PC strobes: the FLAG latch is set, and is clear again after the look at it. -/
def strobed (M : Machine T) (data : Option Byte) (k : Pc) : Machine T :=
  { M with pc := k, lines := data.getD 0xff#8 }

/-- Read an I/O register. FLAG is set if the PC strobes. -/
def readIo (M : Machine T) (a : Addr) : Byte × Machine T :=
  if a = 0xdd0d#16 then
    match M.pc with
    | .strobe data k => (0x10#8, M.strobed data k)
    | _ => (0x00#8, M)
  else if a = 0xdd00#16 then (M.dd00, M)
  else if a = 0xdd01#16 then (M.portB, M)
  else if a = 0xdd03#16 then (M.dd03, M)
  else (T.chips M.log a, { M with log := M.log ++ [.read a] })

/-- Write an I/O register. A flip of PA2 that the PC does not wait for puts the two out of step. -/
def writeIo (M : Machine T) (a : Addr) (v : Byte) : Option (Machine T) :=
  let M := { M with log := M.log ++ [.write a v] }
  if a = 0xdd00#16 then
    if (v ^^^ M.dd00) &&& 0x04#8 = 0#8 then some { M with dd00 := v }
    else
      match M.pc with
      | .ack k => some { M with dd00 := v, pc := k M.onLines }
      | _ => none
  else if a = 0xdd01#16 then some { M with dd01 := v }
  else if a = 0xdd03#16 then some { M with dd03 := v }
  else some M

/-- Read the byte at an address. -/
def read (M : Machine T) (a : Addr) : Byte × Machine T :=
  match T.reads M.config a with
  | .zp c => (M.zp c, M)
  | .ram bank a => (M.ram bank a, M)
  | .rom a => (T.rom M.config a, M)
  | .io a => M.readIo a
  | .config => (M.config, M)

/-- Set a zero page cell. -/
def setZp (M : Machine T) (c v : Byte) : Machine T :=
  { M with zp := Function.update M.zp c v }

/-- Set a byte of RAM. -/
def setRam (M : Machine T) (bank : Byte) (a : Addr) (v : Byte) : Machine T :=
  { M with ram := Function.update M.ram bank (Function.update (M.ram bank) a v) }

/-- Put a byte at an address that is clear. A write to ROM is lost; a memory map whose writes reach
the RAM below says so in `Target.writes`. -/
def put (M : Machine T) (a : Addr) (v : Byte) : Machine T :=
  match T.writes M.config a with
  | .zp c => M.setZp c v
  | .ram bank a => M.setRam bank a v
  | .rom _ => M
  | .io a => { M with log := M.log ++ [.write a v] }
  | .config => { M with config := v }

/-- Write a byte to an address. -/
def write (M : Machine T) (a : Addr) (v : Byte) : Option (Machine T) :=
  match T.writes M.config a with
  | .io a => M.writeIo a v
  | _ => some (M.put a v)

theorem write_eq_put {M : Machine T} {a : Addr} (h : T.Clear M.config a) (v : Byte) :
    M.write a v = some (M.put a v) := by
  rw [write]
  split
  next a' hplace =>
    rw [Target.Clear, hplace] at h
    rw [writeIo, if_neg h.1, if_neg h.2.1, if_neg h.2.2.1, put, hplace]
  next => rfl

section Put

variable (M : Machine T) (a : Addr) (v : Byte)

@[simp] theorem pc_put : (M.put a v).pc = M.pc := by
  unfold put
  split <;> rfl

@[simp] theorem lines_put : (M.put a v).lines = M.lines := by
  unfold put
  split <;> rfl

@[simp] theorem dd00_put : (M.put a v).dd00 = M.dd00 := by
  unfold put
  split <;> rfl

@[simp] theorem dd01_put : (M.put a v).dd01 = M.dd01 := by
  unfold put
  split <;> rfl

@[simp] theorem dd03_put : (M.put a v).dd03 = M.dd03 := by
  unfold put
  split <;> rfl

variable {M a}

theorem config_put (h : T.Clear M.config a) : (M.put a v).config = M.config := by
  unfold put
  rw [Target.Clear] at h
  cases hplace : T.writes M.config a with
  | config =>
    rw [hplace] at h
    exact h.elim
  | _ => rfl

theorem zp_put {work : List Byte} (h : (T.writes M.config a).Clear work) {c : Byte} (hc : c ∈ work) :
    (M.put a v).zp c = M.zp c := by
  unfold put
  cases hplace : T.writes M.config a with
  | zp d =>
    rw [hplace] at h
    have hne : c ≠ d := by
      rintro rfl
      exact h hc
    exact Function.update_of_ne hne ..
  | _ => rfl

end Put

/-- Away from a strobe, all a read can change is the log of accesses. -/
theorem read_frame (M : Machine T) (a : Addr) (hpc : ∀ data k, M.pc ≠ .strobe data k) :
    (M.read a).2 = { M with log := (M.read a).2.log } := by
  unfold read
  split
  all_goals try rfl
  unfold readIo
  split
  · split
    next data k hstrobe => exact absurd hstrobe (hpc data k)
    next => rfl
  · split
    · rfl
    · split
      · rfl
      · split <;> rfl

end Machine

instance : Bus (Machine T) where
  read a M := M.read a
  write a v M := M.write a v

/-- Server code for a target. -/
abbrev Code (T : Target) (α : Type) := Asm (Machine T) α

/-! ## The two machines -/

/-- `$01` of the C64: the I/O area is RAM, character ROM or I/O. At `$00` is the register that says
which bits of `$01` count. -/
def c64Reads (config : Byte) (a : Addr) : Place :=
  if a = 0x0001#16 then .config
  else if a = 0x0000#16 then .io a
  else if hi a = 0x00#8 then .zp (lo a)
  else if a.toNat < 0xa000 then .ram 0x00#8 a
  else if a.toNat < 0xc000 then if config &&& 0x03#8 = 0x03#8 then .rom a else .ram 0x00#8 a
  else if a.toNat < 0xd000 then .ram 0x00#8 a
  else if a.toNat < 0xe000 then
    if config &&& 0x03#8 = 0x00#8 then .ram 0x00#8 a
    else if config &&& 0x04#8 = 0x04#8 then .io a
    else .rom a
  else if config &&& 0x02#8 = 0x02#8 then .rom a else .ram 0x00#8 a

/-- Writes to ROM areas reach the RAM below. -/
def c64Writes (config : Byte) (a : Addr) : Place :=
  match c64Reads config a with
  | .rom a => .ram 0x00#8 a
  | place => place

theorem hi_zeroPage (c : Byte) : hi (zeroPage c) = 0x00#8 := hi_word _ _

theorem hi_ne_zero {a : Addr} (h : 0x0100 ≤ a.toNat) : hi a ≠ 0x00#8 := fun hpage => by
  have := congrArg BitVec.toNat hpage
  rw [toNat_hi, BitVec.toNat_ofNat] at this
  omega

theorem lo_zeroPage (c : Byte) : lo (zeroPage c) = c := lo_word _ _

theorem c64Reads_zeroPage (config : Byte) {c : Byte} (hc : c ≠ 0x00#8 ∧ c ≠ 0x01#8) :
    c64Reads config (zeroPage c) = .zp c := by
  have hzero : zeroPage c ≠ 0x0000#16 := fun h => hc.1 (by
    rw [← lo_zeroPage c, h]
    rfl)
  have hone : zeroPage c ≠ 0x0001#16 := fun h => hc.2 (by
    rw [← lo_zeroPage c, h]
    rfl)
  rw [c64Reads, if_neg hone, if_neg hzero, if_pos (hi_zeroPage c), lo_zeroPage]

/-- Above page zero. -/
theorem c64Reads_above (config : Byte) {a : Addr} (h : 0x0100 ≤ a.toNat) : c64Reads config a =
    if a.toNat < 0xa000 then .ram 0x00#8 a
    else if a.toNat < 0xc000 then if config &&& 0x03#8 = 0x03#8 then .rom a else .ram 0x00#8 a
    else if a.toNat < 0xd000 then .ram 0x00#8 a
    else if a.toNat < 0xe000 then
      if config &&& 0x03#8 = 0x00#8 then .ram 0x00#8 a
      else if config &&& 0x04#8 = 0x04#8 then .io a
      else .rom a
    else if config &&& 0x02#8 = 0x02#8 then .rom a else .ram 0x00#8 a := by
  have hpage : hi a ≠ 0x00#8 := hi_ne_zero h
  have hone : a ≠ 0x0001#16 := by
    rintro rfl
    exact hpage rfl
  have hzero : a ≠ 0x0000#16 := by
    rintro rfl
    exact hpage rfl
  rw [c64Reads, if_neg hone, if_neg hzero, if_neg hpage]

/-- In page zero the configuration does not matter. -/
theorem c64Reads_below (config config' : Byte) {a : Addr} (h : a.toNat < 0x0100) :
    c64Reads config a = c64Reads config' a := by
  have hpage : hi a = 0x00#8 := by
    apply BitVec.eq_of_toNat_eq
    rw [toNat_hi, BitVec.toNat_ofNat]
    omega
  rw [c64Reads, c64Reads, if_pos hpage, if_pos hpage]

/-- The C64 with some ROMs and I/O chips. -/
def c64 (rom : Addr → Byte) (chips : List Access → Addr → Byte) : Target where
  start := 0xc1#8
  stop := 0xc3#8
  mem := 0xfe#8
  bank := 0xff#8
  bstart := 0x2b#8
  bend := 0x002d#16
  memtop := 0x0283#16
  reads := c64Reads
  writes := c64Writes
  rom := fun _ => rom
  chips := chips
  nodup := by decide
  reads_zp := fun c hc config => c64Reads_zeroPage config (by
    constructor
    · rintro rfl
      revert hc
      decide
    · rintro rfl
      revert hc
      decide)
  writes_zp := fun c hc config => by
    rw [c64Writes, c64Reads_zeroPage config]
    constructor
    · rintro rfl
      revert hc
      decide
    · rintro rfl
      revert hc
      decide
  bend_clear := fun config => by
    have hbend : c64Writes config 0x002d#16 = .zp 0x2d#8 := by
      rw [c64Writes, show (0x002d#16) = zeroPage 0x2d#8 by decide, c64Reads_zeroPage _ (by decide)]
    have hbend₁ : c64Writes config (0x002d#16 + 1#16) = .zp 0x2e#8 := by
      rw [c64Writes, show (0x002d#16 + 1#16) = zeroPage 0x2e#8 by decide,
        c64Reads_zeroPage _ (by decide)]
    rw [hbend, hbend₁]
    decide

/-- The bank of RAM an MMU configuration selects; the lowest 1K is common to all banks. -/
def c128Ram (config : Byte) (a : Addr) : Place :=
  if a.toNat < 0x0400 then .ram 0x00#8 a else .ram (config >>> 6) a

/-- The MMU register `$ff00` of the C128. A write to one of the four registers behind it sets it to a
configuration that has been prepared. -/
def c128Reads (config : Byte) (a : Addr) : Place :=
  if a = 0xff00#16 then .config
  else if hi a = 0x00#8 then .zp (lo a)
  else if a.toNat < 0x4000 then c128Ram config a
  else if a.toNat < 0x8000 then
    if config &&& 0x02#8 = 0x02#8 then c128Ram config a else .rom a
  else if a.toNat < 0xc000 then
    if config &&& 0x0c#8 = 0x0c#8 then c128Ram config a else .rom a
  else if 0xd000 ≤ a.toNat ∧ a.toNat < 0xe000 ∧ config &&& 0x01#8 = 0x00#8 then .io a
  else if 0xff01 ≤ a.toNat ∧ a.toNat < 0xff05 then .io a
  else if config &&& 0x30#8 = 0x30#8 then c128Ram config a
  else .rom a

/-- Writes to ROM areas reach the RAM below. -/
def c128Writes (config : Byte) (a : Addr) : Place :=
  match c128Reads config a with
  | .rom a => c128Ram config a
  | place => place

theorem c128Reads_zeroPage (config c : Byte) : c128Reads config (zeroPage c) = .zp c := by
  have hne : zeroPage c ≠ 0xff00#16 := fun h => by
    have := hi_zeroPage c
    rw [h] at this
    revert this
    decide
  rw [c128Reads, if_neg hne, if_pos (hi_zeroPage c), lo_zeroPage]

/-- The C128 with some ROMs, among them the table `bank2mmu`, and I/O chips. -/
def c128 (rom : Byte → Addr → Byte) (chips : List Access → Addr → Byte) : Target where
  start := 0xc1#8
  stop := 0xfd#8
  mem := 0xfb#8
  bank := 0xfc#8
  bstart := 0x2d#8
  bend := 0x1210#16
  memtop := 0x1212#16
  reads := c128Reads
  writes := c128Writes
  rom := rom
  chips := chips
  nodup := by decide
  reads_zp := fun c _ config => c128Reads_zeroPage config c
  writes_zp := fun c _ config => by rw [c128Writes, c128Reads_zeroPage]
  bend_clear := fun config => ⟨trivial, trivial⟩

/-! ## Where a place is -/

/-- A place in RAM or ROM is where the address says. -/
def Place.At (a : Addr) : Place → Prop
  | .ram _ a' => a' = a
  | .rom a' => a' = a
  | _ => True

section At

variable {a : Addr} {config : Byte}

theorem Place.at_ite {c : Prop} [Decidable c] {p q : Place} (hp : p.At a) (hq : q.At a) :
    (if c then p else q).At a := by
  split
  next => exact hp
  next => exact hq

theorem c64Reads_at : (c64Reads config a).At a := by
  unfold c64Reads
  refine Place.at_ite trivial (Place.at_ite trivial (Place.at_ite trivial (Place.at_ite rfl ?_)))
  refine Place.at_ite (Place.at_ite rfl rfl) (Place.at_ite rfl (Place.at_ite ?_ ?_))
  · exact Place.at_ite rfl (Place.at_ite trivial rfl)
  · exact Place.at_ite rfl rfl

theorem c128Ram_at : (c128Ram config a).At a := Place.at_ite rfl rfl

theorem c128Reads_at : (c128Reads config a).At a := by
  unfold c128Reads
  refine Place.at_ite trivial (Place.at_ite trivial (Place.at_ite c128Ram_at ?_))
  refine Place.at_ite (Place.at_ite c128Ram_at rfl) (Place.at_ite (Place.at_ite c128Ram_at rfl) ?_)
  exact Place.at_ite trivial (Place.at_ite trivial (Place.at_ite c128Ram_at rfl))

theorem c64Writes_at : (c64Writes config a).At a := by
  have hreads : (c64Reads config a).At a := c64Reads_at
  unfold c64Writes
  split
  next a' hrom =>
    rw [hrom] at hreads
    exact hreads
  next => exact hreads

theorem c128Writes_at : (c128Writes config a).At a := by
  have hreads : (c128Reads config a).At a := c128Reads_at
  unfold c128Writes
  split
  next a' hrom =>
    rw [hrom] at hreads
    obtain rfl : a' = a := hreads
    exact c128Ram_at
  next => exact hreads

end At

end Xlink.Server

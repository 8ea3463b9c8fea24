import Xlink.Client.Range

/-!
# The commands of the client that transfer data

`command_load`, `command_save`, `command_poke`, `command_fill`, `command_run` and
`command_benchmark`, from their options and arguments to the calls of the library they make. What
the library, the file system and the machine answer is an `Env`; a command makes each call that can
fail at most once, the peeks aside. Logging is left out.
-/

namespace Xlink.Client

open Word

/-! ## Machines and servers -/

inductive MachineType where
  | c64
  | c128
  deriving DecidableEq, Repr

/-- `xlink_machine_t`. -/
structure Machine where
  type : MachineType
  memory : Byte
  bank : Byte
  safeMemory : Byte
  safeBank : Byte
  defaultBasicStart : Addr
  basicStart : Addr
  basicEnd : Addr
  io : BitVec 32
  screenram : BitVec 32
  loram : BitVec 32
  hiram : BitVec 32
  benchmark : BitVec 32
  freeRamArea : Addr

def c64 : Machine where
  type := .c64
  memory := 0x37#8
  bank := 0x00#8
  safeMemory := 0x33#8
  safeBank := 0x00#8
  defaultBasicStart := 0x0801#16
  basicStart := 0x2b#16
  basicEnd := 0x2d#16
  io := 0xd000e000#32
  screenram := 0x040007e7#32
  loram := 0x08010a00#32
  hiram := 0xc000d000#32
  benchmark := 0x10008000#32
  freeRamArea := 0xc000#16

def c128 : Machine where
  type := .c128
  memory := 0x00#8
  bank := 0x0f#8
  safeMemory := 0x01#8
  safeBank := 0x0e#8
  defaultBasicStart := 0x1c01#16
  basicStart := 0x2d#16
  basicEnd := 0x1210#16
  io := 0xd000e000#32
  screenram := 0x040007e7#32
  loram := 0x13001c01#32
  hiram := 0x1c014000#32
  benchmark := 0x20004000#32
  freeRamArea := 0x1300#16

/-- The machine of the option `-M`. -/
def Machine.ofType : MachineType → Machine
  | .c64 => c64
  | .c128 => c128

/-- `xlink_server_info_t`. -/
structure ServerInfo where
  type : Byte
  start : Addr
  stop : Addr
  length : Addr
  memtop : Addr

/-- `XLINK_SERVER_TYPE_RAM` and `XLINK_SERVER_TYPE_ROM`. -/
def serverTypeRam : Byte := 0x00#8

def serverTypeRom : Byte := 0x01#8

/-- What is outside the client. -/
structure Env where
  /-- the files that can be read -/
  file : List Char → Option (List Byte)
  /-- the two bytes on the stack that a short file leaves in `loadAddress` -/
  garbage : Byte × Byte
  writable : List Char → Bool
  rand : Nat → Byte
  identify : Option ServerInfo
  peek : Addr → Option Byte
  ping : Bool
  relocate : Bool
  load : Bool
  save : Option (List Byte)
  poke : Bool
  jump : Bool
  run : Bool

/-- A call of the library. Addresses and sizes are the ones handed over: an address is an int that
becomes a `unsigned short`, a size is an `unsigned int`. -/
inductive Issue where
  | relocate (address : Addr)
  | load (memory bank : Byte) (address size : Int) (data : List Byte)
  | save (memory bank : Byte) (address size : Int)
  | poke (memory bank : Byte) (address : Int) (value : Byte)
  | jump (memory bank : Byte) (address : Int)
  | run

/-! ## Commands and their options -/

/-- `Command`. -/
structure Command where
  memory : Byte
  bank : Byte
  start : Int
  stop : Int
  skip : Int
  force : Bool
  argv : List (List Char)

/-- `command_new`. -/
def Command.new (argv : List (List Char)) : Command :=
  ⟨0xff#8, 0xff#8, -1, -1, -1, false, argv⟩

/-- An option with its argument, as `getopt_long` gives it. The others have no effect on a
transfer. -/
inductive Opt where
  | memory (optarg : List Char)
  | bank (optarg : List Char)
  | address (optarg : List Char)
  | skip (optarg : List Char)
  | force

def valid (address : Int) : Bool := 0x0000 ≤ address && address ≤ 0x10000

namespace Command

/-- One round of `command_parse_options`. -/
def parseOption (self : Command) : Opt → Option Command
  | .memory optarg => some { self with memory := BitVec.ofInt 8 (strtol optarg) }
  | .bank optarg => some { self with bank := BitVec.ofInt 8 (strtol optarg) }
  | .address optarg =>
    let start := toInt (strtol optarg)
    let stop := ((afterDash optarg).map fun text => toInt (strtol text)).getD self.stop
    if valid start then
      if stop = -1 ∨ (valid stop ∧ start < stop) then
        some { self with start := start, stop := stop }
      else none
    else none
  | .skip optarg => some { self with skip := toInt (strtol optarg) }
  | .force => some { self with force := true }

def parseOptions (self : Command) (options : List Opt) : Option Command :=
  options.foldlM parseOption self

variable (machine : Machine) (env : Env) (self : Command)

def applyMemoryAndBank : Command :=
  { self with
    memory := if self.memory = 0xff#8 then machine.memory else self.memory
    bank := if self.bank = 0xff#8 then machine.bank else self.bank }

def applySafeMemoryAndBank : Command :=
  { self with memory := machine.safeMemory, bank := machine.safeBank }

/-- The range of a command. -/
def range : Range := ⟨self.start, self.stop⟩

/-! ## Relocation -/

/-- `command_requires_server_relocation`. -/
def requiresServerRelocation (server : ServerInfo) : Bool :=
  server.type ≠ serverTypeRom && self.range.overlaps ⟨server.start.toNat, server.stop.toNat⟩

/-- The loop over one memory area: down from its end, until the code is clear of the data. -/
def searchArea (data area : Range) : Nat → Range → Option Range
  | 0, _ => none
  | n + 1, code =>
    if code.inside area then
      if code.overlaps data then searchArea data area n (code.move (-1)) else some code
    else none

/-- The search begins at the end of the area. No code begins further down than the area does. -/
def placeInArea (server : ServerInfo) (area : Range) : Option Range :=
  let code : Range := ⟨area.stop - server.length.toNat, area.stop⟩
  searchArea self.range area ((code.start - area.start).toNat + 1) code

/-- `command_server_relocation_possible`. -/
def serverRelocationPossible (server : ServerInfo) : Option Addr :=
  let screen := Range.fromInt machine.screenram
  let upper := Range.fromInt machine.loram
  let lower := Range.fromInt machine.hiram
  let lower : Range :=
    if machine.type = .c64 then ⟨lower.start, server.memtop.toNat⟩ else lower
  ((self.placeInArea server upper).or ((self.placeInArea server lower).or
    (self.placeInArea server screen))).map fun code => BitVec.ofInt 16 code.start

/-- `command_server_usable_after_possible_relocation`, with the relocation if there was one. -/
def serverUsable : Bool × List Issue :=
  match env.identify with
  | none => (false, [])
  | some server =>
    if self.requiresServerRelocation server then
      match self.serverRelocationPossible machine server with
      | none => (false, [])
      | some address => (env.relocate, [.relocate address])
    else (true, [])

end Command

/-- What a command has done: its result, itself, the calls it has made. -/
structure Outcome where
  ok : Bool
  command : Command
  issues : List Issue

namespace Command

variable (machine : Machine) (env : Env) (self : Command)

/-! ## Load and run -/

/-- The first two bytes of a PRG file. -/
def loadAddress (file : List Byte) : Addr :=
  word (file.getD 1 env.garbage.2) (file.getD 0 env.garbage.1)

/-- The start of a load and the bytes it skips. -/
def loadFrom (file : List Byte) : Int × Int :=
  if self.start = -1 then
    ((loadAddress env file).toNat, if self.skip = -1 then 2 else self.skip)
  else (self.start, if self.skip = -1 then 0 else self.skip)

/-- The command of a load with its range complete. -/
def loadRange (file : List Byte) : Command :=
  let start := (self.loadFrom env file).1
  let skip := (self.loadFrom env file).2
  { self with
    start := start
    skip := skip
    stop := if self.stop = -1 then toInt (start + (file.length - skip)) else self.stop }

/-- The size of a load: what is left of the file, cut to the range. -/
def loadSize (file : List Byte) : Int :=
  let loaded := self.loadRange env file
  let size := file.length - loaded.skip
  if toInt (loaded.stop - loaded.start) < size then toInt (loaded.stop - loaded.start) else size

/-- The bytes `fread` finds, in a buffer of zeros. `fseek` to before the file fails and leaves the
position where the load address has been read. -/
def loadData (file : List Byte) : List Byte :=
  let skip := (self.loadFrom env file).2
  let position := if 0 ≤ skip then skip.toNat else if self.start = -1 then 2 else 0
  let bytes := (file.drop position).take (self.loadSize env file).toNat
  bytes ++ List.replicate ((self.loadSize env file).toNat - bytes.length) 0x00#8

/-- Without memory and bank, a load over the I/O area goes below it. -/
def applyLoadMemoryAndBank : Command :=
  if self.memory = 0xff#8 ∨ self.bank = 0xff#8 then
    if self.range.overlaps (Range.fromInt machine.io) then self.applySafeMemoryAndBank machine
    else self.applyMemoryAndBank machine
  else self

/-- Unless it is forced, a load needs the server out of its way. -/
def loadUsable : Bool × List Issue :=
  if self.force then (true, []) else self.serverUsable machine env

def load : Outcome :=
  match self.argv with
  | [] => ⟨false, self, []⟩
  | filename :: _ =>
    match env.file filename with
    | none => ⟨false, self, []⟩
    | some file =>
      let loaded := (self.loadRange env file).applyLoadMemoryAndBank machine
      let usable := loaded.loadUsable machine env
      if usable.1 then
        ⟨env.load, loaded, usable.2 ++ [.load loaded.memory loaded.bank loaded.start
          (self.loadSize env file % 2 ^ 32) (self.loadData env file)]⟩
      else ⟨false, loaded, usable.2⟩

/-- With a file, it is loaded first and then started: by a jump, unless it is a BASIC program. -/
def run : Outcome :=
  if self.argv.length = 1 then
    let loaded := self.load machine env
    if loaded.ok then
      if loaded.command.start ≠ machine.defaultBasicStart.toNat then
        let jumping := loaded.command.applyMemoryAndBank machine
        ⟨env.jump, jumping, loaded.issues ++ [.jump jumping.memory jumping.bank jumping.start]⟩
      else ⟨env.run, loaded.command, loaded.issues ++ [.run]⟩
    else loaded
  else ⟨env.run, self, [.run]⟩

/-! ## Save -/

/-- `command_find_basic_program`, from the two pointers of BASIC. -/
def findBasicProgram : Option Command :=
  match env.peek (machine.basicStart + 1#16), env.peek machine.basicStart,
    env.peek (machine.basicEnd + 1#16), env.peek machine.basicEnd with
  | some startHigh, some startLow, some stopHigh, some stopLow =>
    let bstart := word startHigh startLow
    let bend := word stopHigh stopLow
    if bend.toNat ≠ bstart.toNat + 2 then
      some { self with start := bstart.toNat, stop := bend.toNat }
    else none
  | _, _, _, _ => none

def save : Outcome :=
  match self.argv with
  | [] => ⟨false, self, []⟩
  | filename :: _ =>
    match if self.start = -1 then self.findBasicProgram machine env else some self with
    | none => ⟨false, self, []⟩
    | some saved =>
      if saved.stop = -1 then ⟨false, saved, []⟩
      else if env.writable filename then
        let applied := saved.applyMemoryAndBank machine
        ⟨env.save.isSome, applied, [.save applied.memory applied.bank applied.start
          (toInt (applied.stop - applied.start) % 2 ^ 32)]⟩
      else ⟨false, saved, []⟩

/-! ## Poke and fill -/

def poke : Outcome :=
  match self.argv with
  | [] => ⟨false, self, []⟩
  | argument :: _ =>
    let comma := argument.findIdx (· = ',')
    if comma = argument.length ∨ comma + 1 = argument.length then ⟨false, self, []⟩
    else
      let address := toInt (strtol (argument.take comma))
      let value := BitVec.ofInt 8 (strtol (argument.drop (comma + 1)))
      let poked := { self.applyMemoryAndBank machine with start := address, stop := address }
      let usable := poked.serverUsable machine env
      if usable.1 then
        ⟨env.poke, poked, usable.2 ++ [.poke poked.memory poked.bank poked.start value]⟩
      else ⟨false, poked, usable.2⟩

/-- The range of a fill: to the end of memory if it has no end. -/
def fillRange (text : List Char) : Range :=
  let range := Range.parse text
  if range.ends then range else ⟨range.start, 0x10000⟩

def fill : Outcome :=
  match self.argv with
  | text :: value :: _ =>
    let range := fillRange text
    if range.valid then
      let filled :=
        { self.applyMemoryAndBank machine with start := range.start, stop := range.stop }
      let usable := filled.serverUsable machine env
      if usable.1 then
        ⟨env.load, filled, usable.2 ++ [.load filled.memory filled.bank filled.start
          (range.size % 2 ^ 32)
          (List.replicate range.size.toNat (BitVec.ofInt 8 (strtol value)))]⟩
      else ⟨false, filled, usable.2⟩
    else ⟨false, self, []⟩
  | _ => ⟨false, self, []⟩

/-! ## Benchmark -/

def benchmarkRange : Range :=
  if self.start ≠ -1 ∧ self.stop ≠ -1 then self.range else Range.fromInt machine.benchmark

/-- A RAM server is moved out of the way, whether it can be or not. -/
def benchmarkRelocation : List Issue :=
  match env.identify with
  | some server => if server.type = serverTypeRam then [.relocate machine.freeRamArea] else []
  | none => []

def benchmark : Outcome :=
  let range := self.benchmarkRange machine
  let applied := self.applyMemoryAndBank machine
  let payload := (List.range range.size.toNat).map env.rand
  let load := Issue.load applied.memory applied.bank range.start (range.size % 2 ^ 32) payload
  let save := Issue.save applied.memory applied.bank range.start (range.size % 2 ^ 32)
  if env.ping then
    if env.load then
      ⟨env.save = some payload, applied, benchmarkRelocation machine env ++ [load, save]⟩
    else ⟨false, applied, benchmarkRelocation machine env ++ [load]⟩
  else ⟨false, applied, []⟩

end Command

/-- The commands that transfer data. -/
inductive CommandId where
  | load
  | save
  | poke
  | fill
  | run
  | benchmark
  deriving DecidableEq, Repr

/-- `command_execute`. -/
def Command.execute (machine : Machine) (env : Env) (self : Command) : CommandId → Outcome
  | .load => self.load machine env
  | .save => self.save machine env
  | .poke => self.poke machine env
  | .fill => self.fill machine env
  | .run => self.run machine env
  | .benchmark => self.benchmark machine env

end Xlink.Client

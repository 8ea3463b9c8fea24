import Xlink.Host.Driver

/-!
# The calls of the host library

The functions of `xlink.h`. One that returns `true` with a value in the source returns the value
here; one that returns `false` returns nothing. `goto error` closes the device and ends with
`false`, so that the open device is a bracket around what is asked of the server.
-/

namespace Xlink.Host

open Word Program Program.Prog

/-- `XLINK_MACHINE_C64` and `XLINK_MACHINE_C128`. -/
inductive MachineType where
  | c64
  | c128
deriving DecidableEq

/-- What the library uses of `xlink_machine_t`. -/
structure Machine where
  type : MachineType
  memory : Byte
  bank : Byte
  warmstart : Addr
  mode : Addr
  prgmode : Byte
  /-- The server, assembled at an address, with its load address in front. -/
  server : Addr → List Byte

def Machine.c64 (server : Addr → List Byte) : Machine where
  type := .c64
  memory := 0x37#8
  bank := 0x00#8
  warmstart := 0xfe66#16
  mode := 0x9d#16
  prgmode := 0x00#8
  server := server

def Machine.c128 (server : Addr → List Byte) : Machine where
  type := .c128
  memory := 0x00#8
  bank := 0x0f#8
  warmstart := 0x4003#16
  mode := 0x7f#16
  prgmode := 0x80#8
  server := server

/-- `xlink_server_info_t` -/
structure ServerInfo where
  id : List Byte
  version : Byte
  machine : Byte
  type : Byte
  start : Addr
  stop : Addr
  length : Addr
  memtop : Addr

namespace Command

def load : Byte := 0x01#8
def save : Byte := 0x02#8
def poke : Byte := 0x03#8
def peek : Byte := 0x04#8
def jump : Byte := 0x05#8
def run : Byte := 0x06#8
def inject : Byte := 0x07#8
def identify : Byte := 0xfe#8

end Command

/-! ## Requests -/

section Requests

-- the environment: `XLINK_DEVICE`
variable (device : Option String)

/-- The device is closed after `body`. -/
def closing {α : Type} (body : Prog (Option α)) : Prog (Option α) := do
  let result ← body
  driver_close
  pure result

/-- The device is open around `body`. -/
def opened {α : Type} (body : Prog (Option α)) : Prog (Option α) :=
  done Option.isSome do
    if ← driver_open device then closing body else pure none

/-- There is a server, and it is sent `frame`. -/
def asking {α : Type} (frame : List Byte) (rest : Prog (Option α)) : Prog (Option α) := do
  if ← driver_ping .request then do
    driver_output
    if ← driver_send frame then rest else pure none
  else do
    setError .server "no response from server"
    pure none

/-- The server is asked for bytes. -/
def answered {α : Type} (rest : Prog (Option α)) : Prog (Option α) := do
  driver_input
  driver_strobe
  rest

def xlink_has_device : Prog (Option Unit) := do
  let result ← driver_ready (driver_open device)
  pure (if result then some () else none)

/-- The table the server sends, unless all its bytes are `$ff`. -/
def serverInfo (id : List Byte) (data : List Byte) : Prog (Option ServerInfo) :=
  if data.foldl (· &&& ·) 0xff#8 = 0xff#8 then do
    setError .server "unknown server (does not support identification)"
    pure none
  else
    let start := word (data.getD 4 0x00#8) (data.getD 3 0x00#8)
    let stop := word (data.getD 6 0x00#8) (data.getD 5 0x00#8)
    pure (some {
      id := id
      version := data.getD 0 0x00#8
      machine := data.getD 1 0x00#8
      type := data.getD 2 0x00#8
      start := start
      stop := stop
      length := stop - start
      memtop := word (data.getD 8 0x00#8) (data.getD 7 0x00#8) })

def xlink_identify : Prog (Option ServerInfo) :=
  opened device (asking [Command.identify] (answered do
    match ← driver_receive 1#32 with
    | none => pure none
    | some size =>
      match ← driver_receive ((size.getD 0 0x00#8 &&& 0x0f#8).setWidth 32) with
      | none => pure none
      | some id =>
        match ← driver_receive 9#32 with
        | none => pure none
        | some data => serverInfo id data))

def xlink_ping : Prog (Option Unit) :=
  opened device do
    if ← driver_ping .xlinkPing then pure (some ()) else pure none

/-- `while(xlink_ping());` -/
def pingWhile : Prog Unit :=
  repeatWhile do
    let result ← xlink_ping device
    pure result.isSome

/-- The C128 is waited for until it is down. -/
def xlink_reset (machine : Machine) : Prog (Option Unit) := do
  if ← driver_open device then do
    driver_reset
    driver_close
    if machine.type = .c128 then do
      pingWhile device
      pure (some ())
    else pure (some ())
  else do
    clearErrorIf false
    pure none

def xlink_bootloader : Prog (Option Unit) :=
  opened device do
    driver_boot
    pure (some ())

def xlink_load (memory bank : Byte) (address : Addr) (data : List Byte) : Prog (Option Unit) :=
  let stop := address + BitVec.ofNat 16 data.length
  opened device (asking [Command.load, memory, bank, lo address, hi address, lo stop, hi stop] do
    if ← driver_send data then pure (some ()) else pure none)

def xlink_save (memory bank : Byte) (address : Addr) (size : BitVec 32) : Prog (Option (List Byte)) :=
  let stop := address + size.setWidth 16
  opened device (asking [Command.save, memory, bank, lo address, hi address, lo stop, hi stop]
    (answered (driver_receive size)))

def xlink_peek (memory bank : Byte) (address : Addr) : Prog (Option Byte) :=
  opened device (asking [Command.peek, memory, bank, lo address, hi address] (answered do
    match ← driver_receive 1#32 with
    | none => pure none
    | some value => pure (some (value.getD 0 0x00#8))))

def xlink_poke (memory bank : Byte) (address : Addr) (value : Byte) : Prog (Option Unit) :=
  opened device (asking [Command.poke, memory, bank, lo address, hi address, value] (pure (some ())))

def xlink_fill (memory bank : Byte) (address : Addr) (value : Byte) (size : Nat) :
    Prog (Option Unit) :=
  xlink_load device memory bank address (List.replicate size value)

/-- The address goes high byte first. -/
def xlink_jump (memory bank : Byte) (address : Addr) : Prog (Option Unit) :=
  opened device (asking [Command.jump, memory, bank, hi address, lo address] (pure (some ())))

def xlink_run : Prog (Option Unit) :=
  opened device (asking [Command.run] (pure (some ())))

/-- The server pushes the address before the code, and returns to the code. -/
def xlink_inject (machine : Machine) (address : Addr) (code : List Byte) : Prog (Option Unit) := do
  match ← xlink_load device machine.memory machine.bank address code with
  | none => do
    clearErrorIf false
    pure none
  | some () =>
    opened device (asking [Command.inject, hi (address - 1#16), lo (address - 1#16)]
      (pure (some ())))

def xlink_relocate (machine : Machine) (address : Addr) : Prog (Option Unit) :=
  let memory := machine.memory ||| 0x80#8
  done Option.isSome do
    match ← xlink_load device memory machine.bank address ((machine.server address).drop 2) with
    | none => pure none
    | some () => xlink_jump device memory machine.bank address

/-! ## Ready -/

/-- So many pings, until one is answered. -/
def pings : Nat → Prog (Option Unit)
  | 0 => pure none
  | n + 1 => do
    match ← xlink_ping device with
    | some () => pure (some ())
    | none => pings n

/-- A ping each 250 ms. -/
def server_ready_after (ms : Nat) : Prog (Option Unit) := pings device ((ms + 249) / 250)

/-- Where the C128 goes to the C64 mode. -/
def go64 : Addr := 0xff4d#16

/-- Two pings. -/
def pingTwice : Prog (Option Unit) := do
  match ← xlink_ping device with
  | none => pure none
  | some () => xlink_ping device

/-- A server is there, if need be after a reset. -/
def awake (machine : Machine) : Prog (Option Unit) := do
  match ← pingTwice device with
  | some () => pure (some ())
  | none => do
    let _ ← xlink_reset device machine
    server_ready_after device 3000

/-- The server is one for the machine: otherwise the mode is switched, and `none` in the result says
that there is no more to do. -/
def switched (machine : Machine) : Prog (Option Unit × Bool) := do
  match ← xlink_identify device with
  | none => pure (none, true)
  | some remote =>
    match machine.type with
    | .c64 =>
      if remote.machine = 0x01#8 then do
        match ← xlink_jump device (Machine.c128 machine.server).memory
            (Machine.c128 machine.server).bank go64 with
        | none => pure (none, true)
        | some () => do
          let result ← server_ready_after device 3000
          pure (result, true)
      else pure (some (), false)
    | .c128 =>
      if remote.machine = 0x00#8 then do
        match ← xlink_reset device machine with
        | none => pure (none, true)
        | some () => do
          let result ← server_ready_after device 3000
          pure (result, true)
      else pure (some (), false)

/-- A running BASIC program is stopped by a warmstart. -/
def warmstarted (machine : Machine) : Prog (Option Unit) := do
  match ← xlink_peek device machine.memory machine.bank machine.mode with
  | none => pure none
  | some mode =>
    if mode = machine.prgmode then xlink_jump device machine.memory machine.bank machine.warmstart
    else pure (some ())

/-- The steps of `xlink_ready` once there is a device. -/
def readied (machine : Machine) : Prog (Option Unit) := do
  match ← awake device machine with
  | none => pure none
  | some () => do
    let (result, done) ← switched device machine
    if done then pure result else warmstarted device machine

def xlink_ready (machine : Machine) : Prog (Option Unit) :=
  done Option.isSome do
    if ← driver_ready (driver_open device) then readied device machine else pure none

/-! ## Sessions -/

def xlink_begin : Prog Unit := modify fun s => { s with state := .idle }

def xlink_end : Prog Unit := modify fun s => { s with state := .idle }

/-- The server that has sent its bytes acknowledges that it listens again. -/
def turnaroundOut : Prog Unit := do
  if (← get).state = .input then do
    let _ ← driver_wait 0
    pure ()
  else pure ()

/-- The server that is to send bytes is told so. -/
def turnaroundIn : Prog Unit := do
  if (← get).state = .output then do
    driver_strobe
    modify fun s => { s with state := .input }
  else pure ()

def xlink_send (data : List Byte) : Prog (Option Unit) :=
  opened device do
    turnaroundOut
    driver_output
    modify fun s => { s with state := .output }
    if ← driver_send data then pure (some ()) else pure none

def xlink_receive (size : BitVec 32) : Prog (Option (List Byte)) :=
  opened device do
    driver_input
    turnaroundIn
    driver_receive size

/-- `XLINK_DEFAULT_TIMEOUT` -/
def defaultTimeout : Nat := 1

/-- Another timeout, for one call. -/
def withTimeout {α : Type} (timeout : Nat) (body : Prog α) : Prog α := do
  modify fun s => { s with timeout := timeout }
  let result ← body
  modify fun s => { s with timeout := defaultTimeout }
  pure result

def xlink_send_with_timeout (data : List Byte) (timeout : Nat) : Prog (Option Unit) :=
  withTimeout timeout (xlink_send device data)

def xlink_receive_with_timeout (size : BitVec 32) (timeout : Nat) : Prog (Option (List Byte)) :=
  withTimeout timeout (xlink_receive device size)

end Requests

/-! ## The interface -/

def xlink_set_device (path : String) : Prog (Option Unit) := do
  let result ← driver_setup path
  pure (if result then some () else none)

/-- The calls that return `bool`. -/
inductive Call where
  | setDevice (path : String)
  | hasDevice
  | identify
  | ping
  | reset
  | ready
  | bootloader
  | load (memory bank : Byte) (address : Addr) (data : List Byte)
  | save (memory bank : Byte) (address : Addr) (size : BitVec 32)
  | peek (memory bank : Byte) (address : Addr)
  | poke (memory bank : Byte) (address : Addr) (value : Byte)
  | fill (memory bank : Byte) (address : Addr) (value : Byte) (size : Nat)
  | jump (memory bank : Byte) (address : Addr)
  | run
  | inject (address : Addr) (code : List Byte)
  | relocate (address : Addr)
  | send (data : List Byte)
  | sendWithTimeout (data : List Byte) (timeout : Nat)
  | receive (size : BitVec 32)
  | receiveWithTimeout (size : BitVec 32) (timeout : Nat)

/-- What a call returns. -/
def returned {α : Type} (p : Prog (Option α)) : Prog Bool := do
  let result ← p
  pure result.isSome

def Call.prog (device : Option String) (machine : Machine) : Call → Prog Bool
  | setDevice path => returned (xlink_set_device path)
  | hasDevice => returned (xlink_has_device device)
  | identify => returned (xlink_identify device)
  | ping => returned (xlink_ping device)
  | reset => returned (xlink_reset device machine)
  | ready => returned (xlink_ready device machine)
  | bootloader => returned (xlink_bootloader device)
  | load memory bank address data => returned (xlink_load device memory bank address data)
  | save memory bank address size => returned (xlink_save device memory bank address size)
  | peek memory bank address => returned (xlink_peek device memory bank address)
  | poke memory bank address value => returned (xlink_poke device memory bank address value)
  | fill memory bank address value size =>
    returned (xlink_fill device memory bank address value size)
  | jump memory bank address => returned (xlink_jump device memory bank address)
  | run => returned (xlink_run device)
  | inject address code => returned (xlink_inject device machine address code)
  | relocate address => returned (xlink_relocate device machine address)
  | send data => returned (xlink_send device data)
  | sendWithTimeout data timeout => returned (xlink_send_with_timeout device data timeout)
  | receive size => returned (xlink_receive device size)
  | receiveWithTimeout size timeout => returned (xlink_receive_with_timeout device size timeout)

end Xlink.Host

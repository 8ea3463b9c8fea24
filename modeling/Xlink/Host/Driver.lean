import Xlink.Lib.Program
import Xlink.Lib.Word

/-!
# The driver of the host library

`driver->open`, `driver->close` and the other members of `Driver` go through a table of the
functions of one driver. The table is filled by `driver_setup`, at the latest when the device is
opened first. What the device does is not the library's choice: a driver's function is a call, and a
program has a run for each answer.
-/

namespace Xlink.Host

open Word Program

/-- The drivers. -/
inductive DriverType where
  | parport
  | usb
  | shm
  | serial
deriving DecidableEq

/-- `XLINK_DRIVER_STATE_IDLE`, `_INPUT` and `_OUTPUT`. -/
inductive DriverState where
  | idle
  | input
  | output
deriving DecidableEq

/-- `XLINK_SUCCESS` and the `XLINK_ERROR` codes. -/
inductive ErrorCode where
  | success
  | device
  | libusb
  | parport
  | server
  | file
  | serial
deriving DecidableEq

/-- `xlink_error`. -/
structure XlinkError where
  code : ErrorCode
  message : String

/-- The driver that each member of `Driver` points to a function of. At first `_open` is
`_driver_setup_and_open` and the other members are `NULL`. -/
structure Table where
  _open : Option DriverType
  _close : Option DriverType
  _strobe : Option DriverType
  _wait : Option DriverType
  _read : Option DriverType
  _write : Option DriverType
  _send : Option DriverType
  _receive : Option DriverType
  _input : Option DriverType
  _output : Option DriverType
  _ping : Option DriverType
  _reset : Option DriverType
  _boot : Option DriverType
  _free : Option DriverType
deriving DecidableEq

/-- The functions of one driver. -/
def Table.of (type : DriverType) : Table where
  _open := some type
  _close := some type
  _strobe := some type
  _wait := some type
  _read := some type
  _write := some type
  _send := some type
  _receive := some type
  _input := some type
  _output := some type
  _ping := some type
  _reset := some type
  _boot := some type
  _free := some type

/-- The table of `libxlink_initialize`. -/
def Table.initial : Table :=
  ⟨none, none, none, none, none, none, none, none, none, none, none, none, none, none⟩

/-- The globals of the library: `driver` and `xlink_error`. -/
structure Lib where
  path : String
  timeout : Nat
  state : DriverState
  table : Table
  error : XlinkError

/-! ## Calls -/

/-- Who calls `driver->ping`: `xlink_ping`, or a request that finds out whether there is a server. -/
inductive Caller where
  | xlinkPing
  | request
deriving DecidableEq

/-- The functions of a driver that the library calls. -/
inductive Prim where
  | opening
  | close
  | strobe
  | wait (timeout : Nat)
  | send (data : List Byte)
  | receive (size : BitVec 32)
  | input
  | output
  | ping (caller : Caller)
  | reset
  | boot
deriving DecidableEq

/-- What a driver answers: an opening may be refused, with a text, a transfer comes to some count of
bytes. -/
@[reducible] def Prim.Ans : Prim → Type
  | opening => Option String
  | wait _ => Bool
  | send _ => BitVec 32
  | receive _ => BitVec 32 × (Nat → Byte)
  | ping _ => Bool
  | _ => Unit

/-- What `stat` finds. -/
inductive Stat where
  | failed (reason : String)
  | other
  | chr (major : Int)

/-- The calls that leave the library. -/
inductive Op where
  | prim (type : DriverType) (p : Prim)
  | stat (path : String)
deriving DecidableEq

@[reducible] def Op.Ans : Op → Type
  | prim _ p => p.Ans
  | stat _ => Stat

abbrev Event := Program.Event Op Op.Ans

abbrev Prog := Program.Prog Lib Op Op.Ans

open Program.Prog

/-- A call of a driver's function. -/
def prim (type : DriverType) (p : Prim) : Prog p.Ans := call (Op.prim type p)

def stat (path : String) : Prog Stat := call (Op.stat path)

/-! ## Errors -/

/-- `SET_ERROR` -/
def setError (code : ErrorCode) (message : String) : Prog Unit :=
  modify fun s => { s with error := ⟨code, message⟩ }

/-- `CLEAR_ERROR_IF` -/
def clearErrorIf (result : Bool) : Prog Unit :=
  modify fun s => if result then { s with error := ⟨.success, "Success"⟩ } else s

/-- The label `done`: what yields a result clears the error if it is a success. -/
def done {α : Type} (ok : α → Bool) (p : Prog α) : Prog α := do
  let result ← p
  clearErrorIf (ok result)
  pure result

/-! ## The functions of a driver -/

/-- The code of an error when the device does not open. -/
def DriverType.openError : DriverType → ErrorCode
  | parport => .parport
  | usb => .libusb
  | shm => .file
  | serial => .file

/-- The code of an error in a transfer. -/
def DriverType.transferError : DriverType → ErrorCode
  | parport => .parport
  | usb => .libusb
  | shm => .file
  | serial => .serial

/-- `driver_parport_open` and the others. -/
def openDevice (type : DriverType) : Prog Bool := do
  match ← (prim type .opening : Prog (Option String)) with
  | none => do
    clearErrorIf true
    pure true
  | some text => do
    setError type.openError text
    pure false

/-- The drivers that transfer byte by byte themselves. -/
def DriverType.Bytewise (type : DriverType) : Prop := type = .parport ∨ type = .shm

instance (type : DriverType) : Decidable type.Bytewise := inferInstanceAs (Decidable (_ ∨ _))

/-- The end of a transfer. The byte by byte loops count to `size` as an `int` and have no result if
there is nothing to do; the others compare a count with `size`. -/
def transferDone (type : DriverType) (size completed : BitVec 32) (done : String) : Prog Bool :=
  if type.Bytewise then
    if (completed.toNat : Int) < size.toInt then do
      setError type.transferError
        s!"transfer timeout ({completed.toNat} of {size.toInt} bytes {done})"
      pure false
    else pure (decide (0 < size.toInt))
  else if completed = size then do
    clearErrorIf true
    pure true
  else do
    setError type.transferError s!"transfer timeout ({completed.toInt} of {size.toInt} bytes {done})"
    pure false

/-- A call through a member of the table. `NULL` cannot be called. -/
def member (slot : Table → Option DriverType) (p : Prim) : Prog p.Ans := do
  match slot (← get).table with
  | some type => prim type p
  | none => stop

def driver_strobe : Prog Unit := member Table._strobe .strobe
def driver_wait (timeout : Nat) : Prog Bool := member Table._wait (.wait timeout)
def driver_input : Prog Unit := member Table._input .input
def driver_output : Prog Unit := member Table._output .output
def driver_ping (caller : Caller) : Prog Bool := member Table._ping (.ping caller)
def driver_reset : Prog Unit := member Table._reset .reset
def driver_boot : Prog Unit := member Table._boot .boot

/-- The port is left in input mode. -/
def driver_close : Prog Unit := do
  driver_input
  member Table._close .close

def driver_send (data : List Byte) : Prog Bool := do
  match (← get).table._send with
  | some type => do
    let completed ← (prim type (.send data) : Prog (BitVec 32))
    transferDone type (BitVec.ofNat 32 data.length) completed "sent"
  | none => stop

def driver_receive (size : BitVec 32) : Prog (Option (List Byte)) := do
  match (← get).table._receive with
  | some type => do
    let (completed, bytes) ← (prim type (.receive size) : Prog (BitVec 32 × (Nat → Byte)))
    if ← transferDone type size completed "received" then
      pure (some ((List.range size.toNat).map bytes))
    else pure none
  | none => stop

/-! ## Setup -/

/-- The driver of a device major number, as `device_is_parport`, `device_is_usb`, `device_is_shm` and
`device_is_serial` have it. -/
def deviceType (major : Int) : Option DriverType :=
  if major = 99 then some .parport
  else if major = 189 then some .usb
  else if major = -1 then some .shm
  else if major = 188 then some .serial
  else none

/-- The major number of a device. -/
def device_identify (path : String) : Prog (Option Int) :=
  if path.toList.take 3 = "shm".toList then pure (some (-1))
  else do
    match ← stat path with
    | .failed reason => do
      setError .device s!"{path}: couldn't stat: {reason}"
      pure none
    | .other => do
      setError .device s!"{path}: not a character device"
      pure none
    | .chr major => do
      clearErrorIf true
      pure (some major)

/-- `driver->_open`: until a driver is set up, `setup`. -/
def dispatchOpen (setup : Prog Bool) : Prog Bool := do
  match (← get).table._open with
  | some type => openDevice type
  | none => setup

/-- `driver->ready` -/
def driver_ready (driver_open : Prog Bool) : Prog Bool :=
  done id do
    if ← driver_open then do
      driver_close
      pure true
    else pure false

def DriverType.name : DriverType → String
  | parport => "parallel port"
  | usb => "usb"
  | shm => "shm"
  | serial => "serial"

/-- Point the members of `Driver` to the functions of a driver, and try it. -/
def useDriver (type : DriverType) (path : String) : Prog Bool := do
  modify fun s => { s with table := Table.of type }
  if ← driver_ready (dispatchOpen stop) then pure true
  else do
    setError .device s!"failed to initialize {type.name} device \"{path}\""
    pure false

/-- The driver of a supported device is used. -/
def useMajor (path : String) (major : Int) : Prog Bool :=
  match deviceType major with
  | none => do
    setError .device s!"{path}: unsupported device major number: {major}"
    pure false
  | some type => useDriver type path

/-- Find the driver of a device and use it. -/
def detect (path : String) : Prog Bool := do
  match ← device_identify path with
  | none => pure false
  | some major => useMajor path major

def driver_setup (path : String) : Prog Bool := do
  modify fun s => { s with path := path }
  done id (detect path)

def defaultUsbDevice : String := "/dev/xlink"
def defaultParportDevice : String := "/dev/parport0"

/-- The device of `XLINK_DEVICE`, or one of the two default devices. -/
def autodetect : Option String → Prog Bool
  | some path => driver_setup path
  | none => do
    if ← driver_setup defaultUsbDevice then pure true else driver_setup defaultParportDevice

/-- `driver->_open` until a driver is set up, with what `XLINK_DEVICE` holds. -/
def driver_setup_and_open (device : Option String) : Prog Bool :=
  done id do
    if ← autodetect device then dispatchOpen stop
    else if device.isNone then do
      setError .device
        s!"failed to initialize \"{defaultUsbDevice}\" or \"{defaultParportDevice}\" (autodetect)"
      pure false
    else pure false

/-- `driver->open` -/
def driver_open (device : Option String) : Prog Bool := dispatchOpen (driver_setup_and_open device)

end Xlink.Host

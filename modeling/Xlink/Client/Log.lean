import Mathlib.Data.List.TakeWhile
import Xlink.Client.Command

/-!
# The log line of a command (`command_print` and `_logger_log`)

`command_print` writes the options and the arguments of a command into a buffer and hands it to the
logger: as the format, and with nothing for it to take. The logger reads the text as one for
`printf`. The line is right if no `%` is in it, if it fits into the logger's own buffer and if the
addresses are of 16 bits and not `$ffff`, which is how `command_print` sees that there is none.

`Fault` is what the two functions must not do; a run of the model ends there, since C leaves open
what comes after it. `print_verbatim` says of every device, machine and command, and of every logger
at debug level, that the line is written without a fault and as it is meant exactly if the command
is `Loggable`. What is meant (`verbatim`, each address in full and with its sign) is a definition of
this module and not one of the source. At a lower level nothing is written, and nothing is said of
it here. A `Char` stands for a `char` of C; the buffers have the sizes of the source, 1024 and 256
characters with the terminating zero.
-/

namespace Xlink.Client

open Word

/-! ## The logger -/

/-- What must not happen: a write behind `result` or behind `format`, a read behind the terminating
zero of the format, an argument taken that was not passed. -/
inductive Fault where
  | resultOverflow
  | formatOverflow
  | pastEnd
  | noArgument
  deriving DecidableEq, Repr

def loglevelError : Nat := 1

def loglevelWarn : Nat := 2

def loglevelDebug : Nat := 4

/-- `Logger`. -/
structure Logger where
  level : Nat
  enabled : Bool
  context : List (List Char)

/-- `_logger_print_context`. -/
def Logger.printContext (logger : Logger) : List Char :=
  logger.context.getLast?.elim [] fun context => context ++ ": ".toList

/-- `_logger_print_level`. -/
def printLevel (level : Nat) : List Char :=
  if level = loglevelError then "error: ".toList
  else if level = loglevelWarn then "warning: ".toList
  else []

/-- The `switch` on the character that ends a format specifier: what it prints, and how much of
that it counts. No argument has been passed to the logger. -/
def specifier (count : Nat) (k : Char) : Except Fault (List Char × Nat) :=
  if k ∈ "dioxXucsfeEgGp".toList then .error .noArgument
  else if k = 'n' then .ok (Nat.toDigits 10 count, (Nat.toDigits 10 count).length)
  else if k = '%' then .ok (['%'], 1)
  else .ok ("Invalid format specifier '".toList ++ [k] ++ "'".toList, 0)

/-- The inner scan goes on: not at a letter, and not at a second `%`. -/
def scans (c : Char) : Bool := !c.isAlpha && c ≠ '%'

/-- `while (*fmt)`, for the format that is left. The end of the list is the terminating zero, which
the inner scan does not look for. -/
def formatLoop (count : Nat) : List Char → Except Fault (List Char)
  | [] => .ok []
  | c :: fmt =>
    if c = '%' then
      let j := (fmt.takeWhile scans).length + 1
      match _h : fmt.dropWhile scans with
      | [] => .error (if j < 256 then .pastEnd else .formatOverflow)
      | k :: rest =>
        if j + 1 < 256 then
          (specifier count k).bind fun printed =>
            (formatLoop (count + printed.2) rest).map (printed.1 ++ ·)
        else .error .formatOverflow
    else
      let j := (fmt.takeWhile (· ≠ '%')).length + 1
      if j < 256 then
        (formatLoop (count + j) (fmt.dropWhile (· ≠ '%'))).map
          ((c :: fmt.takeWhile (· ≠ '%')) ++ ·)
      else .error .formatOverflow
termination_by fmt => fmt.length
decreasing_by
  · have := congrArg List.length _h
    have := (List.dropWhile_suffix (l := fmt) scans).length_le
    simp_all only [List.length_cons]
    omega
  · have := (List.dropWhile_suffix (l := fmt) (· ≠ '%')).length_le
    simp only [List.length_cons]
    omega

/-- `_logger_log`, without arguments for the format. -/
def Logger.log (logger : Logger) (level : Nat) (fmt : List Char) : Except Fault (List Char) :=
  if level > logger.level ∨ logger.enabled = false then .ok []
  else (formatLoop 0 fmt).map fun text =>
    logger.printContext ++ printLevel level ++ text ++ ['\n']

/-! ## The line -/

/-- `"%0*X"`. -/
def hexadecimal (width n : Nat) : List Char :=
  ((Nat.toDigits 16 n).map Char.toUpper).leftpad width '0'

/-- `machine->name`. -/
def Machine.name (machine : Machine) : List Char :=
  match machine.type with
  | .c64 => "c64".toList
  | .c128 => "c128".toList

/-- `"-d %s "`. -/
def deviceText (device : List Char) : List Char := "-d ".toList ++ device ++ [' ']

/-- `"-M %s "`. -/
def machineText (machine : Machine) : List Char := "-M ".toList ++ machine.name ++ [' ']

/-- `"-m 0x%02X "` and `"-b 0x%02X "`. -/
def byteText (name : Char) (value : Byte) : List Char :=
  ['-', name, ' ', '0', 'x'] ++ hexadecimal 2 value.toNat ++ [' ']

/-- `"%s "`. -/
def argText (arg : List Char) : List Char := arg ++ [' ']

/-- `result` and `print`. -/
structure Line where
  result : List Char
  print : Bool

/-- A `sprintf` to the end of `result`, which holds 1024 bytes with the terminating zero. -/
def Line.append (line : Line) (call : List Char × Bool) : Except Fault Line :=
  if line.result.length + call.1.length < 1024 then
    .ok ⟨line.result ++ call.1, line.print || call.2⟩
  else .error .resultOverflow

/-- `(unsigned short) value`. -/
def ushort (value : Int) : Nat := (BitVec.ofInt 16 value).toNat

namespace Command

/-- The calls of `sprintf` for the addresses. -/
def rangeCalls (self : Command) : List (List Char × Bool) :=
  if ushort self.start ≠ 0xffff then
    [("-a 0x".toList ++ hexadecimal 4 (ushort self.start), true)] ++
      (if ushort self.stop ≠ 0xffff then
        [("-0x".toList ++ hexadecimal 4 (ushort self.stop), true)] else []) ++
      [([' '], true)]
  else []

/-- The one for the bytes to skip. -/
def skipCalls (self : Command) : List (List Char × Bool) :=
  if ushort self.skip ≠ 0xffff then
    [("-s 0x".toList ++ hexadecimal 4 (ushort self.skip) ++ [' '], true)]
  else []

/-- The calls of `sprintf`, with what becomes of `print`. -/
def printCalls (device : List Char) (machine : Option Machine) (self : Command) :
    List (List Char × Bool) :=
  (if device.length > 0 then [(deviceText device, true)] else []) ++
    (machine.elim [] fun machine => [(machineText machine, false)]) ++
    (if self.memory ≠ 0xff#8 then [(byteText 'm' self.memory, true)] else []) ++
    (if self.bank ≠ 0xff#8 then [(byteText 'b' self.bank, true)] else []) ++
    self.rangeCalls ++ self.skipCalls ++ self.argv.map fun arg => (argText arg, true)

/-- `command_print`: what is written to the terminal. -/
def print (logger : Logger) (device : List Char) (machine : Option Machine) (self : Command) :
    Except Fault (List Char) :=
  ((self.printCalls device machine).foldlM Line.append ⟨[], false⟩).bind fun line =>
    if line.print then logger.log loglevelDebug line.result else .ok []

end Command

/-! ## The line as it is meant -/

/-- An address in full, with its sign. -/
def fullValue (value : Int) : List Char :=
  (if value < 0 then ['-'] else []) ++ "0x".toList ++ hexadecimal 4 value.natAbs

/-- An address that `command_print` takes for what it is. -/
def Representable (value : Int) : Prop := value = -1 ∨ (0 ≤ value ∧ value < 0xffff)

namespace Command

/-- The addresses of a command: `-1` is none. -/
def fullRange (self : Command) : List Char :=
  if self.start ≠ -1 ∨ self.stop ≠ -1 then
    "-a ".toList ++ (if self.start ≠ -1 then fullValue self.start else []) ++
      (if self.stop ≠ -1 then '-' :: fullValue self.stop else []) ++ [' ']
  else []

/-- The bytes to skip: `-1` is none. -/
def fullSkip (self : Command) : List Char :=
  if self.skip ≠ -1 then "-s ".toList ++ fullValue self.skip ++ [' '] else []

variable (device : List Char) (machine : Option Machine) (self : Command)

/-- What comes before the addresses. -/
def headText : List Char :=
  (if device = [] then [] else deviceText device) ++ machine.elim [] machineText ++
    (if self.memory = 0xff#8 then [] else byteText 'm' self.memory) ++
    (if self.bank = 0xff#8 then [] else byteText 'b' self.bank)

/-- Every option and every argument, verbatim. -/
def verbatim : List Char :=
  self.headText device machine ++ self.fullRange ++ self.fullSkip ++ self.argv.flatMap argText

/-- There is something to log. The machine alone is not. -/
def Given : Prop :=
  device ≠ [] ∨ self.memory ≠ 0xff#8 ∨ self.bank ≠ 0xff#8 ∨
    self.start ≠ -1 ∨ self.stop ≠ -1 ∨ self.skip ≠ -1 ∨ self.argv ≠ []

instance : Decidable (self.Given device) :=
  inferInstanceAs (Decidable (_ ∨ _))

/-- What a command has to log. -/
def logged (logger : Logger) : List Char :=
  if self.Given device then
    logger.printContext ++ printLevel loglevelDebug ++ self.verbatim device machine ++ ['\n']
  else []

/-- A command whose log line is right. -/
structure Loggable (device : List Char) (machine : Option Machine) (command : Command) : Prop where
  start : Representable command.start
  stop : Representable command.stop
  skip : Representable command.skip
  opens : command.stop ≠ -1 → command.start ≠ -1
  plain : '%' ∉ device
  plains : ∀ arg ∈ command.argv, '%' ∉ arg
  short : (command.verbatim device machine).length < 256

end Command

/-! ## The buffer of the line -/

/-- The calls are all made if the line fits. -/
theorem foldlM_append (calls : List (List Char × Bool)) (line : Line)
    (h : line.result.length < 1024) :
    calls.foldlM Line.append line =
      if line.result.length + (calls.flatMap Prod.fst).length < 1024 then
        .ok ⟨line.result ++ calls.flatMap Prod.fst, line.print || calls.any Prod.snd⟩
      else .error .resultOverflow := by
  induction calls generalizing line with
  | nil => simp [h, pure, Except.pure]
  | cons call calls ih =>
    rw [List.foldlM_cons, Line.append]
    by_cases hfits : line.result.length + call.1.length < 1024
    · rw [if_pos hfits]
      show List.foldlM Line.append ⟨line.result ++ call.1, line.print || call.2⟩ calls = _
      rw [ih _ (by simpa using hfits)]
      simp [Nat.add_assoc, Bool.or_assoc]
    · rw [if_neg hfits, if_neg (by simp; omega)]
      rfl

/-! ## The format loop -/

/-- A chain of calls that ends without a fault has gone through each of them. -/
theorem exists_of_bind_ok {α β : Type} {x : Except Fault α} {f : α → Except Fault β} {b : β}
    (h : x.bind f = .ok b) : ∃ a, x = .ok a ∧ f a = .ok b := by
  cases x with
  | error fault => cases h
  | ok a => exact ⟨a, rfl, h⟩

theorem exists_of_map_ok {α β : Type} {x : Except Fault α} {f : α → β} {b : β}
    (h : x.map f = .ok b) : ∃ a, x = .ok a ∧ f a = b := by
  cases x with
  | error fault => cases h
  | ok a => exact ⟨a, rfl, Except.ok.inj h⟩

/-- A format without `%` is printed as it is, if it fits. -/
theorem formatLoop_plain {fmt : List Char} (h : '%' ∉ fmt) (count : Nat) :
    formatLoop count fmt = if fmt.length < 256 then .ok fmt else .error .formatOverflow := by
  cases fmt with
  | nil => simp [formatLoop]
  | cons c fmt =>
    obtain ⟨hc, hfmt⟩ : '%' ≠ c ∧ '%' ∉ fmt := by simpa using h
    have hall : ∀ x ∈ fmt, decide (x ≠ '%') = true := fun x hx => by
      simpa using fun he : x = '%' => hfmt (he ▸ hx)
    rw [formatLoop.eq_def]
    simp only [if_neg (Ne.symm hc), List.takeWhile_eq_self_iff.mpr hall,
      List.dropWhile_eq_nil_iff.mpr hall, formatLoop, Except.map, List.append_nil, List.length_cons]

/-- The scan behind a `%` leaves the format if there is neither a letter nor a `%` in it. -/
theorem formatLoop_pastEnd {fmt : List Char} (h : ∀ c ∈ fmt, scans c = true) (count : Nat) :
    formatLoop count ('%' :: fmt) =
      .error (if fmt.length + 1 < 256 then .pastEnd else .formatOverflow) := by
  rw [formatLoop.eq_def]
  simp only [if_true, List.takeWhile_eq_self_iff.mpr h]
  split
  · rfl
  · rename_i hrest
    rw [List.dropWhile_eq_nil_iff.mpr h] at hrest
    cases hrest

/-- A format specifier prints no `%` but for the one that ends it. -/
theorem specifier_count {count : Nat} {k : Char} {printed : List Char × Nat}
    (h : specifier count k = .ok printed) : printed.1.count '%' ≤ [k].count '%' := by
  rw [specifier] at h
  split at h
  · cases h
  split at h
  · cases h
    have hdigits : '%' ∉ Nat.toDigits 10 count := fun hmem =>
      absurd (Nat.isDigit_of_mem_toDigits (by decide) (by decide) hmem) (by decide)
    simp [List.count_eq_zero_of_not_mem hdigits]
  split at h
  · rename_i hk
    cases h
    simp [hk]
  · cases h
    have htext : "Invalid format specifier '".toList.count '%' = 0 := by decide
    have hquote : "'".toList.count '%' = 0 := by decide
    rw [List.count_append, List.count_append, htext, hquote]
    omega

/-- Each round of the loop that finds a `%` prints fewer of them than it takes. -/
theorem formatLoop_count {fmt : List Char} {count : Nat} {out : List Char}
    (h : formatLoop count fmt = .ok out) :
    out.count '%' ≤ fmt.count '%' ∧ ('%' ∈ fmt → out.count '%' < fmt.count '%') := by
  fun_induction formatLoop count fmt generalizing out with
  | case1 count =>
    cases h
    simp
  | case2 count fmt j => cases h
  | case3 count fmt j k rest hrest hshort =>
    rename_i ih
    obtain ⟨printed, hk, h⟩ := exists_of_bind_ok h
    obtain ⟨shown, hout, rfl⟩ := exists_of_map_ok h
    have hprinted := specifier_count hk
    have hshown := (ih printed hout).1
    have hsuffix := (List.dropWhile_suffix (l := fmt) scans).sublist.count_le '%'
    rw [hrest, List.count_cons] at hsuffix
    rw [List.count_singleton] at hprinted
    have hlt : (printed.1 ++ shown).count '%' < ('%' :: fmt).count '%' := by
      rw [List.count_append, List.count_cons_self]
      omega
    exact ⟨hlt.le, fun _ => hlt⟩
  | case4 count fmt j k rest hrest => cases h
  | case5 count c fmt hc j hshort =>
    rename_i ih
    obtain ⟨shown, hout, rfl⟩ := exists_of_map_ok h
    obtain ⟨hle, hlt⟩ := ih hout
    have hrun : (fmt.takeWhile (· ≠ '%')).count '%' = 0 :=
      List.count_eq_zero_of_not_mem fun hmem => by simpa using List.mem_takeWhile_imp hmem
    have hcount : (c :: fmt).count '%' = (fmt.dropWhile (· ≠ '%')).count '%' := by
      have hsplit := congrArg (List.count '%')
        (List.takeWhile_append_dropWhile (p := fun x => decide (x ≠ '%')) (l := fmt))
      rw [List.count_append] at hsplit
      rw [List.count_cons_of_ne hc]
      omega
    have hmem : '%' ∈ c :: fmt → '%' ∈ fmt.dropWhile (· ≠ '%') := fun h => by
      rw [← List.count_pos_iff] at h ⊢
      omega
    rw [List.cons_append, List.count_cons_of_ne hc, List.count_append, hrun, hcount]
    exact ⟨by omega, fun h => by have := hlt (hmem h); omega⟩
  | case6 count c fmt hc j => cases h

/-! ## Digits -/

theorem exists_digit {n : Nat} {c : Char} (h : c ∈ Nat.toDigits 16 n) :
    ∃ d : Nat, d < 16 ∧ c = Nat.digitChar d := by
  induction n using Nat.strongRecOn with
  | _ n ih =>
    rw [Nat.toDigits_eq_if (by decide)] at h
    split at h
    · rename_i hn
      exact ⟨n, hn, by simpa using h⟩
    · rcases List.mem_append.mp h with hfront | hlast
      · exact ih (n / 16) (by omega) hfront
      · exact ⟨n % 16, by omega, by simpa using hlast⟩

theorem percent_notMem_hexadecimal (width n : Nat) : '%' ∉ hexadecimal width n := by
  intro h
  rcases List.mem_append.mp h with hpad | hdigits
  · exact absurd (List.eq_of_mem_replicate hpad) (by decide)
  · obtain ⟨c, hc, hupper⟩ := List.mem_map.mp hdigits
    obtain ⟨d, hd, rfl⟩ := exists_digit hc
    have hall : ∀ d < 16, (Nat.digitChar d).toUpper ≠ '%' := by decide +kernel
    exact hall d hd hupper

theorem hexadecimal_length (n : Nat) :
    (hexadecimal 4 n).length = max 4 (Nat.toDigits 16 n).length := by
  rw [hexadecimal, List.length_leftpad, List.length_map]

theorem toDigits_length {n : Nat} : (Nat.toDigits 16 n).length ≤ 4 ↔ n < 0x10000 :=
  Nat.length_toDigits_le_iff (by decide) (by decide)

theorem ushort_lt (value : Int) : ushort value < 0x10000 := (BitVec.ofInt 16 value).isLt

/-- Four digits are what `command_print` needs for an address. -/
theorem ushort_length (value : Int) : (hexadecimal 4 (ushort value)).length = 4 := by
  have := toDigits_length.mpr (ushort_lt value)
  rw [hexadecimal_length]
  omega

theorem ushort_eq (value : Int) : (ushort value : Int) = value % 0x10000 := by
  simp [ushort, BitVec.toNat_ofInt]
  omega

@[simp] theorem ushort_neg_one : ushort (-1) = 0xffff := by decide

/-- No value is left out but the ones that end in `$ffff`. -/
theorem ne_of_ushort {value : Int} (h : ushort value ≠ 0xffff) : value ≠ -1 := by
  have := ushort_eq value
  omega

/-- The length of an address in full tells whether it has a sign and more than four digits. -/
theorem fullValue_length (value : Int) :
    (fullValue value).length = (if value < 0 then 1 else 0) + 2 +
      (hexadecimal 4 value.natAbs).length := by
  simp only [fullValue, List.length_append]
  split <;> rfl

/-- An address that `command_print` shows, and that takes six characters in full, is shown as it
is. -/
theorem representable_of_length {value : Int} (h : ushort value ≠ 0xffff)
    (hlength : (fullValue value).length ≤ 6) : Representable value := by
  have hne := ushort_eq value
  rw [fullValue_length, hexadecimal_length] at hlength
  split at hlength
  · omega
  · have := toDigits_length.mp (show (Nat.toDigits 16 value.natAbs).length ≤ 4 by omega)
    right
    omega

theorem representable_of_ne {value : Int}
    (h : value ≠ -1 → ushort value ≠ 0xffff ∧ (fullValue value).length ≤ 6) :
    Representable value := by
  by_cases hnone : value = -1
  · exact .inl hnone
  · exact representable_of_length (h hnone).1 (h hnone).2

/-- In full an address takes six characters at least, which is what `command_print` takes for one. -/
theorem six_le_fullValue (value : Int) : 6 ≤ (fullValue value).length := by
  rw [fullValue_length, hexadecimal_length]
  omega

/-- Of an address that fits, `$ffff` in its lower half says that there is none. -/
theorem ushort_of_representable {value : Int} (h : Representable value) :
    ushort value = 0xffff ↔ value = -1 := by
  have := ushort_eq value
  rcases h with h | h <;> omega

/-- An address that fits is printed in full. -/
theorem fullValue_of_representable {value : Int} (h : Representable value) (hne : value ≠ -1) :
    fullValue value = "0x".toList ++ hexadecimal 4 (ushort value) := by
  obtain ⟨hle, hlt⟩ := h.resolve_left hne
  have hushort : ushort value = value.natAbs := by
    have := ushort_eq value
    omega
  rw [fullValue, if_neg (by omega), hushort]
  rfl

theorem percent_notMem_fullValue (value : Int) : '%' ∉ fullValue value := by
  simp only [fullValue, List.mem_append, not_or]
  refine ⟨⟨?_, by decide⟩, percent_notMem_hexadecimal _ _⟩
  split <;> decide

/-! ## The two lines -/

namespace Command

variable (device : List Char) (machine : Option Machine) (self : Command)

/-- What the calls of `sprintf` leave in `result`. -/
def printedRange : List Char := self.rangeCalls.flatMap Prod.fst

def printedSkip : List Char := self.skipCalls.flatMap Prod.fst

/-- Every address shown has four digits, whatever its value. -/
theorem printedRange_length : self.printedRange.length =
    if ushort self.start ≠ 0xffff then 10 + if ushort self.stop ≠ 0xffff then 7 else 0 else 0 := by
  rw [printedRange, rangeCalls]
  split <;> [split; skip] <;> simp [ushort_length]

theorem fullRange_length : self.fullRange.length =
    if self.start ≠ -1 ∨ self.stop ≠ -1 then
      4 + (if self.start ≠ -1 then (fullValue self.start).length else 0) +
        if self.stop ≠ -1 then 1 + (fullValue self.stop).length else 0
    else 0 := by
  rw [fullRange]
  split
  · split <;> split <;> simp <;> omega
  · rfl

theorem printedSkip_length :
    self.printedSkip.length = if ushort self.skip ≠ 0xffff then 10 else 0 := by
  rw [printedSkip, skipCalls]
  split <;> simp [ushort_length]

theorem fullSkip_length : self.fullSkip.length =
    if self.skip ≠ -1 then 4 + (fullValue self.skip).length else 0 := by
  rw [fullSkip]
  split
  · simp
    omega
  · rfl

/-- The addresses never take more than they do in full, and as much only if they are the same. -/
theorem range_length : self.printedRange.length ≤ self.fullRange.length ∧
    (self.printedRange.length = self.fullRange.length →
      Representable self.start ∧ Representable self.stop ∧ (self.stop ≠ -1 → self.start ≠ -1)) := by
  have hstart := six_le_fullValue self.start
  have hstop := six_le_fullValue self.stop
  have hshownStart : ushort self.start ≠ 0xffff → self.start ≠ -1 := ne_of_ushort
  have hshownStop : ushort self.stop ≠ 0xffff → self.stop ≠ -1 := ne_of_ushort
  rw [printedRange_length, fullRange_length]
  constructor
  · split_ifs <;> omega
  · intro h
    obtain ⟨hrepStart, hrepStop, hopens⟩ :
        (self.start ≠ -1 → ushort self.start ≠ 0xffff ∧ (fullValue self.start).length ≤ 6) ∧
        (self.stop ≠ -1 → ushort self.stop ≠ 0xffff ∧ (fullValue self.stop).length ≤ 6) ∧
        (self.stop ≠ -1 → self.start ≠ -1) := by
      split_ifs at h <;> omega
    exact ⟨representable_of_ne hrepStart, representable_of_ne hrepStop, hopens⟩

/-- The same for the bytes to skip. -/
theorem skip_length : self.printedSkip.length ≤ self.fullSkip.length ∧
    (self.printedSkip.length = self.fullSkip.length → Representable self.skip) := by
  have hskip := six_le_fullValue self.skip
  have hshown : ushort self.skip ≠ 0xffff → self.skip ≠ -1 := ne_of_ushort
  rw [printedSkip_length, fullSkip_length]
  constructor
  · split_ifs <;> omega
  · intro h
    have hrepSkip : self.skip ≠ -1 →
        ushort self.skip ≠ 0xffff ∧ (fullValue self.skip).length ≤ 6 := by
      split_ifs at h <;> omega
    exact representable_of_ne hrepSkip

/-- Addresses that fit are printed in full. -/
theorem printedRange_eq (hstart : Representable self.start) (hstop : Representable self.stop)
    (hopens : self.stop ≠ -1 → self.start ≠ -1) : self.printedRange = self.fullRange := by
  rw [printedRange, rangeCalls, fullRange]
  by_cases hs : self.start = -1
  · have he : self.stop = -1 := by
      by_contra he
      exact hopens he hs
    simp [hs, he]
  · have hs' : ushort self.start ≠ 0xffff := fun h => hs ((ushort_of_representable hstart).mp h)
    by_cases he : self.stop = -1
    · simp [hs, hs', he, fullValue_of_representable hstart hs]
    · have he' : ushort self.stop ≠ 0xffff := fun h => he ((ushort_of_representable hstop).mp h)
      simp [hs, hs', he, he', fullValue_of_representable hstart hs,
        fullValue_of_representable hstop he]

theorem printedSkip_eq (h : Representable self.skip) : self.printedSkip = self.fullSkip := by
  rw [printedSkip, skipCalls, fullSkip]
  by_cases hs : self.skip = -1
  · simp [hs]
  · have hs' : ushort self.skip ≠ 0xffff := fun hu => hs ((ushort_of_representable h).mp hu)
    simp [hs, hs', fullValue_of_representable h hs]

/-- The line, cut where it can differ from the one that is meant. -/
theorem printCalls_text : (self.printCalls device machine).flatMap Prod.fst =
    self.headText device machine ++ self.printedRange ++ self.printedSkip ++
      self.argv.flatMap argText := by
  cases machine <;>
  simp only [printCalls, headText, printedRange, printedSkip, List.flatMap_append,
    List.flatMap_map, Option.elim] <;>
  congr 5 <;> split_ifs <;> simp_all

theorem percent_notMem_range : '%' ∉ self.printedRange ∧ '%' ∉ self.fullRange := by
  have := percent_notMem_hexadecimal
  have := percent_notMem_fullValue
  constructor
  · rw [printedRange, rangeCalls]
    split_ifs <;> simp_all
  · rw [fullRange]
    split_ifs <;> simp_all

theorem percent_notMem_skip : '%' ∉ self.printedSkip ∧ '%' ∉ self.fullSkip := by
  have := percent_notMem_hexadecimal
  have := percent_notMem_fullValue
  constructor
  · rw [printedSkip, skipCalls]
    split_ifs <;> simp_all
  · rw [fullSkip]
    split_ifs <;> simp_all

theorem percent_mem_device : '%' ∈ deviceText device ↔ '%' ∈ device := by
  rw [deviceText, List.mem_append, List.mem_append]
  simp

theorem percent_notMem_machine (machine : Machine) : '%' ∉ machineText machine := by
  have hname : '%' ∉ machine.name := by
    rw [Machine.name]
    split <;> decide
  rw [machineText, List.mem_append, List.mem_append]
  simp [hname]

theorem percent_notMem_byte {name : Char} (hname : name ≠ '%') (value : Byte) :
    '%' ∉ byteText name value := by
  rw [byteText, List.mem_append, List.mem_append]
  simp [hname.symm, percent_notMem_hexadecimal]

/-- In front of the addresses a `%` can only come from the device: the name of a machine and the digits
have none. -/
theorem percent_mem_head : '%' ∈ self.headText device machine ↔ '%' ∈ device := by
  have hmemory := percent_notMem_byte (show 'm' ≠ '%' by decide) self.memory
  have hbank := percent_notMem_byte (show 'b' ≠ '%' by decide) self.bank
  have hmachine : '%' ∉ machine.elim [] machineText := by
    cases machine with
    | none => exact List.not_mem_nil
    | some machine => exact percent_notMem_machine machine
  have hdevice : '%' ∈ (if device = [] then [] else deviceText device) ↔ '%' ∈ device := by
    split
    · rename_i hnil
      rw [hnil]
    · exact percent_mem_device device
  simp only [headText, List.mem_append, hdevice, hmachine, or_false]
  split <;> split <;> simp only [hmemory, hbank, List.not_mem_nil, or_false]

theorem percent_mem_args : '%' ∈ self.argv.flatMap argText ↔ ∃ arg ∈ self.argv, '%' ∈ arg := by
  simp [List.mem_flatMap, argText]

/-- When there is a line at all. The machine alone does not make one. -/
theorem printed_iff : (self.printCalls device machine).any Prod.snd = true ↔
    device ≠ [] ∨ self.memory ≠ 0xff#8 ∨ self.bank ≠ 0xff#8 ∨
      ushort self.start ≠ 0xffff ∨ ushort self.skip ≠ 0xffff ∨ self.argv ≠ [] := by
  have hdevice : 0 < device.length ↔ device ≠ [] := List.length_pos_iff
  have hargv : (self.argv.map fun arg => (argText arg, true)).any Prod.snd = true ↔
      self.argv ≠ [] := by
    cases self.argv <;> simp
  have hif : ∀ (p : Prop) [Decidable p] (calls : List (List Char × Bool)),
      (if p then calls else []).any Prod.snd = true ↔ p ∧ calls.any Prod.snd = true := by
    intro p _ calls
    split <;> simp_all
  cases machine <;>
    simp only [printCalls, rangeCalls, skipCalls, List.any_append, Bool.or_eq_true, hif, hargv,
      hdevice, Option.elim, List.any_cons, List.any_nil, Bool.or_false, Bool.true_or, and_true,
      or_assoc]

variable {device machine self}

/-- Addresses that fit make the line the one it is meant to be. -/
theorem printed_text (h : self.Loggable device machine) :
    (self.printCalls device machine).flatMap Prod.fst = self.verbatim device machine := by
  rw [printCalls_text, printedRange_eq self h.start h.stop h.opens, printedSkip_eq self h.skip,
    verbatim]

/-- The logger finds nothing to format in a line that is `Loggable`. -/
theorem percent_notMem_verbatim (h : self.Loggable device machine) :
    '%' ∉ self.verbatim device machine := by
  simp only [verbatim, List.mem_append, percent_mem_head, percent_mem_args, not_or, not_exists,
    not_and]
  exact ⟨⟨⟨h.plain, (percent_notMem_range self).2⟩, (percent_notMem_skip self).2⟩, h.plains⟩

theorem length_machineText (machine : Machine) : (machineText machine).length ≤ 8 := by
  rw [machineText, Machine.name]
  split <;> decide

/-- A command with nothing to log is logged as it should be: not at all. -/
theorem loggable_of_not_given (h : ¬ self.Given device) : self.Loggable device machine := by
  simp only [Given, not_or, ne_eq, not_not] at h
  obtain ⟨rfl, hmemory, hbank, hstart, hstop, hskip, hargv⟩ := h
  refine ⟨.inl hstart, .inl hstop, .inl hskip, fun h => absurd hstop h, List.not_mem_nil,
    by simp [hargv], ?_⟩
  simp only [verbatim, headText, fullRange, fullSkip, hmemory, hbank, hstart, hstop, hskip, hargv]
  cases machine with
  | none => decide
  | some machine =>
    show (machineText machine ++ _ ++ _ ++ _ ++ _ ++ _).length < 256
    have := length_machineText machine
    simp
    omega

/-- What is printed at debug level. -/
theorem print_eq {logger : Logger} (hlevel : loglevelDebug ≤ logger.level)
    (henabled : logger.enabled = true) :
    self.print logger device machine =
      if ((self.printCalls device machine).flatMap Prod.fst).length < 1024 then
        if (self.printCalls device machine).any Prod.snd = true then
          (formatLoop 0 ((self.printCalls device machine).flatMap Prod.fst)).map fun text =>
            logger.printContext ++ printLevel loglevelDebug ++ text ++ ['\n']
        else .ok []
      else .error .resultOverflow := by
  rw [print, foldlM_append _ _ (by simp)]
  simp only [List.length_nil, Nat.zero_add, List.nil_append, Bool.false_or]
  split
  · have hlog : ¬ (loglevelDebug > logger.level ∨ logger.enabled = false) := by
      simp [hlevel, henabled]
    simp only [Except.bind, Logger.log, if_neg hlog]
  · rfl

/-- A line that comes out as it is meant is one without `%`, with addresses that fit. -/
theorem loggable_of_formatLoop {count : Nat}
    (h : formatLoop count ((self.printCalls device machine).flatMap Prod.fst) =
      .ok (self.verbatim device machine)) : self.Loggable device machine := by
  -- none of the sections that differ has a percent sign
  have hcount : ((self.printCalls device machine).flatMap Prod.fst).count '%' =
      (self.verbatim device machine).count '%' := by
    obtain ⟨hprinted, hfull⟩ := self.percent_notMem_range
    obtain ⟨hprinted', hfull'⟩ := self.percent_notMem_skip
    simp only [printCalls_text, verbatim, List.count_append, List.count_eq_zero_of_not_mem hprinted,
      List.count_eq_zero_of_not_mem hfull, List.count_eq_zero_of_not_mem hprinted',
      List.count_eq_zero_of_not_mem hfull']
  have hplain : '%' ∉ (self.printCalls device machine).flatMap Prod.fst := fun hmem => by
    have := (formatLoop_count h).2 hmem
    omega
  rw [formatLoop_plain hplain] at h
  split at h
  · rename_i hshort
    have heq := Except.ok.inj h
    have hlength := congrArg List.length heq
    have hrange := self.range_length
    have hskip := self.skip_length
    rw [printCalls_text, verbatim] at hlength
    simp only [List.length_append] at hlength
    obtain ⟨hstart, hstop, hopens⟩ := hrange.2 (by omega)
    have hmem := hplain
    simp only [printCalls_text, List.mem_append, percent_mem_head, percent_mem_args, not_or,
      not_exists, not_and] at hmem
    exact ⟨hstart, hstop, hskip.2 (by omega), hopens, hmem.1.1.1, hmem.2, heq ▸ hshort⟩
  · cases h

/-- **A command is logged without a fault and verbatim exactly if it is `Loggable`**, at debug
level: with any device, machine and context of the logger, any options and any arguments. -/
theorem print_verbatim (logger : Logger) (device : List Char) (machine : Option Machine)
    (self : Command) (hlevel : loglevelDebug ≤ logger.level) (henabled : logger.enabled = true) :
    self.print logger device machine = .ok (self.logged device machine logger) ↔
      self.Loggable device machine := by
  rw [print_eq hlevel henabled, logged]
  constructor
  · intro h
    by_cases hgiven : self.Given device
    · rw [if_pos hgiven] at h
      split at h
      · split at h
        · obtain ⟨text, htext, heq⟩ := exists_of_map_ok h
          rw [List.append_left_inj, List.append_right_inj] at heq
          exact loggable_of_formatLoop (heq ▸ htext)
        · have hnil := congrArg List.length (Except.ok.inj h)
          simp at hnil
      · cases h
    · exact loggable_of_not_given hgiven
  · intro h
    have hshort : (self.verbatim device machine).length < 1024 := h.short.trans (by decide)
    have hopens : (self.start ≠ -1 ∨ self.stop ≠ -1 ∨ self.skip ≠ -1 ∨ self.argv ≠ []) ↔
        (self.start ≠ -1 ∨ self.skip ≠ -1 ∨ self.argv ≠ []) := by
      rw [← or_assoc, or_iff_left_of_imp h.opens]
    have hprinted : (self.printCalls device machine).any Prod.snd = true ↔ self.Given device := by
      rw [printed_iff, Given, hopens, ne_eq (ushort self.start), ne_eq (ushort self.skip),
        ushort_of_representable h.start, ushort_of_representable h.skip]
    rw [printed_text h, if_pos hshort]
    by_cases hgiven : self.Given device
    · rw [if_pos (hprinted.mpr hgiven), if_pos hgiven,
        formatLoop_plain (percent_notMem_verbatim h), if_pos h.short]
      rfl
    · rw [if_neg (mt hprinted.mp hgiven), if_neg hgiven]

/-- A load of `f` at `$1000`, logged in full. -/
theorem print_verbatim_load :
    (⟨0xff#8, 0xff#8, 0x1000, -1, -1, false, [['f']]⟩ : Command).print
        ⟨6, true, [['l', 'o', 'a', 'd']]⟩ [] (some c64) =
      .ok "load: -M c64 -a 0x1000 f \n".toList := by
  have h := (print_verbatim ⟨6, true, [['l', 'o', 'a', 'd']]⟩ [] (some c64)
    ⟨0xff#8, 0xff#8, 0x1000, -1, -1, false, [['f']]⟩ (by decide) rfl).mpr
    ⟨.inr (by decide), .inl rfl, .inl rfl, by decide, by decide, by decide, by decide⟩
  exact h

/-- An argument that ends in `%`: the scan for the letter of the specifier leaves the format. -/
theorem percent_reads_past_the_end :
    (Command.new ["100%".toList]).print ⟨6, true, []⟩ [] (some c64) = .error .pastEnd := by
  have htext : ((Command.new ["100%".toList]).printCalls [] (some c64)).flatMap Prod.fst =
      "-M c64 100% ".toList := by decide
  have hloop : formatLoop 0 "-M c64 100% ".toList = .error .pastEnd := by
    have hscan : formatLoop 10 ['%', ' '] = .error .pastEnd :=
      formatLoop_pastEnd (List.forall_mem_singleton.mpr rfl) 10
    calc formatLoop 0 "-M c64 100% ".toList
      _ = (formatLoop 10 ['%', ' ']).map ("-M c64 100".toList ++ ·) := by
        rw [formatLoop.eq_def]
        rfl
      _ = .error .pastEnd := by rw [hscan]; rfl
  rw [print_eq (by decide) rfl, htext, hloop]
  decide

end Command

end Xlink.Client

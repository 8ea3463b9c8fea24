import Xlink.Client.WellFormed
import Xlink.Client.Overlap

/-!
# Memory and bank of a load

A load that is given both memory and bank uses them. A load that lacks one looks for an overlap of
its range with the I/O area: if there is one, both are set to the safe values, the given one too. A
range overlaps the area when it only touches it, and it is not always what is written.

`xlink_load` hands its size, an unsigned number, to `send`, which takes an int. What is written is
counted by this int: of a size from 2^31 on, as of a load that ends before it starts, it is no byte.
-/

namespace Xlink.Client

open Word

/-! ## Bytes in the I/O area -/

/-- Some byte of a write is in the I/O area. Addresses go around at `$10000`. -/
def WritesIo (machine : Machine) (address size : Int) : Prop :=
  ∃ i, 0 ≤ i ∧ i < size ∧ (Range.fromInt machine.io).Has ((address + i) % 0x10000)

/-- The I/O area of both machines. -/
theorem io_area (type : MachineType) :
    Range.fromInt (Machine.ofType type).io = ⟨0xd000, 0xe000⟩ := by
  cases type with
  | c64 => rfl
  | c128 => rfl

section WritesIo

variable {address size : Int} {type : MachineType}

/-- From below the area, a write reaches it; from behind it, it goes around to it. -/
theorem writesIo_iff (hlow : 0 ≤ address) (hhigh : address ≤ 0x10000) :
    WritesIo (.ofType type) address size ↔ 0 < size ∧
      (if address < 0xe000 then 0xd000 < address + size else 0x1d000 < address + size) := by
  simp only [WritesIo, io_area, Range.Has]
  constructor
  · rintro ⟨i, hi, hlt, hin, hin'⟩
    split
    next => omega
    next => omega
  · rintro ⟨hsize, hreach⟩
    split at hreach
    next hbelow =>
      refine ⟨max 0 (0xd000 - address), ?_, ?_, ?_, ?_⟩
      all_goals omega
    next hbehind => exact ⟨0x1d000 - address, by omega, by omega, by omega, by omega⟩

end WritesIo

/-! ## What a load is asked for -/

/-- A load honours memory and bank: given values are used, and without any the safe ones if and only
if a byte goes to the I/O area. -/
structure Honours (machine : Machine) (c : Command) (memory bank : Byte) (address size : Int) :
    Prop where
  givenMemory : c.memory ≠ 0xff#8 → memory = c.memory
  givenBank : c.bank ≠ 0xff#8 → bank = c.bank
  safe : c.memory = 0xff#8 → c.bank = 0xff#8 → WritesIo machine address size →
    memory = machine.safeMemory ∧ bank = machine.safeBank
  usual : c.memory = 0xff#8 → c.bank = 0xff#8 → ¬WritesIo machine address size →
    memory = machine.memory ∧ bank = machine.bank

/-- The end of a range says of a write what the I/O area asks: it is in or behind the area if the
write reaches it, and not if it does not. A range that begins at the end of the area only touches
it. -/
def EndTellsIo (start stop size : Int) : Prop :=
  if start < 0xd000 then 0xd000 ≤ stop ↔ 0xd000 < start + size
  else if start < 0xe000 then 0 < size
  else if start = 0xe000 then 0x1d000 < start + size
  else (0xd000 ≤ stop ∧ stop ≤ 0xe000) ↔ 0x1d000 < start + size

/-- With one value given, the range of the load is clear of the I/O area, or that value is the safe
one; with none, its end tells where the write goes. -/
def HonoursWhen (machine : Machine) (c loaded : Command) (address size : Int) : Prop :=
  if c.memory = 0xff#8 then
    if c.bank = 0xff#8 then EndTellsIo address loaded.stop size
    else loaded.range.overlaps (Range.fromInt machine.io) = false ∨ c.bank = machine.safeBank
  else
    if c.bank = 0xff#8 then
      loaded.range.overlaps (Range.fromInt machine.io) = false ∨ c.memory = machine.safeMemory
    else True

section Honours

variable {type : MachineType} {start stop size : Int}

/-- The end of a range tells where a write goes if an overlap does. -/
theorem endTellsIo_iff (hlow : 0 ≤ start) (hhigh : start ≤ 0x10000) :
    EndTellsIo start stop size ↔ ((⟨start, stop⟩ : Range).overlaps
      (Range.fromInt (Machine.ofType type).io) = true ↔ WritesIo (.ofType type) start size) := by
  rw [writesIo_iff hlow hhigh, io_area, EndTellsIo]
  simp only [Range.overlaps, Bool.or_eq_true, Bool.and_eq_true, decide_eq_true_eq,
    Range.mk.injEq]
  split
  next hbelow =>
    rw [if_pos (show start < 0xe000 by omega)]
    omega
  next =>
    split
    next hin => omega
    next hbehind =>
      split
      next hedge => omega
      next => omega

theorem safe_ne (type : MachineType) :
    (Machine.ofType type).safeMemory ≠ (Machine.ofType type).memory := by
  cases type with
  | c64 => decide
  | c128 => decide

section Given

variable {c loaded : Command}

/-- The overlap a load looks for. -/
def overlapsIo (machine : Machine) (c : Command) : Bool :=
  c.range.overlaps (Range.fromInt machine.io)

/-- Without memory and bank, the overlap decides between the safe and the usual values. -/
theorem apply_none (hmemory : loaded.memory = 0xff#8) (hbank : loaded.bank = 0xff#8) :
    ((loaded.applyLoadMemoryAndBank (.ofType type)).memory,
      (loaded.applyLoadMemoryAndBank (.ofType type)).bank) =
        if overlapsIo (.ofType type) loaded
        then ((Machine.ofType type).safeMemory, (Machine.ofType type).safeBank)
        else ((Machine.ofType type).memory, (Machine.ofType type).bank) := by
  rw [Command.applyLoadMemoryAndBank, if_pos (.inl hmemory), overlapsIo]
  split
  next => rfl
  next => simp [Command.applyMemoryAndBank, hmemory, hbank]

/-- A given value is used unless there is an overlap. -/
theorem apply_memory (hmemory : loaded.memory ≠ 0xff#8) (hbank : loaded.bank = 0xff#8) :
    (loaded.applyLoadMemoryAndBank (.ofType type)).memory =
      if overlapsIo (.ofType type) loaded then (Machine.ofType type).safeMemory
      else loaded.memory := by
  rw [Command.applyLoadMemoryAndBank, if_pos (.inr hbank), overlapsIo]
  split
  next => rfl
  next => simp [Command.applyMemoryAndBank, hmemory]

theorem apply_bank (hmemory : loaded.memory = 0xff#8) (hbank : loaded.bank ≠ 0xff#8) :
    (loaded.applyLoadMemoryAndBank (.ofType type)).bank =
      if overlapsIo (.ofType type) loaded then (Machine.ofType type).safeBank
      else loaded.bank := by
  rw [Command.applyLoadMemoryAndBank, if_pos (.inl hmemory), overlapsIo]
  split
  next => rfl
  next => simp [Command.applyMemoryAndBank, hbank]

theorem apply_both (hmemory : loaded.memory ≠ 0xff#8) (hbank : loaded.bank ≠ 0xff#8) :
    loaded.applyLoadMemoryAndBank (.ofType type) = loaded := by
  rw [Command.applyLoadMemoryAndBank, if_neg (not_or.mpr ⟨hmemory, hbank⟩)]

variable {memory bank : Byte}

theorem honours_none (hm : c.memory = 0xff#8) (hb : c.bank = 0xff#8) {overlap : Bool}
    (hvalues : (memory, bank) = if overlap
      then ((Machine.ofType type).safeMemory, (Machine.ofType type).safeBank)
      else ((Machine.ofType type).memory, (Machine.ofType type).bank)) :
    Honours (.ofType type) c memory bank start size ↔
      (overlap = true ↔ WritesIo (.ofType type) start size) := by
  have hsafe := safe_ne type
  cases overlap with
  | true =>
    obtain ⟨rfl, rfl⟩ := Prod.mk.inj hvalues
    constructor
    · intro h
      refine ⟨fun _ => ?_, fun _ => rfl⟩
      by_contra hclear
      exact hsafe (h.usual hm hb hclear).1
    · intro h
      exact ⟨fun h => absurd hm h, fun h => absurd hb h, fun _ _ _ => ⟨rfl, rfl⟩,
        fun _ _ hclear => absurd (h.mp rfl) hclear⟩
  | false =>
    obtain ⟨rfl, rfl⟩ := Prod.mk.inj hvalues
    constructor
    · intro h
      refine ⟨fun hfalse => absurd hfalse Bool.false_ne_true, fun hwrites => ?_⟩
      exact absurd (h.safe hm hb hwrites).1.symm hsafe
    · intro h
      exact ⟨fun h => absurd hm h, fun h => absurd hb h,
        fun _ _ hwrites => absurd (h.mpr hwrites) Bool.false_ne_true, fun _ _ _ => ⟨rfl, rfl⟩⟩

/-- With a value given, only that value is asked for. -/
theorem honours_given (h : c.memory ≠ 0xff#8 ∨ c.bank ≠ 0xff#8) :
    Honours (.ofType type) c memory bank start size ↔
      (c.memory ≠ 0xff#8 → memory = c.memory) ∧ (c.bank ≠ 0xff#8 → bank = c.bank) := by
  constructor
  · intro h
    exact ⟨h.givenMemory, h.givenBank⟩
  · rintro ⟨hmemory, hbank⟩
    refine ⟨hmemory, hbank, fun hm hb => ?_, fun hm hb => ?_⟩
    · exact absurd hm (h.resolve_right (not_not.mpr hb))
    · exact absurd hm (h.resolve_right (not_not.mpr hb))

theorem ite_eq_iff_false_or {overlap : Bool} {safe given : Byte} :
    (if overlap then safe else given) = given ↔ overlap = false ∨ given = safe := by
  cases overlap with
  | true => simp [eq_comm]
  | false => simp

/-- Memory and bank of a load with its range complete. -/
theorem honours_iff (hmemory : loaded.memory = c.memory) (hbank : loaded.bank = c.bank)
    (hstart : loaded.start = start) (hlow : 0 ≤ start) (hhigh : start ≤ 0x10000) :
    Honours (.ofType type) c (loaded.applyLoadMemoryAndBank (.ofType type)).memory
        (loaded.applyLoadMemoryAndBank (.ofType type)).bank start size ↔
      HonoursWhen (.ofType type) c loaded start size := by
  rw [HonoursWhen]
  split
  next hm =>
    split
    next hb =>
      rw [honours_none hm hb (apply_none (hmemory.trans hm) (hbank.trans hb)),
        endTellsIo_iff hlow hhigh, overlapsIo, Command.range, hstart]
    next hb =>
      rw [honours_given (.inr hb), apply_bank (hmemory.trans hm) (hbank ▸ hb), hbank,
        ite_eq_iff_false_or]
      exact ⟨fun h => h.2 hb, fun h => ⟨fun h => absurd hm h, fun _ => h⟩⟩
  next hm =>
    split
    next hb =>
      rw [honours_given (.inl hm), apply_memory (hmemory ▸ hm) (hbank.trans hb), hmemory,
        ite_eq_iff_false_or]
      exact ⟨fun h => h.1 hm, fun h => ⟨fun _ => h, fun h => absurd hb h⟩⟩
    next hb =>
      rw [honours_given (.inl hm), apply_both (hmemory ▸ hm) (hbank ▸ hb)]
      exact ⟨fun _ => trivial, fun _ => ⟨fun _ => hmemory, fun _ => hbank⟩⟩

end Given

end Honours

/-- A load honours memory and bank if and only if no overlap with the I/O area overrides a given
value, and, without any, the end of its range tells whether a byte goes there. -/
theorem memory_honoured {type : MachineType} {env : Env} {argv : List (List Char)}
    {options : List Opt} {self : Command} {filename : List Char} {file : List Byte}
    {memory bank : Byte} {address size : Int} {data : List Byte}
    (hoptions : (Command.new argv).parseOptions options = some self)
    (hargv : self.argv.head? = some filename) (hfile : env.file filename = some file)
    (hissue : .load memory bank address size data ∈ (self.load (.ofType type) env).issues) :
    Honours (.ofType type) self memory bank address (toInt size) ↔
      HonoursWhen (.ofType type) self (self.loadRange env file) address (toInt size) := by
  have hself := parsed_parseOptions (parsed_new argv) hoptions
  obtain ⟨hlow, hhigh⟩ := loadFrom_start env file hself
  obtain h | ⟨filename', file', hargv', hfile', h⟩ := load_issues (.ofType type) env self
  · rw [h] at hissue
    cases hissue
  · obtain rfl : filename = filename' := Option.some.inj (hargv.symm.trans hargv')
    obtain rfl : file = file' := Option.some.inj (hfile.symm.trans hfile')
    obtain ⟨address', hrelocate⟩ | ⟨hload, -, -⟩ := h.mem (fun _ h => mem_loadUsable h) hissue
    · cases hrelocate
    · cases hload
      exact honours_iff rfl rfl rfl hlow hhigh

theorem memory_honoured_byte :
    Honours (.ofType .c64) ⟨0xff#8, 0xff#8, 0x1000, -1, -1, false, [['f']]⟩ 0x37#8 0x00#8 0x1000
        (toInt 1) ↔
      HonoursWhen (.ofType .c64) ⟨0xff#8, 0xff#8, 0x1000, -1, -1, false, [['f']]⟩
        (Command.loadRange (romEnv fun _ => some [0x01#8])
          ⟨0xff#8, 0xff#8, 0x1000, -1, -1, false, [['f']]⟩ [0x01#8]) 0x1000 (toInt 1) :=
  @memory_honoured .c64 (romEnv fun _ => some [0x01#8]) [['f']] [.address "0x1000".toList] _ ['f']
    [0x01#8] 0x37#8 0x00#8 0x1000 1 [0x01#8] rfl rfl rfl (List.mem_singleton.mpr rfl)

/-- `load -m 0x35 -a 0xd000` of a byte, to a register of the VIC, goes to the RAM below. -/
theorem memory_overridden :
    ¬∀ (type : MachineType) (env : Env) (argv : List (List Char)) (options : List Opt)
      (self : Command) (memory bank : Byte) (address size : Int) (data : List Byte),
      (Command.new argv).parseOptions options = some self →
      .load memory bank address size data ∈ (self.load (.ofType type) env).issues →
        Honours (.ofType type) self memory bank address (toInt size) := by
  intro h
  have hissue : .load 0x33#8 0x00#8 0xd000 1 [0x01#8] ∈ (Command.load (.ofType .c64)
      (romEnv fun _ => some [0x01#8])
      ⟨0x35#8, 0xff#8, 0xd000, -1, -1, false, [['f']]⟩).issues := List.mem_singleton.mpr rfl
  have hhonours := h .c64 (romEnv fun _ => some [0x01#8]) [['f']]
    [.memory "0x35".toList, .address "0xd000".toList] _ _ _ _ _ _ rfl hissue
  exact absurd (hhonours.givenMemory (by decide)) (by decide)

end Xlink.Client

import Xlink.Lib.Word

/-!
# Ranges of the client

`range.c`, with the numerals of C it reads. Start and end of a range are C ints, of any value; the
end is exclusive where a size is taken of it and inclusive where an overlap is looked for.
-/

namespace Xlink.Client

/-! ## Integers and numerals of C -/

/-- A number as a C int of 32 bits. -/
def toInt (x : Int) : Int := x.bmod (2 ^ 32)

theorem toInt_of_small {x : Int} (hlow : -2 ^ 31 ≤ x) (hhigh : x < 2 ^ 31) : toInt x = x := by
  rw [toInt]
  exact Int.bmod_eq_of_le (by omega) (by omega)

theorem toInt_emod (x : Int) : toInt x % 2 ^ 32 = x % 2 ^ 32 := Int.bmod_emod

theorem toInt_bounds (x : Int) : -2 ^ 31 ≤ toInt x ∧ toInt x < 2 ^ 31 := by
  have hlow : -((2 ^ 32 : Nat) / 2 : Int) ≤ x.bmod (2 ^ 32) := Int.le_bmod (by decide)
  have hhigh : x.bmod (2 ^ 32) < ((2 ^ 32 : Nat) + 1 : Int) / 2 := Int.bmod_lt (by decide)
  rw [toInt]
  omega

/-- `isspace` in the C locale. -/
def isspace (c : Char) : Bool :=
  c = ' ' || (9 ≤ c.toNat && c.toNat ≤ 13)

/-- The value of a digit of some base. -/
def digit (base : Nat) (c : Char) : Option Nat :=
  let value :=
    if '0' ≤ c ∧ c ≤ '9' then some (c.toNat - '0'.toNat)
    else if 'a' ≤ c ∧ c ≤ 'z' then some (c.toNat - 'a'.toNat + 10)
    else if 'A' ≤ c ∧ c ≤ 'Z' then some (c.toNat - 'A'.toNat + 10)
    else none
  value.filter (· < base)

/-- The digits at the beginning of a text, after some that have been read. -/
def digits (base : Nat) : Nat → List Char → Nat
  | value, [] => value
  | value, c :: text =>
    match digit base c with
    | some d => digits base (value * base + d) text
    | none => value

/-- An unsigned numeral: hexadecimal after `0x`, octal after `0`, decimal otherwise. -/
def numeral : List Char → Nat
  | '0' :: 'x' :: text => digits 16 0 text
  | '0' :: 'X' :: text => digits 16 0 text
  | '0' :: text => digits 8 0 text
  | text => digits 10 0 text

/-- `strtol(text, NULL, 0)`, of 64 bits. -/
def strtol (text : List Char) : Int :=
  match text.dropWhile isspace with
  | '-' :: text => max (-2 ^ 63) (-(numeral text : Int))
  | '+' :: text => min (2 ^ 63 - 1) (numeral text)
  | text => min (2 ^ 63 - 1) (numeral text)

/-- What follows the first dash of a text: `strstr(text, "-") + 1`. -/
def afterDash : List Char → Option (List Char)
  | [] => none
  | '-' :: text => some text
  | _ :: text => afterDash text

/-! ## Ranges -/

/-- `Range`; `min` is 0 and `max` 0x10000 in every one. -/
structure Range where
  start : Int
  stop : Int
  deriving DecidableEq, Repr

namespace Range

def min : Int := 0

def max : Int := 0x10000

/-- `range_new_from_int`. -/
def fromInt (range : BitVec 32) : Range :=
  let stop := range.toNat % 0x10000
  ⟨range.toNat / 0x10000, if stop = 0 then 0x10000 else stop⟩

/-- `range_parse`; the end is -1 when there is no dash. -/
def parse (text : List Char) : Range :=
  if text = [] then ⟨0, 0x10000⟩
  else
    let start := text.dropWhile isspace
    let start :=
      if start.head?.all (· = '-') then 0 else toInt (strtol start)
    match afterDash text with
    | none => ⟨start, -1⟩
    | some stop =>
      let stop := stop.dropWhile isspace
      ⟨start, if stop = [] then 0x10000 else toInt (strtol stop)⟩

variable (r s : Range)

def valid : Bool :=
  min ≤ r.start && r.start ≤ max && min ≤ r.stop && r.stop ≤ max && r.start ≤ r.stop

def size : Int := toInt (r.stop - r.start)

def ends : Bool := r.stop ≠ -1

/-- `range_move`, which stops at the ends of memory. -/
def move (amount : Int) : Range :=
  let amount :=
    if 0 < amount ∧ max < r.stop + amount then amount - (r.stop + amount - max) else amount
  let amount :=
    if amount < 0 ∧ r.start + amount < min then amount - (r.start + amount) else amount
  ⟨r.start + amount, r.stop + amount⟩

def inside : Bool := r = s || (s.start ≤ r.start && r.stop ≤ s.stop)

def overlaps : Bool :=
  r = s || (s.start ≤ r.start && r.start ≤ s.stop) || (s.start ≤ r.stop && r.stop ≤ s.stop) ||
    (r.start ≤ s.start && s.start ≤ r.stop) || (r.start ≤ s.stop && s.stop ≤ r.stop)

variable {r s}

theorem valid_iff : r.valid = true ↔ 0 ≤ r.start ∧ r.start ≤ r.stop ∧ r.stop ≤ 0x10000 := by
  simp only [valid, Bool.and_eq_true, decide_eq_true_eq]
  simp only [Range.min, Range.max]
  omega

theorem inside_iff : r.inside s = true ↔ r = s ∨ (s.start ≤ r.start ∧ r.stop ≤ s.stop) := by
  simp only [inside, Bool.or_eq_true, Bool.and_eq_true, decide_eq_true_eq]

/-- No end of a range is in the other one, whichever way round their ends are. -/
theorem overlaps_eq_false_iff : r.overlaps s = false ↔ r ≠ s ∧
    (r.start < s.start ∨ s.stop < r.start) ∧ (r.stop < s.start ∨ s.stop < r.stop) ∧
    (s.start < r.start ∨ r.stop < s.start) ∧ (s.stop < r.start ∨ r.stop < s.stop) := by
  simp only [overlaps, Bool.or_eq_false_iff, Bool.and_eq_false_iff, decide_eq_false_iff_not,
    not_le, and_assoc, ne_eq]

end Range

end Xlink.Client

import Mathlib.Data.Nat.Digits.Defs
import Xlink.Client.Command

/-!
# The text of a range

What `range_parse` makes of `<start>`, `<start>-<end>`, `<start>-`, `-<end>` and `-`, with white
space around each part, and what `command_fill` accepts of it. The numerals of the text have any
length; `strtol` reads them as longs, and the range keeps the lower 32 bits.

`RangeText` has these texts and no others, with numerals in the three notations of `strtol`.
`parsed_exactly` is an equivalence: the range has the values of the text, and a fill accepts it
exactly when they are in order and in memory, if and only if both are below 2^31. Of other texts,
such as a numeral with letters behind it, nothing is said.
-/

namespace Xlink.Client

/-! ## Numerals -/

/-- The forms of an unsigned integer constant of C. -/
inductive Radix where
  | decimal
  | octal
  | hexadecimal (upper : Bool)
  deriving DecidableEq, Repr

def Radix.base : Radix → Nat
  | .decimal => 10
  | .octal => 8
  | .hexadecimal _ => 16

/-- What stands in front of the digits. -/
def Radix.mark : Radix → List Char
  | .decimal => []
  | .octal => ['0']
  | .hexadecimal false => ['0', 'x']
  | .hexadecimal true => ['0', 'X']

/-- The digits a form asks for: a decimal constant does not begin with a zero, and a hexadecimal one
has a digit. -/
def Radix.Begins : Radix → List Char → Prop
  | .decimal, digits => ∃ c rest, digits = c :: rest ∧ c ≠ '0'
  | .octal, _ => True
  | .hexadecimal _, digits => digits ≠ []

/-- An unsigned integer constant of C. -/
structure Numeral where
  radix : Radix
  digits : List Char
  areDigits : ∀ c ∈ digits, (digit radix.base c).isSome
  begins : radix.Begins digits

/-- The value of a digit that is one. -/
def digitValue (base : Nat) (c : Char) : Nat := (digit base c).getD 0

namespace Numeral

def text (a : Numeral) : List Char := a.radix.mark ++ a.digits

def value (a : Numeral) : Nat :=
  Nat.ofDigits a.radix.base (a.digits.reverse.map (digitValue a.radix.base))

end Numeral

/-- What ends a numeral: it is no digit, and no `x` either. -/
def Ends (rest : List Char) : Prop := ∀ c ∈ rest.head?, isspace c = true ∨ c = '-'

section Numerals

variable {base : Nat} {rest : List Char}

theorem toNat_le {c d : Char} (h : c ≤ d) : c.toNat ≤ d.toNat := h

theorem digit_of_ends {c : Char} (h : isspace c = true ∨ c = '-') : digit base c = none := by
  have hbelow : c.toNat < 48 := by
    rcases h with h | rfl
    · simp only [isspace, Bool.or_eq_true, Bool.and_eq_true, decide_eq_true_eq] at h
      rcases h with rfl | ⟨-, h⟩
      · decide
      · omega
    · decide
  have hnot : ∀ first last : Char, 48 ≤ first.toNat → ¬(first ≤ c ∧ c ≤ last) := by
    rintro first last hfirst ⟨h, -⟩
    exact absurd (hfirst.trans (toNat_le h)) (not_le.mpr hbelow)
  rw [digit, if_neg (hnot '0' '9' (by decide)), if_neg (hnot 'a' 'z' (by decide)),
    if_neg (hnot 'A' 'Z' (by decide))]
  rfl

theorem digits_end (hrest : Ends rest) (value : Nat) : digits base value rest = value := by
  cases rest with
  | nil => rfl
  | cons c rest =>
    rw [digits, digit_of_ends (hrest c rfl)]

/-- Digits are read from the left. -/
theorem digits_append (hrest : Ends rest) {text : List Char} (value : Nat)
    (htext : ∀ c ∈ text, (digit base c).isSome) :
    digits base value (text ++ rest) =
      Nat.ofDigits base (text.reverse.map (digitValue base)) + base ^ text.length * value := by
  induction text generalizing value with
  | nil =>
    rw [List.nil_append, digits_end hrest]
    simp
  | cons c text ih =>
    obtain ⟨d, hd⟩ := Option.isSome_iff_exists.mp (htext c List.mem_cons_self)
    have hvalue : digitValue base c = d := by rw [digitValue, hd, Option.getD_some]
    rw [List.cons_append, digits, hd]
    show digits base (value * base + d) (text ++ rest) = _
    rw [ih _ fun c hc => htext c (List.mem_cons_of_mem _ hc), List.reverse_cons, List.map_append,
      Nat.ofDigits_append, List.map_singleton, Nat.ofDigits_singleton, hvalue, List.length_map,
      List.length_reverse, List.length_cons]
    ring

theorem numeral_append (a : Numeral) (hrest : Ends rest) :
    numeral (a.text ++ rest) = a.value := by
  obtain ⟨radix, text, hdigits, hbegins⟩ := a
  have hread : digits radix.base 0 (text ++ rest) =
      Numeral.value ⟨radix, text, hdigits, hbegins⟩ := by
    rw [digits_append hrest 0 hdigits, Nat.mul_zero, Nat.add_zero]
    rfl
  cases radix with
  | decimal =>
    obtain ⟨c, others, rfl, hc⟩ := hbegins
    refine Eq.trans (b := digits 10 0 (c :: (others ++ rest))) ?_ hread
    show numeral (c :: (others ++ rest)) = _
    unfold numeral
    split
    next h => exact absurd (List.cons.inj h).1 hc
    next h => exact absurd (List.cons.inj h).1 hc
    next h => exact absurd (List.cons.inj h).1 hc
    next => rfl
  | octal =>
    refine Eq.trans (b := digits 8 0 (text ++ rest)) ?_ hread
    show numeral ('0' :: (text ++ rest)) = _
    have hsecond : ∀ c tail, text ++ rest = c :: tail → c ≠ 'x' ∧ c ≠ 'X' := by
      intro c tail h
      cases text with
      | nil =>
        have hends := hrest c (by rw [← List.nil_append rest, h]; rfl)
        constructor
        all_goals
          rintro rfl
          rcases hends with h | h <;> revert h <;> decide
      | cons first others =>
        obtain ⟨rfl, -⟩ := List.cons.inj h
        have hdigit := hdigits first List.mem_cons_self
        constructor
        all_goals
          rintro rfl
          revert hdigit
          decide
    unfold numeral
    split
    next tail h => exact absurd rfl (hsecond _ _ (List.cons.inj h).2).1
    next tail h => exact absurd rfl (hsecond _ _ (List.cons.inj h).2).2
    next tail _ _ h => rw [(List.cons.inj h).2]
    next h => exact absurd rfl (h _)
  | hexadecimal upper =>
    cases upper with
    | false => exact hread
    | true => exact hread

end Numerals

/-! ## The text and its parts -/

/-- White space. -/
abbrev Blank : Type := { w : List Char // ∀ c ∈ w, isspace c = true }

/-- A numeral that may be missing. -/
def partText (a : Option Numeral) : List Char := (a.map Numeral.text).getD []

/-- The texts of a range, with or without a dash. -/
inductive RangeText where
  | single (before : Blank) (a : Numeral) (after : Blank)
  | dashed (w₁ : Blank) (a : Option Numeral) (w₂ w₃ : Blank) (b : Option Numeral) (w₄ : Blank)

namespace RangeText

def text : RangeText → List Char
  | .single w₁ a w₂ => w₁.val ++ (a.text ++ w₂.val)
  | .dashed w₁ a w₂ w₃ b w₄ =>
    w₁.val ++ (partText a ++ (w₂.val ++ '-' :: (w₃.val ++ (partText b ++ w₄.val))))

def start : RangeText → Int
  | .single _ a _ => a.value
  | .dashed _ a _ _ _ _ => ((a.map Numeral.value).getD 0 : Nat)

/-- The end, which is -1 where there is no dash. -/
def stop : RangeText → Int
  | .single _ _ _ => -1
  | .dashed _ _ _ _ b _ => ((b.map Numeral.value).getD 0x10000 : Nat)

/-- The end of a fill, which is the end of memory where there is no dash. -/
def filled : RangeText → Int
  | .single _ _ _ => 0x10000
  | .dashed w₁ a w₂ w₃ b w₄ => (RangeText.dashed w₁ a w₂ w₃ b w₄).stop

end RangeText

section Parts

variable {rest : List Char}

theorem digit_text {base : Nat} {c : Char} (h : (digit base c).isSome) :
    isspace c = false ∧ c ≠ '-' ∧ c ≠ '+' := by
  refine ⟨?_, ?_, ?_⟩
  · by_contra hspace
    rw [digit_of_ends (.inl (by simpa using hspace))] at h
    cases h
  · rintro rfl
    rw [digit_of_ends (.inr rfl)] at h
    cases h
  · rintro rfl
    have hnone : digit base '+' = none := rfl
    rw [hnone] at h
    cases h

theorem text_digits (a : Numeral) : ∀ c ∈ a.text, isspace c = false ∧ c ≠ '-' ∧ c ≠ '+' := by
  intro c hc
  rcases List.mem_append.mp hc with hmark | hdigit
  · cases hradix : a.radix with
    | decimal =>
      rw [hradix] at hmark
      cases hmark
    | octal =>
      rw [hradix] at hmark
      obtain rfl := List.mem_singleton.mp hmark
      decide
    | hexadecimal upper =>
      rw [hradix] at hmark
      cases upper with
      | false =>
        rcases List.mem_pair.mp hmark with rfl | rfl <;> decide
      | true =>
        rcases List.mem_pair.mp hmark with rfl | rfl <;> decide
  · exact digit_text (a.areDigits c hdigit)

theorem text_cons (a : Numeral) : ∃ c tail, a.text = c :: tail := by
  obtain ⟨radix, text, hdigits, hbegins⟩ := a
  cases radix with
  | decimal =>
    obtain ⟨c, tail, rfl, -⟩ := hbegins
    exact ⟨c, tail, rfl⟩
  | octal => exact ⟨'0', text, rfl⟩
  | hexadecimal upper =>
    cases upper with
    | false => exact ⟨'0', 'x' :: text, rfl⟩
    | true => exact ⟨'0', 'X' :: text, rfl⟩

theorem dropWhile_blank (w : Blank) :
    (w.val ++ rest).dropWhile isspace = rest.dropWhile isspace := by
  obtain ⟨w, hw⟩ := w
  induction w with
  | nil => rfl
  | cons c w ih =>
    show ((c :: (w ++ rest)).dropWhile isspace) = _
    rw [List.dropWhile_cons_of_pos (hw c List.mem_cons_self)]
    exact ih fun d hd => hw d (List.mem_cons_of_mem _ hd)

theorem dropWhile_text (a : Numeral) :
    (a.text ++ rest).dropWhile isspace = a.text ++ rest := by
  obtain ⟨c, tail, htext⟩ := text_cons a
  have hc := text_digits a c (by rw [htext]; exact List.mem_cons_self)
  rw [htext, List.cons_append, List.dropWhile_cons_of_neg (by rw [hc.1]; decide)]

/-- `strtol` takes the largest long for what is larger. -/
theorem strtol_text (a : Numeral) (hrest : Ends rest) :
    strtol (a.text ++ rest) = min (2 ^ 63 - 1) (a.value : Int) := by
  rw [strtol, dropWhile_text, ← numeral_append a hrest]
  obtain ⟨c, tail, htext⟩ := text_cons a
  have hc := text_digits a c (by rw [htext]; exact List.mem_cons_self)
  rw [htext, List.cons_append]
  split
  next h => exact absurd (List.cons.inj h).1 hc.2.1
  next h => exact absurd (List.cons.inj h).1 hc.2.2
  next => rfl

theorem ends_blank (w : Blank) : Ends w.val := by
  intro c hc
  exact .inl (w.property c (List.mem_of_mem_head? hc))

theorem ends_dash (w : Blank) : Ends (w.val ++ '-' :: rest) := by
  obtain ⟨w, hw⟩ := w
  intro c hc
  cases w with
  | nil =>
    cases hc
    exact .inr rfl
  | cons d w =>
    cases hc
    exact .inl (hw _ List.mem_cons_self)

theorem not_dash_of_isspace {c : Char} (h : isspace c = true) : c ≠ '-' := by
  rintro rfl
  revert h
  decide

theorem partText_dash (a : Option Numeral) : ∀ c ∈ partText a, c ≠ '-' := by
  intro c hc
  cases a with
  | none => cases hc
  | some a => exact (text_digits a c hc).2.1

theorem afterDash_append {text : List Char} (h : ∀ c ∈ text, c ≠ '-') :
    afterDash (text ++ rest) = afterDash rest := by
  induction text with
  | nil => rfl
  | cons c text ih =>
    have hc : c ≠ '-' := h c List.mem_cons_self
    have hrest := ih fun d hd => h d (List.mem_cons_of_mem _ hd)
    rw [List.cons_append]
    conv_lhs => unfold afterDash
    split
    next heq => cases heq
    next heq => exact absurd (List.cons.inj heq).1 hc
    next heq =>
      rw [← (List.cons.inj heq).2]
      exact hrest

end Parts

/-! ## Parsing -/

/-- What a range keeps of a value: a long, cut to an int. -/
def clip (value : Int) : Int := toInt (min (2 ^ 63 - 1) value)

theorem clip_eq_iff {value : Int} (h : -1 ≤ value) : clip value = value ↔ value < 2 ^ 31 := by
  constructor
  · intro heq
    rw [← heq]
    exact (toInt_bounds _).2
  · intro hlt
    rw [clip, min_eq_right (by omega)]
    exact toInt_of_small (by omega) hlt

namespace RangeText

theorem start_nonneg (t : RangeText) : 0 ≤ t.start := by
  cases t with
  | single => exact Int.natCast_nonneg _
  | dashed => exact Int.natCast_nonneg _

theorem dashed_stop_nonneg (w₁ : Blank) (a : Option Numeral) (w₂ w₃ : Blank)
    (b : Option Numeral) (w₄ : Blank) : 0 ≤ (RangeText.dashed w₁ a w₂ w₃ b w₄).stop :=
  Int.natCast_nonneg _

theorem stop_bound (t : RangeText) : -1 ≤ t.stop := by
  cases t with
  | single => exact le_rfl
  | dashed w₁ a w₂ w₃ b w₄ => exact le_trans (by decide) (dashed_stop_nonneg w₁ a w₂ w₃ b w₄)

theorem afterDash_dashed (w₁ : Blank) (a : Option Numeral) (w₂ : Blank) (rest : List Char) :
    afterDash (w₁.val ++ (partText a ++ (w₂.val ++ '-' :: rest))) = some rest := by
  rw [afterDash_append fun d hd => not_dash_of_isspace (w₁.property d hd),
    afterDash_append (partText_dash a),
    afterDash_append fun d hd => not_dash_of_isspace (w₂.property d hd)]
  rfl

theorem afterDash_single (w₁ : Blank) (a : Numeral) (w₂ : Blank) :
    afterDash (w₁.val ++ (a.text ++ w₂.val)) = none := by
  rw [afterDash_append fun d hd => not_dash_of_isspace (w₁.property d hd),
    afterDash_append fun d hd => (text_digits a d hd).2.1, ← List.append_nil w₂.val,
    afterDash_append fun d hd => not_dash_of_isspace (w₂.property d hd)]
  rfl

/-- A numeral after white space. -/
theorem toInt_strtol (w : Blank) (a : Numeral) {rest : List Char} (hrest : Ends rest) :
    toInt (strtol ((w.val ++ (a.text ++ rest)).dropWhile isspace)) = clip a.value := by
  rw [dropWhile_blank, dropWhile_text, strtol_text a hrest]
  rfl

theorem head_numeral (w : Blank) (a : Numeral) (rest : List Char) :
    ((w.val ++ (a.text ++ rest)).dropWhile isspace).head?.all (· = '-') = false := by
  obtain ⟨c, tail, htext⟩ := text_cons a
  have hc := text_digits a c (by rw [htext]; exact List.mem_cons_self)
  rw [dropWhile_blank, dropWhile_text, htext]
  simpa using hc.2.1

theorem text_ne_nil (t : RangeText) : t.text ≠ [] := by
  cases t with
  | single w₁ a w₂ =>
    obtain ⟨c, tail, htext⟩ := text_cons a
    rw [RangeText.text, htext]
    simp
  | dashed w₁ a w₂ w₃ b w₄ => simp [RangeText.text]

/-- The start of a text, as it is parsed. -/
theorem parse_start (t : RangeText) :
    (if (t.text.dropWhile isspace).head?.all (· = '-') then 0
      else toInt (strtol (t.text.dropWhile isspace))) = clip t.start := by
  cases t with
  | single w₁ a w₂ =>
    rw [RangeText.text, head_numeral, if_neg Bool.false_ne_true, toInt_strtol _ _ (ends_blank w₂)]
    rfl
  | dashed w₁ a w₂ w₃ b w₄ =>
    rw [RangeText.text]
    cases a with
    | none =>
      rw [dropWhile_blank]
      show (if ((w₂.val ++ '-' :: _).dropWhile isspace).head?.all (· = '-') then _ else _) = _
      rw [dropWhile_blank]
      rfl
    | some a =>
      show (if ((w₁.val ++ (a.text ++ _)).dropWhile isspace).head?.all (· = '-') then _ else
        toInt (strtol ((w₁.val ++ (a.text ++ _)).dropWhile isspace))) = _
      rw [head_numeral, if_neg Bool.false_ne_true, toInt_strtol _ _ (ends_dash w₂)]
      rfl

/-- The end after a dash, as it is parsed. -/
theorem parse_stop (w₃ : Blank) (b : Option Numeral) (w₄ : Blank) :
    (if (w₃.val ++ (partText b ++ w₄.val)).dropWhile isspace = [] then 0x10000
      else toInt (strtol ((w₃.val ++ (partText b ++ w₄.val)).dropWhile isspace))) =
        clip ((b.map Numeral.value).getD 0x10000 : Nat) := by
  cases b with
  | none =>
    have hnil : (w₃.val ++ (partText none ++ w₄.val)).dropWhile isspace = [] := by
      show (w₃.val ++ w₄.val).dropWhile isspace = []
      rw [dropWhile_blank, ← List.append_nil w₄.val, dropWhile_blank]
      rfl
    rw [if_pos hnil]
    rfl
  | some b =>
    have hne : (w₃.val ++ (partText (some b) ++ w₄.val)).dropWhile isspace ≠ [] := by
      obtain ⟨c, tail, htext⟩ := text_cons b
      show (w₃.val ++ (b.text ++ w₄.val)).dropWhile isspace ≠ []
      rw [dropWhile_blank, dropWhile_text, htext]
      simp
    rw [if_neg hne]
    exact toInt_strtol w₃ b (ends_blank w₄)

/-- What the parser finds in a text. -/
theorem parse_text (t : RangeText) : Range.parse t.text = ⟨clip t.start, clip t.stop⟩ := by
  rw [Range.parse, if_neg (text_ne_nil t)]
  simp only [parse_start]
  cases t with
  | single w₁ a w₂ =>
    rw [RangeText.text, afterDash_single]
    rfl
  | dashed w₁ a w₂ w₃ b w₄ =>
    rw [RangeText.text, afterDash_dashed]
    show Range.mk _ _ = _
    rw [parse_stop]
    rfl

/-! ## What is exact -/

/-- The parser gives the values of the text, and a fill accepts what is in order and in memory. -/
structure Exact (t : RangeText) : Prop where
  start : (Range.parse t.text).start = t.start
  stop : (Range.parse t.text).stop = t.stop
  accepted : (Command.fillRange t.text).valid = true ↔
    0 ≤ t.start ∧ t.start ≤ t.filled ∧ t.filled ≤ 0x10000

/-- A text is read exactly if and only if its values are ints. -/
theorem parsed_exactly (t : RangeText) : t.Exact ↔ t.start < 2 ^ 31 ∧ t.stop < 2 ^ 31 := by
  have hstart := clip_eq_iff (le_trans (by decide) t.start_nonneg : -1 ≤ t.start)
  have hstop := clip_eq_iff t.stop_bound
  constructor
  · rintro ⟨h, h', -⟩
    rw [parse_text] at h h'
    exact ⟨hstart.mp h, hstop.mp h'⟩
  · rintro ⟨h, h'⟩
    have hparse : Range.parse t.text = ⟨t.start, t.stop⟩ := by
      rw [parse_text, hstart.mpr h, hstop.mpr h']
    refine ⟨by rw [hparse], by rw [hparse], ?_⟩
    have hfill : Command.fillRange t.text = ⟨t.start, t.filled⟩ := by
      rw [Command.fillRange, hparse]
      cases t with
      | single => rfl
      | dashed w₁ a w₂ w₃ b w₄ =>
        have hnonneg := dashed_stop_nonneg w₁ a w₂ w₃ b w₄
        have hne : (RangeText.dashed w₁ a w₂ w₃ b w₄).stop ≠ -1 := by omega
        exact if_pos (decide_eq_true hne)
    rw [hfill, Range.valid_iff]

/-- A hexadecimal numeral that an int has no room for. -/
def beyond (last : Char) (hlast : (digit 16 last).isSome) : Numeral where
  radix := .hexadecimal false
  digits := ['1', '0', '0', '0', '0', '0', '0', last, '0']
  areDigits := by
    simp only [Radix.base, List.forall_mem_cons]
    exact ⟨rfl, rfl, rfl, rfl, rfl, rfl, rfl, hlast, rfl, List.forall_mem_nil _⟩
  begins := List.cons_ne_nil _ _

/-- The text `0x100000000-0x100000010`. -/
def beyondInts : RangeText :=
  .dashed ⟨[], List.forall_mem_nil _⟩ (some (beyond '0' rfl)) ⟨[], List.forall_mem_nil _⟩
    ⟨[], List.forall_mem_nil _⟩ (some (beyond '1' rfl)) ⟨[], List.forall_mem_nil _⟩

/-- The fill begins at 0 and is accepted. -/
theorem beyond_ints_accepted : ¬∀ t : RangeText, t.Exact := by
  intro h
  have hstart := (h beyondInts).start
  have hparsed : (Range.parse beyondInts.text).start = 0 := by decide
  have hvalue : beyondInts.start = 0x100000000 := by decide
  rw [hparsed, hvalue] at hstart
  cases hstart

end RangeText

end Xlink.Client

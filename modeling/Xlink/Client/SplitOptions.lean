import Xlink.Client.Reads

/-!
# Splitting and option parsing

The splitting guesses from an argument whether it takes the next one; `getopt_long`, which
`command_parse_options` calls on each command, knows the options. The guess looks at one character:
the one behind the dash in an argument of two, and the one after that in a longer one. It is right
for a single short option and for a long option written out, but not for `-f`, for options in one
argument or for a value behind `=`.

A command with an arity makes the guess at each of its arguments. The others make it at command
words only: they treat no other value of an option as one (`-d` and a device, without a command),
and an option with `=` does them no harm. There the two agree if the command words among the
arguments are just the values that options take from the next argument.
-/

namespace Xlink.Client

open Loop Getopt

/-! ## One option -/

/-- The short options with an argument. -/
def argLetters : List Char := ['d', 'M', 'm', 'b', 'a', 's']

/-- The characters the guess looks for; `-f` has no argument, `--force` has one. -/
def guessLetters : List Char := argLetters ++ ['f']

/-- An option whose next argument the guess and `getopt_long` tell alike: `-f` is none; of several
short options in one argument, the second is one of these characters if and only if the last has an
argument and no other has; a long one that begins with such a character takes the next argument. -/
def SpelledAlike : Token → Prop
  | '-' :: '-' :: name => (∃ c ∈ name.head?, c ∈ guessLetters) →
      longTakes optionTable.long name = true
  | ['-', c] => c ≠ 'f'
  | '-' :: c :: c' :: rest => c' ∈ guessLetters ↔
      clusterTakes optionTable.short (c :: c' :: rest) = true
  | _ => True

section Spelled

theorem isOptarg_eq (option : Token) : isOptarg option = (hasDash option &&
    guessLetters.any fun v => (option.length = 2 && option[1]? = some v) ||
      (2 < option.length && option[2]? = some v)) := rfl

theorem isOptarg_pair (c : Char) : isOptarg ['-', c] = true ↔ c ∈ guessLetters := by
  have hdash : hasDash ['-', c] = true := rfl
  rw [isOptarg_eq, hdash, Bool.true_and, List.any_eq_true]
  simp

theorem isOptarg_long (c c' : Char) (rest : Token) :
    isOptarg ('-' :: c :: c' :: rest) = true ↔ c' ∈ guessLetters := by
  have hdash : hasDash ('-' :: c :: c' :: rest) = true := rfl
  rw [isOptarg_eq, hdash, Bool.true_and, List.any_eq_true]
  simp

theorem findShort_none {short : List Char} {c : Char} (h : c ∉ short) :
    findShort short c = none := by
  induction short with
  | nil => rfl
  | cons o short ih =>
    have hne : ¬(o = c ∧ c ≠ ':' ∧ c ≠ ';') := by
      rintro ⟨rfl, -⟩
      exact h List.mem_cons_self
    rw [findShort, if_neg hne]
    exact ih fun hmem => h (List.mem_cons_of_mem _ hmem)

theorem findShort_iff (c : Char) :
    findShort optionTable.short c = some true ↔ c ∈ argLetters := by
  by_cases h : c ∈ optionTable.short
  · have hall : optionTable.short.all (fun o =>
        findShort optionTable.short o = some true ↔ o ∈ argLetters) = true := by decide
    simpa using List.all_eq_true.mp hall c h
  · rw [findShort_none h]
    have hsub : argLetters.all (· ∈ optionTable.short) = true := by decide
    constructor
    · intro hnone
      cases hnone
    · intro hmem
      exact absurd (by simpa using List.all_eq_true.mp hsub c hmem) h

theorem takesNext_pair {c : Char} (hc : c ≠ '-') :
    takesNext optionTable ['-', c] = true ↔ c ∈ argLetters := by
  rw [takesNext_short optionTable hc, ← findShort_iff, clusterTakes]
  split
  next h => simp [h]
  next h =>
    constructor
    · intro htrue
      cases htrue
    · intro hsome
      exact absurd hsome h

/-- A long option that takes the next argument begins like one that has an argument. -/
theorem longTakes_letter {name : List Char} (h : longTakes optionTable.long name = true) :
    ∃ c ∈ name.head?, c ∈ guessLetters := by
  have hletters : ∀ o ∈ optionTable.long, o.hasArg = true →
      o.name.head?.any (· ∈ guessLetters) = true := by decide
  unfold longTakes at h
  split at h
  next => cases h
  next =>
    split at h
    next o hfind =>
      have hne : name ≠ [] := by
        rintro rfl
        have hnone : findLong optionTable.long [] = none := by decide
        rw [hnone] at hfind
        cases hfind
      obtain ⟨hmem, rest, hprefix⟩ := findLong_some hfind
      obtain ⟨c, tail, rfl⟩ := List.exists_cons_of_ne_nil hne
      have hletter := hletters o hmem h
      rw [← hprefix] at hletter
      exact ⟨c, rfl, by simpa using hletter⟩
    next => cases h

/-- The guess is right for an option if and only if it is spelled alike. -/
theorem guess_spelled {arg : Token} (hoption : Getopt.isOption arg = true) :
    isOptarg arg = takesNext optionTable arg ↔ SpelledAlike arg := by
  unfold SpelledAlike
  split
  next name =>
    have htakes : takesNext optionTable ('-' :: '-' :: name) =
        longTakes optionTable.long name := rfl
    have hguess : isOptarg ('-' :: '-' :: name) = true ↔ ∃ c ∈ name.head?, c ∈ guessLetters := by
      cases name with
      | nil =>
        have hplain : isOptarg terminator = false := by decide
        rw [← terminator, hplain]
        simp
      | cons c rest =>
        rw [isOptarg_long]
        simp
    rw [htakes, Bool.eq_iff_iff, hguess]
    exact ⟨fun h => h.mp, fun h => ⟨h, longTakes_letter⟩⟩
  next c hlong =>
    have hc : c ≠ '-' := hlong
    rw [Bool.eq_iff_iff, isOptarg_pair, takesNext_pair hc, guessLetters, List.mem_append,
      List.mem_singleton]
    constructor
    · rintro h rfl
      exact absurd (h.mp (.inr rfl)) (by decide)
    · intro hne
      exact ⟨fun h => h.resolve_right hne, .inl⟩
  next c c' rest hlong =>
    have hc : c ≠ '-' := hlong
    rw [Bool.eq_iff_iff, isOptarg_long, takesNext_short optionTable hc]
  next hlong hpair hcluster =>
    exfalso
    unfold Getopt.isOption at hoption
    split at hoption
    next c rest =>
      cases rest with
      | nil => exact hpair c rfl
      | cons c' rest => exact hcluster c c' rest rfl
    next => cases hoption

end Spelled

/-! ## The arguments of a command -/

namespace Split

/-- The arguments with a dash that `getopt_long` leaves over: a single dash, and those behind the
end of the options. -/
def dashed (c : Split) : Nat :=
  (assigned optionTable c.args).countP fun x => x.1 = .operand && hasDash x.2

end Split

/-- Splitting and option parsing agree on a command: what is treated as taken is what an option
takes, and what is left over is at most what the command has as its arity. -/
structure SplitAgrees (c : Split) : Prop where
  optargs : c.treated = (roles optionTable false c.args).map taken
  operands : 0 ≤ c.id.arity → (operands optionTable c.args : Int) ≤ c.id.arity

/-- In a command with an arity, every argument but the last is an option that is spelled alike, or
no argument from which the guess would be that it takes the next one, and what is left over with a
dash finds room beside the words. Otherwise the command words among the arguments are those that an
option takes, and a command of arity 0 has nothing left over. -/
structure ReadAlike (c : Split) : Prop where
  spelled : 0 < c.id.arity → ∀ x ∈ (assigned optionTable c.args).dropLast,
    if x.1 = .option then SpelledAlike x.2 else isOptarg x.2 = false
  words : c.id.arity ≤ 0 → ∀ x ∈ assigned optionTable c.args,
    x.1 = .optarg ↔ isCommand x.2 = true
  nothing : c.id.arity = 0 → c.words = 0 ∧ c.dashed = 0
  room : 0 < c.id.arity → c.dashed = 0 ∨ (c.words + c.dashed : Int) ≤ c.id.arity

section Agree

variable {c : Split} {argv rest : List Token}

/-- The guesses about a command are right if and only if its options are spelled alike. -/
theorem spelled_iff (args : List Token) : GuessedRight optionTable isOptarg false args ↔
    ∀ x ∈ (assigned optionTable args).dropLast,
      if x.1 = .option then SpelledAlike x.2 else isOptarg x.2 = false := by
  refine forall₂_congr fun x hx => ?_
  by_cases hrole : x.1 = .option
  · have hoption : Getopt.isOption x.2 = true := by
      by_contra hplain
      rcases role_of_plain false args x ((List.dropLast_subset _) hx) (by simpa using hplain)
        with h | h <;> rw [hrole] at h <;> cases h
    rw [if_pos hrole, ← guess_spelled hoption, hrole]
    rfl
  · rw [if_neg hrole, decide_eq_false hrole, Bool.false_and]

/-- What is left over of a command that is treated right: its words, and what has a dash. -/
theorem operands_eq (h : c.treated = (roles optionTable false c.args).map taken) :
    operands optionTable c.args = c.dashed + c.words := by
  have hdash : ∀ arg, Getopt.isOption arg = true → hasDash arg = true := by
    intro arg harg
    unfold Getopt.isOption at harg
    split at harg
    next => rfl
    next => cases harg
  rw [operands_split hdash, Split.dashed, Split.words, h, List.zip_map_left, List.countP_map]
  rfl

theorem length_guesses (first : Bool) (args : List Token) :
    (guesses isOptarg first args).length = args.length := by
  induction args generalizing first with
  | nil => cases first <;> rfl
  | cons current args ih => rw [guesses, List.length_cons, ih, List.length_cons]

/-- With an arity, the loop asks of every argument. -/
theorem treats_of_pos {arity : Int} (harity : 0 < arity) (first : Bool) (args : List Token) :
    treats arity first args = guesses isOptarg first args := by
  have hall : ∀ x ∈ (guesses isOptarg first args).zip args,
      (x.1 && (isCommand x.2 || decide (0 < arity))) = x.1 := by
    intro x _
    rw [decide_eq_true harity, Bool.or_true, Bool.and_true]
  rw [treats, List.map_congr_left hall]
  exact List.map_fst_zip (Nat.le_of_eq (length_guesses first args))

/-- Without one, the loop asks of the command words, which are all taken. -/
theorem Span.treats_of_nonpos {arity consumed : Int} {first : Bool} {args : List Token}
    (h : Span arity consumed first args rest) (harity : arity ≤ 0) :
    treats arity first args = args.map isCommand := by
  have hall : ∀ x ∈ (guesses isOptarg first args).zip args,
      (x.1 && (isCommand x.2 || decide (0 < arity))) = isCommand x.2 := by
    intro x hx
    rw [decide_eq_false (Int.not_lt.mpr harity), Bool.or_false]
    cases hword : isCommand x.2 with
    | true => rw [h.inside x hx hword, Bool.true_and]
    | false => rw [Bool.and_false]
  have hsnd : ((guesses isOptarg first args).zip args).map Prod.snd = args :=
    List.map_snd_zip (Nat.le_of_eq (length_guesses first args).symm)
  rw [treats, List.map_congr_left hall]
  conv_rhs => rw [← hsnd, List.map_map]
  rfl

/-- The roles of arguments are told by the arguments themselves. -/
theorem map_taken_iff (f : Token → Bool) (args : List Token) :
    args.map f = (roles optionTable false args).map taken ↔
      ∀ x ∈ assigned optionTable args, taken x.1 = f x.2 := by
  have hlength : (roles optionTable false args).length = args.length := length_roles false args
  have hfst : (assigned optionTable args).map Prod.fst = roles optionTable false args :=
    List.map_fst_zip (Nat.le_of_eq hlength)
  have hsnd : (assigned optionTable args).map Prod.snd = args :=
    List.map_snd_zip (Nat.le_of_eq hlength.symm)
  conv_lhs => rw [← hfst, List.map_map, ← hsnd, List.map_map, hsnd]
  rw [eq_comm, List.map_inj_left]
  rfl

/-- The arguments of a command are treated right if and only if its options are spelled alike, with
an arity, and only command words are taken, without one. -/
theorem treated_iff (hc : Stands c rest) :
    c.treated = (roles optionTable false c.args).map taken ↔
      (0 < c.id.arity → ∀ x ∈ (assigned optionTable c.args).dropLast,
        if x.1 = .option then SpelledAlike x.2 else isOptarg x.2 = false) ∧
      (c.id.arity ≤ 0 → ∀ x ∈ assigned optionTable c.args,
        x.1 = .optarg ↔ isCommand x.2 = true) := by
  rw [hc.treated]
  rcases Int.lt_or_le 0 c.id.arity with harity | harity
  · rw [treats_of_pos harity, guess_iff, spelled_iff]
    exact ⟨fun h => ⟨fun _ => h, fun hnone => absurd harity (Int.not_lt.mpr hnone)⟩,
      fun h => h.1 harity⟩
  · rw [hc.span.treats_of_nonpos harity, map_taken_iff]
    have hiff : (∀ x ∈ assigned optionTable c.args, taken x.1 = isCommand x.2) ↔
        ∀ x ∈ assigned optionTable c.args, x.1 = .optarg ↔ isCommand x.2 = true := by
      refine forall₂_congr fun x _ => ?_
      rw [Bool.eq_iff_iff, taken, decide_eq_true_eq]
    rw [hiff]
    exact ⟨fun h => ⟨fun hpos => absurd hpos (Int.not_lt.mpr harity), fun _ => h⟩,
      fun h => h.2 harity⟩

/-- With an arity, a command has at most as many words. -/
theorem Stands.words_le (hc : Stands c rest) (harity : 0 < c.id.arity) :
    (c.words : Int) ≤ c.id.arity := by
  have hle := hc.span.words_le (Int.le_of_lt harity) harity
  rw [Int.zero_add] at hle
  rwa [Split.words, hc.treated, treats_of_pos harity]

/-- A command that stands in an argument vector is one to agree on exactly if it is read alike. -/
theorem agrees_iff (hc : Stands c rest) : SplitAgrees c ↔ ReadAlike c := by
  constructor
  · intro h
    have hoperands := h.operands
    rw [operands_eq h.optargs] at hoperands
    obtain ⟨hspelled, hwords⟩ := (treated_iff hc).mp h.optargs
    exact ⟨hspelled, hwords, by omega, by omega⟩
  · intro h
    have hoptargs := (treated_iff hc).mpr ⟨h.spelled, h.words⟩
    refine ⟨hoptargs, fun harity => ?_⟩
    rw [operands_eq hoptargs]
    rcases Int.lt_or_eq_of_le harity with hpos | hzero
    · have hle := hc.words_le hpos
      rcases h.room hpos with hdashed | hroom
      · omega
      · omega
    · have hnothing := h.nothing hzero.symm
      omega

/-- Splitting and option parsing agree on all commands of an argument vector if and only if it
reads as commands that are all read alike. -/
theorem splitting_agrees (argv : List Token) :
    (∃ commands, CommandsNew argv (some commands) ∧ ∀ c ∈ commands, SplitAgrees c) ↔
      ∃ commands, Reads argv commands ∧ ∀ c ∈ commands, ReadAlike c := by
  simp only [commandsNew_iff]
  refine exists_congr fun commands => and_congr_right fun hreads => ?_
  refine forall₂_congr fun c hc => ?_
  obtain ⟨rest, hstands⟩ := hreads.stands c hc
  exact agrees_iff hstands

/-- In `-f load a` the splitting takes `load` for the argument of `-f`, which has none. -/
theorem splitting_disagrees : ¬ ∀ argv, ∃ commands, CommandsNew argv (some commands) ∧
    ∀ c ∈ commands, SplitAgrees c := by
  intro h
  obtain ⟨commands, hcommands, hall⟩ := h (["-f", "load", "a"].map String.toList)
  have hsplit : CommandsNew (["-f", "load", "a"].map String.toList)
      (some [⟨.none, "-f".toList, ["getopt", "-f", "load", "a"].map String.toList,
        [false, true, false]⟩]) :=
    .again rfl (.leave rfl)
  obtain rfl := Option.some.inj (hcommands.unique hsplit)
  have hagrees := (hall _ (List.mem_singleton_self _)).optargs
  exact absurd hagrees (by decide)

end Agree

end Xlink.Client

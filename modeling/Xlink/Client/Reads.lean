import Xlink.Client.Split

/-!
# Where commands end

What the splitting reads, said of the arguments and without the loop: the arguments of a command go
on up to the word that completes it, or to a command word that is not taken. Any argument vector can
be read in one way, and `commands_new` reads it so.

`splitting_conserves` rests on it: the splitting of any argument vector ends, it does not look in
front of the first argument, every command takes an argument, and the commands one after the other
are the vector again. What becomes of a command's arguments is not in this module (`SplitOptions`,
`Command`).
-/

namespace Xlink.Client

open Loop Getopt

/-! ## The arguments of a command -/

/-- An argument is a word if it is not treated as taken and has no dash. -/
def wordAt (first : Bool) (arg : Token) : Nat := if !first && !hasDash arg then 1 else 0

/-- The words among arguments, of which the first is treated as taken or not. -/
def wordCount (first : Bool) (args : List Token) : Nat :=
  ((guesses isOptarg first args).zip args).countP fun x => !x.1 && !hasDash x.2

/-- How the loop treats arguments, of which the first is taken or not: where it asks, as the
argument in front says. Without an arity it asks at the command words only. -/
def treats (arity : Int) (first : Bool) (args : List Token) : List Bool :=
  ((guesses isOptarg first args).zip args).map fun x => x.1 && (isCommand x.2 || 0 < arity)

/-- The last of the arguments takes the next one; without any, the first one is taken or not. -/
def takesOn (first : Bool) (args : List Token) : Bool := (args.getLast?.map isOptarg).getD first

/-- The arguments of a command with an arity, in front of others, when some words have been
consumed: all command words in it are taken, it is not complete before the last argument, and it
ends where no argument is left, or complete, or in front of a command word that is not taken. -/
structure Span (arity : Int) (consumed : Int) (first : Bool) (args rest : List Token) : Prop where
  inside : ∀ x ∈ (guesses isOptarg first args).zip args, isCommand x.2 = true → x.1 = true
  below : 0 < arity → args ≠ [] → consumed + wordCount first args.dropLast < arity
  ends : rest = [] ∨ (0 < arity ∧ consumed + wordCount first args = arity) ∨
    (takesOn first args = false ∧ ∃ word more, rest = word :: more ∧ isCommand word = true)

section Span

variable {arity consumed : Int} {first : Bool} {current previous : Token}
variable {args rest others : List Token}

theorem wordAt_le (first : Bool) (arg : Token) : wordAt first arg ≤ 1 := by
  unfold wordAt
  split
  next => exact Nat.le_refl 1
  next => exact Nat.zero_le 1

theorem wordCount_nil : wordCount first [] = 0 := by
  rw [wordCount, List.zip_nil_right, List.countP_nil]

theorem wordCount_cons : wordCount first (current :: args) =
    wordAt first current + wordCount (isOptarg current) args := by
  rw [wordCount, guesses, List.zip_cons_cons, List.countP_cons, Nat.add_comm]
  rfl

theorem treats_cons : treats arity first (current :: args) =
    (first && (isCommand current || 0 < arity)) :: treats arity (isOptarg current) args := rfl

theorem length_treats : (treats arity first args).length = args.length := by
  induction args generalizing first with
  | nil => cases first <;> rfl
  | cons current args ih => rw [treats_cons, List.length_cons, ih, List.length_cons]

theorem takesOn_cons : takesOn first (current :: args) = takesOn (isOptarg current) args := by
  rw [takesOn, takesOn, List.getLast?_cons]
  cases args.getLast? with
  | none => rfl
  | some last => rfl

theorem span_nil : Span arity consumed first [] rest ↔
    rest = [] ∨ (0 < arity ∧ consumed = arity) ∨
      (first = false ∧ ∃ word more, rest = word :: more ∧ isCommand word = true) := by
  constructor
  · intro h
    have hends := h.ends
    rw [wordCount_nil, Int.natCast_zero, Int.add_zero] at hends
    exact hends
  · intro h
    refine ⟨?_, fun _ hne => absurd rfl hne, ?_⟩
    · intro x hx
      rw [List.zip_nil_right] at hx
      cases hx
    · rw [wordCount_nil, Int.natCast_zero, Int.add_zero]
      exact h

theorem span_cons : Span arity consumed first (current :: args) rest ↔
    (isCommand current = true → first = true) ∧ (0 < arity → consumed < arity) ∧
      Span arity (consumed + wordAt first current) (isOptarg current) args rest := by
  constructor
  · intro h
    have hinside := h.inside
    rw [guesses, List.zip_cons_cons, List.forall_mem_cons] at hinside
    have hends := h.ends
    rw [wordCount_cons, takesOn_cons, Int.natCast_add, ← Int.add_assoc] at hends
    refine ⟨hinside.1, fun harity => ?_, hinside.2, fun harity hne => ?_, hends⟩
    · have hbelow := h.below harity (List.cons_ne_nil current args)
      omega
    · have hbelow := h.below harity (List.cons_ne_nil current args)
      rw [List.dropLast_cons_of_ne_nil hne, wordCount_cons] at hbelow
      omega
  · rintro ⟨hcurrent, hlt, h⟩
    refine ⟨?_, fun harity _ => ?_, ?_⟩
    · rw [guesses, List.zip_cons_cons, List.forall_mem_cons]
      exact ⟨hcurrent, h.inside⟩
    · by_cases hne : args = []
      · rw [hne, List.dropLast_singleton, wordCount_nil]
        have hconsumed := hlt harity
        omega
      · have hbelow := h.below harity hne
        rw [List.dropLast_cons_of_ne_nil hne, wordCount_cons]
        omega
    · rw [wordCount_cons, takesOn_cons, Int.natCast_add, ← Int.add_assoc]
      exact h.ends

/-- Without an arity, it does not matter what has been consumed. -/
theorem Span.of_nonpos (h : Span arity consumed first args rest) (harity : arity ≤ 0)
    (other : Int) : Span arity other first args rest := by
  refine ⟨h.inside, fun hpos => absurd hpos (Int.not_lt.mpr harity), ?_⟩
  rcases h.ends with hend | ⟨hpos, -⟩ | hword
  · exact .inl hend
  · exact absurd hpos (Int.not_lt.mpr harity)
  · exact .inr (.inr hword)

/-- A command has at most as many words as its arity. -/
theorem Span.words_le (h : Span arity consumed first args rest) (hconsumed : consumed ≤ arity)
    (harity : 0 < arity) : consumed + wordCount first args ≤ arity := by
  induction args generalizing consumed first with
  | nil =>
    rw [wordCount_nil]
    omega
  | cons current args ih =>
    obtain ⟨-, hlt, hrest⟩ := span_cons.mp h
    have hword := wordAt_le first current
    have hle := ih hrest (by have hbelow := hlt harity; omega)
    rw [wordCount_cons]
    omega

/-- Some of the arguments are those of the command. -/
theorem span_exists (first : Bool) (args : List Token) (hconsumed : 0 < arity → consumed ≤ arity) :
    ∃ taken rest, args = taken ++ rest ∧ Span arity consumed first taken rest := by
  induction args generalizing consumed first with
  | nil => exact ⟨[], [], rfl, span_nil.mpr (.inl rfl)⟩
  | cons current args ih =>
    by_cases hcomplete : 0 < arity ∧ consumed = arity
    · exact ⟨[], current :: args, rfl, span_nil.mpr (.inr (.inl hcomplete))⟩
    · by_cases hword : first = false ∧ isCommand current = true
      · exact ⟨[], current :: args, rfl,
          span_nil.mpr (.inr (.inr ⟨hword.1, current, args, rfl, hword.2⟩))⟩
      · have hlt : 0 < arity → consumed < arity := fun harity =>
          Int.lt_iff_le_and_ne.mpr ⟨hconsumed harity, fun heq => hcomplete ⟨harity, heq⟩⟩
        have hcurrent : isCommand current = true → first = true := by
          intro hcommand
          by_contra hfirst
          exact hword ⟨by simpa using hfirst, hcommand⟩
        have hle : 0 < arity → consumed + wordAt first current ≤ arity := by
          intro harity
          have hbelow := hlt harity
          have hone := wordAt_le first current
          omega
        obtain ⟨taken, rest, hsplit, hspan⟩ := ih (isOptarg current) hle
        refine ⟨current :: taken, rest, by rw [hsplit]; rfl, ?_⟩
        exact span_cons.mpr ⟨hcurrent, hlt, hspan⟩

/-- A word takes nothing. -/
theorem isOptarg_of_wordAt (h : wordAt first current ≠ 0) : isOptarg current = false := by
  cases hdash : hasDash current with
  | true =>
    rw [wordAt, hdash, if_neg (by simp)] at h
    exact absurd rfl h
  | false => rw [isOptarg, hdash, Bool.false_and]

theorem counted_eq (hlt : consumed < arity) :
    (if (decide (consumed < arity) && !(true && isOptarg previous) && !hasDash current) = true
      then consumed + 1 else consumed) = consumed + wordAt (isOptarg previous) current := by
  rw [decide_eq_true hlt, Bool.true_and, Bool.true_and, wordAt]
  split
  next => rfl
  next => exact (Int.add_zero consumed).symm

/-- Behind an argument, the loop appends a span, if it is not complete behind an option. -/
theorem consume_span (h : Span arity consumed (isOptarg previous) args rest)
    (hcomplete : 0 < arity → consumed = arity → isOptarg previous = false)
    (hnone : arity ≤ 0 → arity ≤ consumed) :
    consumeArguments arity consumed true (previous :: others) (args ++ rest) =
      some (args.zip (treats arity (isOptarg previous) args),
        ⟨args.reverse ++ previous :: others, rest⟩) := by
  induction args generalizing consumed previous others with
  | nil =>
    cases rest with
    | nil => rfl
    | cons current rest =>
      have hstop : ((isCommand current && !isOptarg previous) ||
          (decide (consumed = arity ∧ 0 < arity) &&
            ((true && !isOptarg previous) || !hasDash current))) = true := by
        rcases span_nil.mp h with hnil | ⟨harity, heq⟩ | ⟨hplain, word, more, hrest, hword⟩
        · cases hnil
        · simp [hcomplete harity heq, heq, harity]
        · cases hrest
          simp [hplain, hword]
      rw [List.nil_append, consumeArguments, breaksAt_cons, hstop]
      rfl
  | cons current args ih =>
    obtain ⟨hcurrent, hlt, hspan⟩ := span_cons.mp h
    have hgo : ((isCommand current && !isOptarg previous) ||
        (decide (consumed = arity ∧ 0 < arity) &&
          ((true && !isOptarg previous) || !hasDash current))) = false := by
      have hbelow : ¬(consumed = arity ∧ 0 < arity) := by omega
      rw [decide_eq_false hbelow, Bool.false_and, Bool.or_false]
      cases hword : isCommand current with
      | true => rw [hcurrent hword]; rfl
      | false => rfl
    -- the loop asks of this argument if the command has an arity, or if it is a command word
    have hasked : (consumed < arity ∨ (consumed = arity ∧ 0 < arity)) ↔ 0 < arity := by omega
    rw [List.cons_append, consumeArguments, breaksAt_cons, hgo, countsAt_cons, treatsAt_cons,
      decide_eq_decide.mpr hasked]
    simp only [Option.bind_eq_bind, Option.bind_some, Bool.false_eq_true, if_false]
    have hrest : ∀ next, Span arity next (isOptarg current) args rest →
        (0 < arity → next = arity → isOptarg current = false) →
        (arity ≤ 0 → arity ≤ next) →
        consumeArguments arity next true (current :: previous :: others) (args ++ rest) =
          some (args.zip (treats arity (isOptarg current) args),
            ⟨args.reverse ++ current :: previous :: others, rest⟩) :=
      fun next hnext hdone hnone => ih hnext hdone hnone
    rw [hrest]
    · rw [Option.bind_some, List.reverse_cons, List.append_assoc, treats_cons, List.zip_cons_cons]
      rfl
    · by_cases harity : 0 < arity
      · rw [counted_eq (hlt harity)]
        exact hspan
      · exact hspan.of_nonpos (Int.not_lt.mp harity) _
    · intro harity heq
      rw [counted_eq (hlt harity)] at heq
      have hbelow := hlt harity
      have hword : wordAt (isOptarg previous) current ≠ 0 := by omega
      exact isOptarg_of_wordAt hword
    · intro harity
      have hle := hnone harity
      split <;> omega

end Span

/-! ## The commands of an argument vector -/

namespace Split

/-- The words of a command: arguments that are not treated as taken and have no dash. -/
def words (c : Split) : Nat := (c.treated.zip c.args).countP fun x => !x.1 && !hasDash x.2

end Split

/-- A command stands in front of the other arguments: its word, if it has one, and a span. In front
of its first argument is the word, or nothing, and neither takes it. -/
structure Stands (c : Split) (rest : List Token) : Prop where
  id : c.id = str2id c.name
  argv : c.argv = "getopt".toList :: c.args
  treated : c.treated = treats c.id.arity false c.args
  name : isCommand c.name = false → c.args.head? = some c.name
  span : Span c.id.arity 0 false c.args rest

/-- An argument vector is read as commands. -/
inductive Reads : List Token → List Split → Prop
  | nil : Reads [] []
  | cons {c : Split} {rest : List Token} {commands : List Split} (h : Stands c rest)
      (hrest : Reads rest commands) : Reads (c.tokens ++ rest) (c :: commands)

section Reads

variable {argv rest : List Token} {c : Split} {commands : List Split}

/-- A dash is what the guess looks at first, and command words have none. -/
theorem isOptarg_word {word : Token} (h : isCommand word = true) : isOptarg word = false := by
  have hwords : ∀ x ∈ commandWords, isOptarg x.1 = false := by decide
  obtain ⟨id, hid⟩ : ∃ id, commandWords.lookup word = some id := by
    cases hlookup : commandWords.lookup word with
    | none =>
      rw [isCommand, str2id, hlookup] at h
      exact absurd h (by decide)
    | some id => exact ⟨id, rfl⟩
  obtain ⟨before, after, hmem, -⟩ := List.lookup_eq_some_iff.mp hid
  exact hwords (word, id) (by rw [hmem]; simp)

theorem arity_none : ¬0 < CommandCode.none.arity := by decide

theorem tokens_word (h : isCommand c.name = true) : c.tokens = c.name :: c.args := if_pos h

theorem tokens_plain (h : isCommand c.name = false) : c.tokens = c.args := by
  rw [Split.tokens, h, if_neg Bool.false_ne_true]

theorem Stands.tokens_ne_nil (h : Stands c rest) : c.tokens ≠ [] := by
  cases hword : isCommand c.name with
  | true =>
    rw [tokens_word hword]
    exact List.cons_ne_nil _ _
  | false =>
    have hname := h.name hword
    rw [tokens_plain hword]
    intro hnil
    rw [hnil] at hname
    cases hname

/-- Some command stands in front. -/
theorem stands_exists (hargv : argv ≠ []) : ∃ c rest, argv = c.tokens ++ rest ∧ Stands c rest := by
  obtain ⟨current, others, rfl⟩ := List.exists_cons_of_ne_nil hargv
  cases hword : isCommand current with
  | true =>
    obtain ⟨args, rest, rfl, hspan⟩ : ∃ args rest, others = args ++ rest ∧
        Span (str2id current).arity 0 false args rest := span_exists false others Int.le_of_lt
    refine ⟨⟨str2id current, current, "getopt".toList :: args,
      treats (str2id current).arity false args⟩, rest, ?_, rfl, rfl, rfl, ?_, hspan⟩
    · rw [tokens_word hword]
      rfl
    · intro hplain
      rw [hword] at hplain
      cases hplain
  | false =>
    obtain ⟨args, rest, rfl, hspan⟩ : ∃ args rest, others = args ++ rest ∧
        Span CommandCode.none.arity (0 + wordAt false current) (isOptarg current) args rest :=
      span_exists (isOptarg current) others fun harity => absurd harity arity_none
    refine ⟨⟨.none, current, "getopt".toList :: current :: args,
      treats CommandCode.none.arity false (current :: args)⟩, rest, ?_, ?_, rfl, rfl, fun _ => rfl,
      span_cons.mpr ⟨fun h => ?_, fun harity => absurd harity arity_none, hspan⟩⟩
    · rw [tokens_plain hword]
      rfl
    · exact (str2id_none hword).symm
    · rw [hword] at h
      cases h

theorem zip_treats (arity : Int) (first : Bool) (args : List Token) :
    (args.zip (treats arity first args)).map Prod.fst = args ∧
      (args.zip (treats arity first args)).map Prod.snd = treats arity first args :=
  ⟨List.map_fst_zip (Nat.le_of_eq length_treats.symm),
    List.map_snd_zip (Nat.le_of_eq length_treats)⟩

/-- `command_new` takes the command that stands in front. -/
theorem commandNew_stands (h : Stands c rest) (passed : List Token) :
    commandNew ⟨passed, c.tokens ++ rest⟩ = some (c, ⟨c.tokens.reverse ++ passed, rest⟩) := by
  obtain ⟨id, name, argv, treated⟩ := c
  obtain ⟨args, rfl⟩ : ∃ args, argv = "getopt".toList :: args := ⟨_, h.argv⟩
  have hid : id = str2id name := h.id
  have htreated : treated = treats id.arity false args := h.treated
  have hspan : Span id.arity 0 false args rest := h.span
  cases hword : isCommand name with
  | true =>
    have htokens : Split.tokens ⟨id, name, "getopt".toList :: args, treated⟩ = name :: args :=
      tokens_word hword
    rw [← isOptarg_word hword] at hspan htreated
    obtain ⟨hargs, hlog⟩ := zip_treats id.arity (isOptarg name) args
    rw [htokens, List.cons_append, commandNew, if_pos hword, ← hid,
      consume_span hspan (fun harity hzero => by omega) fun harity => harity,
      List.reverse_cons, List.append_assoc]
    simp only [Option.bind_eq_bind, Option.bind_some]
    rw [hargs, hlog, htreated]
    rfl
  | false =>
    obtain ⟨others, hothers⟩ : ∃ others, args = name :: others :=
      List.head?_eq_some_iff.mp (h.name hword)
    subst hothers
    have htokens : Split.tokens ⟨id, name, "getopt".toList :: name :: others, treated⟩ =
        name :: others := tokens_plain hword
    obtain rfl : id = .none := hid.trans (str2id_none hword)
    obtain ⟨-, -, hothers⟩ := span_cons.mp hspan
    have hbreaks : breaksAt CommandCode.none.arity 0 false passed name = some false := by
      rw [breaksAt, hword]
      rfl
    have hcounts : countsAt CommandCode.none.arity 0 false passed name = some false := rfl
    have htreats : treatsAt CommandCode.none.arity 0 false passed name = some false := by
      rw [treatsAt, hword]
      rfl
    obtain ⟨hargs, hlog⟩ := zip_treats CommandCode.none.arity (isOptarg name) others
    rw [htokens, List.cons_append, commandNew, if_neg (by rw [hword]; decide), str2id_none hword,
      consumeArguments, hbreaks, hcounts, htreats]
    simp only [Option.bind_eq_bind, Option.bind_some, Bool.false_eq_true, if_false]
    rw [consume_span (hothers.of_nonpos (by decide) 0) (fun harity => absurd harity arity_none)
      (fun _ => by decide), List.reverse_cons, List.append_assoc]
    simp only [Option.bind_some, List.map_cons]
    rw [hargs, hlog, htreated]
    rfl

/-- Any argument vector can be read. -/
theorem reads_exists (argv : List Token) : ∃ commands, Reads argv commands := by
  induction hn : argv.length using Nat.strongRecOn generalizing argv with
  | _ n ih =>
    by_cases hargv : argv = []
    · subst hargv
      exact ⟨[], .nil⟩
    · obtain ⟨c, rest, rfl, hc⟩ := stands_exists hargv
      have hpos := List.length_pos_of_ne_nil hc.tokens_ne_nil
      rw [List.length_append] at hn
      obtain ⟨commands, hrest⟩ := ih rest.length (by omega) rest rfl
      exact ⟨c :: commands, .cons hc hrest⟩

/-- What is read is what `commands_new` adds, wherever its loop begins. -/
theorem Reads.loops (h : Reads rest commands) (done : List Split) (passed : List Token) :
    Loops commandsBody (done, ⟨passed, rest⟩) (some (done ++ commands)) := by
  induction h generalizing done passed with
  | nil =>
    rw [List.append_nil]
    exact .leave rfl
  | @cons c rest commands hc hrest ih =>
    have hne : c.tokens ++ rest ≠ [] := List.append_ne_nil_of_left_ne_nil hc.tokens_ne_nil rest
    have hround : commandsBody (done, ⟨passed, c.tokens ++ rest⟩) =
        .inl (done ++ [c], ⟨c.tokens.reverse ++ passed, rest⟩) := by
      rw [commandsBody, if_neg hne, commandNew_stands hc]
    have hnext := ih (done ++ [c]) (c.tokens.reverse ++ passed)
    rw [List.append_assoc] at hnext
    exact .again hround hnext

/-- `commands_new` reads the argument vector. -/
theorem commandsNew_iff : CommandsNew argv (some commands) ↔ Reads argv commands := by
  constructor
  · intro h
    obtain ⟨commands', hreads⟩ := reads_exists argv
    obtain rfl := Option.some.inj (h.unique (hreads.loops [] []))
    exact hreads
  · intro h
    exact h.loops [] []

theorem Reads.flatMap_tokens (h : Reads argv commands) : commands.flatMap Split.tokens = argv := by
  induction h with
  | nil => rfl
  | cons _ _ ih => rw [List.flatMap_cons, ih]

theorem Reads.stands (h : Reads argv commands) : ∀ c ∈ commands, ∃ rest, Stands c rest := by
  induction h with
  | nil =>
    intro c hc
    cases hc
  | cons hfirst _ ih =>
    intro c hc
    rcases List.mem_cons.mp hc with rfl | hc
    · exact ⟨_, hfirst⟩
    · exact ih c hc

/-- The splitting ends, without a look in front of the first argument; every command takes an
argument, and together they are the argument vector. -/
theorem splitting_conserves (argv : List Token) : ∃ commands, CommandsNew argv (some commands) ∧
    (∀ c ∈ commands, c.tokens ≠ [] ∧ c.argv.head? = some "getopt".toList) ∧
    commands.flatMap Split.tokens = argv := by
  obtain ⟨commands, hreads⟩ := reads_exists argv
  refine ⟨commands, commandsNew_iff.mpr hreads, ?_, hreads.flatMap_tokens⟩
  intro c hc
  obtain ⟨rest, hstands⟩ := hreads.stands c hc
  refine ⟨hstands.tokens_ne_nil, ?_⟩
  rw [hstands.argv]
  rfl

end Reads

end Xlink.Client

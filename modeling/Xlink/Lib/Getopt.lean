import Mathlib.Data.List.Basic

/-!
# Options in an argument vector

How `getopt_long` of the GNU C library reads an argument vector, for any string of short options
and any table of long ones: which arguments are options, which ones the options take as theirs, and
which ones are left over. Options may stand behind other arguments; an argument `--` ends them.

A program may guess from an argument alone whether the next one belongs to it. `guess_iff` says
when such guesses are right.
-/

namespace Xlink.Getopt

/-- `struct option`, without optional arguments and flags. -/
structure LongOption where
  name : List Char
  hasArg : Bool
  val : Char
  deriving DecidableEq, Repr

/-- The short options, as a string in which a colon follows the ones with an argument, and the long
options. -/
structure Table where
  short : List Char
  long : List LongOption

/-! ## What one argument takes -/

/-- Whether a short option has an argument, if it is one. -/
def findShort : List Char → Char → Option Bool
  | [], _ => none
  | o :: short, c =>
    if o = c ∧ c ≠ ':' ∧ c ≠ ';' then some (short.head? = some ':') else findShort short c

/-- Short options in one argument: one that has an argument takes the rest of it, or the next one if
there is no rest. Others are passed over, known or not. -/
def clusterTakes (short : List Char) : List Char → Bool
  | [] => false
  | c :: rest =>
    match findShort short c with
    | some true => rest = []
    | _ => clusterTakes short rest

/-- The long option of a name: the one that has it, or the one it is the beginning of, unless there
are several that differ. -/
def findLong (long : List LongOption) (name : List Char) : Option LongOption :=
  match long.find? fun o => o.name = name with
  | some o => some o
  | none =>
    match long.filter fun o => name.isPrefixOf o.name with
    | [] => none
    | o :: others => if others.all fun p => p.hasArg = o.hasArg ∧ p.val = o.val then some o else none

/-- A long option takes the next argument if it has one and there is no `=` behind its name. -/
def longTakes (long : List LongOption) (text : List Char) : Bool :=
  if '=' ∈ text then false
  else
    match findLong long text with
    | some o => o.hasArg
    | none => false

/-- The end of the options. -/
def terminator : List Char := ['-', '-']

/-- An argument that is read as an option: a dash, and something behind it. -/
def isOption : List Char → Bool
  | '-' :: _ :: _ => true
  | _ => false

/-- An option takes the argument behind it. -/
def takesNext (table : Table) : List Char → Bool
  | '-' :: '-' :: text => longTakes table.long text
  | '-' :: text => clusterTakes table.short text
  | _ => false

theorem takesNext_short (table : Table) {c : Char} (hc : c ≠ '-') (rest : List Char) :
    takesNext table ('-' :: c :: rest) = clusterTakes table.short (c :: rest) := by
  unfold takesNext
  split
  next h => exact absurd (List.cons.inj (List.cons.inj h).2).1 hc
  next h => rw [(List.cons.inj h).2]
  next h => exact absurd rfl (h _)

/-- A name finds an option of the table that it begins. -/
theorem findLong_some {long : List LongOption} {name : List Char} {o : LongOption}
    (h : findLong long name = some o) : o ∈ long ∧ name <+: o.name := by
  unfold findLong at h
  split at h
  next found hfind =>
    cases h
    have hname : o.name = name := by simpa using List.find?_some hfind
    exact ⟨List.mem_of_find?_eq_some hfind, hname ▸ List.prefix_refl _⟩
  next =>
    split at h
    next => cases h
    next first others hfilter =>
      split at h
      next =>
        cases h
        have hmem : o ∈ long.filter fun o => name.isPrefixOf o.name := by
          rw [hfilter]
          exact List.mem_cons_self
        obtain ⟨hmem, hprefix⟩ := List.mem_filter.mp hmem
        exact ⟨hmem, List.isPrefixOf_iff_prefix.mp hprefix⟩
      next => cases h

/-! ## What an argument vector is made of -/

inductive Role where
  | option
  | optarg
  | terminator
  | operand
  deriving DecidableEq, Repr

/-- The roles of the arguments; `pending` says whether the first one is taken by an option. -/
def roles (table : Table) : Bool → List (List Char) → List Role
  | _, [] => []
  | true, _ :: args => .optarg :: roles table false args
  | false, arg :: args =>
    if arg = terminator then .terminator :: args.map fun _ => .operand
    else if isOption arg then .option :: roles table (takesNext table arg) args
    else .operand :: roles table false args

/-- The arguments that are left over when the options are read. -/
def operands (table : Table) (args : List (List Char)) : Nat :=
  (roles table false args).count .operand

/-! ## Guesses -/

section Guess

variable (table : Table) (guess : List Char → Bool)

/-- What is guessed of each argument, from the one in front of it. -/
def guesses : Bool → List (List Char) → List Bool
  | _, [] => []
  | first, arg :: args => first :: guesses (guess arg) args

/-- Guesses are right: of every argument but the last, the guess is that it takes the next one
exactly if it is an option that does. -/
def GuessedRight (pending : Bool) (args : List (List Char)) : Prop :=
  ∀ assigned ∈ ((roles table pending args).zip args).dropLast,
    guess assigned.2 = (assigned.1 = .option && takesNext table assigned.2)

variable {table guess}

/-- An argument is taken by an option. -/
def taken (role : Role) : Bool := role = .optarg

/-- Before the end of the options, the role of an argument says whether the next one is taken; one
that does not look like an option is left over or taken. -/
theorem roles_cons (table : Table) {pending : Bool} {arg : List Char}
    (h : pending = true ∨ arg ≠ terminator) (args : List (List Char)) :
    ∃ role, taken role = pending ∧ (isOption arg = false → role = .operand ∨ role = .optarg) ∧
      roles table pending (arg :: args) =
        role :: roles table (role = .option && takesNext table arg) args := by
  cases pending with
  | true => exact ⟨.optarg, rfl, fun _ => .inr rfl, rfl⟩
  | false =>
    have hend : arg ≠ terminator := h.resolve_left Bool.false_ne_true
    by_cases hoption : isOption arg = true
    · refine ⟨.option, rfl, fun hplain => ?_, ?_⟩
      · rw [hoption] at hplain
        cases hplain
      · rw [roles, if_neg hend, if_pos hoption]
        simp
    · refine ⟨.operand, rfl, fun _ => .inl rfl, ?_⟩
      rw [roles, if_neg hend, if_neg hoption]
      simp

theorem roles_terminator (args : List (List Char)) :
    roles table false (terminator :: args) = .terminator :: args.map fun _ => .operand := rfl

theorem guesses_cons_eq {first pending : Bool} {arg : List Char} {others : List Bool}
    {args : List (List Char)} : guesses guess first (arg :: args) = pending :: others ↔
      first = pending ∧ guesses guess pending (arg :: args) = pending :: others := by
  simp only [guesses, List.cons.injEq, true_and]

/-- The first of the roles is taken if it is pending. -/
theorem map_taken_cons (table : Table) (pending : Bool) (arg : List Char) (args : List (List Char)) :
    ∃ others, (roles table pending (arg :: args)).map taken = pending :: others := by
  by_cases h : pending = true ∨ arg ≠ terminator
  · obtain ⟨role, hrole, -, hroles⟩ := roles_cons table h args
    rw [hroles, List.map_cons, hrole]
    exact ⟨_, rfl⟩
  · obtain ⟨hpending, harg⟩ := not_or.mp h
    obtain rfl := not_not.mp harg
    cases pending with
    | true => exact absurd rfl hpending
    | false => exact ⟨_, rfl⟩

theorem length_roles (pending : Bool) (args : List (List Char)) :
    (roles table pending args).length = args.length := by
  induction args generalizing pending with
  | nil => cases pending <;> rfl
  | cons arg args ih =>
    by_cases h : pending = true ∨ arg ≠ terminator
    · obtain ⟨role, -, -, hroles⟩ := roles_cons table h args
      rw [hroles, List.length_cons, ih, List.length_cons]
    · obtain ⟨hpending, harg⟩ := not_or.mp h
      obtain rfl := not_not.mp harg
      obtain rfl : pending = false := by simpa using hpending
      rw [roles_terminator, List.length_cons, List.length_map, List.length_cons]

theorem taken_operands (args : List (List Char)) :
    (args.map fun _ => Role.operand).map taken = args.map fun _ => false := by
  rw [List.map_map]
  rfl

/-- Behind the end of the options nothing is taken. -/
theorem guesses_operands (first : Bool) (args : List (List Char)) :
    guesses guess first args = args.map (fun _ => false) ↔
      args = [] ∨ (first = false ∧ ∀ other ∈ args.dropLast, guess other = false) := by
  induction args generalizing first with
  | nil => simp [guesses]
  | cons arg args ih =>
    simp only [guesses, List.map_cons, List.cons.injEq, reduceCtorEq, false_or]
    rw [ih]
    cases args with
    | nil => simp
    | cons next args => simp [List.dropLast]

theorem guessed_operands (args : List (List Char)) :
    (∀ assigned ∈ ((args.map fun _ => Role.operand).zip args).dropLast,
      guess assigned.2 = (assigned.1 = .option && takesNext table assigned.2)) ↔
        ∀ other ∈ args.dropLast, guess other = false := by
  have hzip : (args.map fun _ => Role.operand).zip args = args.map fun arg => (.operand, arg) := by
    induction args with
    | nil => rfl
    | cons arg args ih => rw [List.map_cons, List.zip_cons_cons, ih, List.map_cons]
  rw [hzip, ← List.map_dropLast, List.forall_mem_map]
  exact Iff.rfl

/-- Guesses find the arguments that options take if and only if they are right. -/
theorem guess_iff (pending : Bool) (args : List (List Char)) :
    guesses guess pending args = (roles table pending args).map taken ↔
      GuessedRight table guess pending args := by
  induction args generalizing pending with
  | nil =>
    have hnil : roles table pending [] = [] := by cases pending <;> rfl
    rw [GuessedRight, hnil]
    exact ⟨fun _ _ h => absurd h List.not_mem_nil, fun _ => rfl⟩
  | cons arg args ih =>
    cases args with
    | nil =>
      obtain ⟨others, hothers⟩ := map_taken_cons table pending arg []
      have hlength := congrArg List.length hothers
      rw [List.length_map, length_roles, List.length_cons, List.length_cons] at hlength
      obtain rfl := List.length_eq_zero_iff.mp (Nat.succ.inj hlength).symm
      rw [hothers]
      refine ⟨fun _ assigned h => ?_, fun _ => rfl⟩
      rw [List.dropLast_eq_take, List.length_zip, length_roles] at h
      simp at h
    | cons next args =>
      have hargs : next :: args ≠ [] := List.cons_ne_nil _ _
      by_cases h : pending = true ∨ arg ≠ terminator
      · obtain ⟨role, hrole, -, hroles⟩ := roles_cons table h (next :: args)
        obtain ⟨others, hothers⟩ :=
          map_taken_cons table (role = .option && takesNext table arg) next args
        have hzip : (roles table (role = .option && takesNext table arg) (next :: args)).zip
            (next :: args) ≠ [] := by
          rw [← List.length_pos_iff, List.length_zip, length_roles]
          simp
        rw [hroles, List.map_cons, hrole, hothers, guesses, List.cons.injEq, guesses_cons_eq,
          ← hothers, ih, GuessedRight, GuessedRight, hroles, List.zip_cons_cons,
          List.dropLast_cons_of_ne_nil hzip, List.forall_mem_cons]
        simp only [true_and]
      · obtain ⟨hpending, harg⟩ := not_or.mp h
        obtain rfl := not_not.mp harg
        obtain rfl : pending = false := by simpa using hpending
        have hzip : ((next :: args).map fun _ => Role.operand).zip (next :: args) ≠ [] := by
          simp
        rw [GuessedRight, roles_terminator, List.zip_cons_cons, List.dropLast_cons_of_ne_nil hzip,
          List.forall_mem_cons, guessed_operands, List.map_cons, taken_operands, guesses,
          List.cons.injEq, guesses_operands]
        simp [taken]

/-! ## What is left over -/

/-- The arguments with their roles. -/
def assigned (table : Table) (args : List (List Char)) : List (Role × List Char) :=
  (roles table false args).zip args

/-- An argument that does not look like an option is left over or taken. -/
theorem role_of_plain (pending : Bool) (args : List (List Char)) :
    ∀ x ∈ (roles table pending args).zip args, isOption x.2 = false →
      x.1 = .operand ∨ x.1 = .optarg := by
  induction args generalizing pending with
  | nil =>
    intro x hx
    rw [List.zip_nil_right] at hx
    cases hx
  | cons arg args ih =>
    intro x hx hplain
    by_cases h : pending = true ∨ arg ≠ terminator
    · obtain ⟨role, -, hrole, hroles⟩ := roles_cons table h args
      rw [hroles, List.zip_cons_cons] at hx
      rcases List.mem_cons.mp hx with rfl | hx
      · exact hrole hplain
      · exact ih _ x hx hplain
    · obtain ⟨hpending, harg⟩ := not_or.mp h
      obtain rfl := not_not.mp harg
      obtain rfl : pending = false := by simpa using hpending
      rw [roles_terminator, List.zip_cons_cons] at hx
      rcases List.mem_cons.mp hx with rfl | hx
      · cases hplain
      · obtain ⟨i, -, hi⟩ := List.mem_map.mp (List.of_mem_zip hx).1
        exact .inl hi.symm

/-- What is left over has a dash, or it has none and is not taken. -/
theorem operands_split {dash : List Char → Bool}
    (hdash : ∀ arg, isOption arg = true → dash arg = true) (args : List (List Char)) :
    operands table args =
      (assigned table args).countP (fun x => x.1 = .operand && dash x.2) +
        (assigned table args).countP (fun x => !taken x.1 && !dash x.2) := by
  have hcount : operands table args = (assigned table args).countP (fun x => x.1 = .operand) := by
    have hfst : (assigned table args).map Prod.fst = roles table false args :=
      List.map_fst_zip (Nat.le_of_eq (length_roles false args))
    rw [operands, ← hfst, List.count, List.countP_map]
    rfl
  have hplain : (assigned table args).countP (fun x => x.1 = .operand && !dash x.2) =
      (assigned table args).countP (fun x => !taken x.1 && !dash x.2) := by
    apply List.countP_congr
    intro x hx
    cases hd : dash x.2 with
    | true => simp
    | false =>
      have hoption : isOption x.2 = false := by
        by_contra h
        rw [hdash x.2 (by simpa using h)] at hd
        cases hd
      rcases role_of_plain false args x hx hoption with h | h <;> simp [h, taken]
  rw [hcount, ← hplain, List.countP_eq_countP_filter_add _ _ fun x => dash x.2,
    List.countP_filter, List.countP_filter]

end Guess

end Xlink.Getopt

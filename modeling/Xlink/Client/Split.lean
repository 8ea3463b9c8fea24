import Xlink.Lib.Getopt
import Xlink.Lib.Loop

/-!
# Splitting the argument vector into commands

`commands_new` takes the arguments of the client one command at a time: a command word, then the
arguments that `command_consume_arguments` gives it. Whether an argument belongs to the option in
front of it is guessed by `isOptarg`, from characters of the option. The pointer into the vector
moves on by one, and looks back by one.
-/

namespace Xlink.Client

open Loop Getopt

/-- An argument. -/
abbrev Token := List Char

/-! ## Command words -/

/-- `COMMAND_NONE` to `COMMAND_FILL`. -/
inductive CommandCode where
  | none
  | load
  | save
  | poke
  | peek
  | jump
  | run
  | reset
  | help
  | ready
  | ping
  | bootloader
  | benchmark
  | identify
  | server
  | relocate
  | kernal
  | fill
  deriving DecidableEq, Repr

/-- The words that `str2id` compares with, in its order. -/
def commandWords : List (Token × CommandCode) :=
  [("load".toList, .load), ("save".toList, .save), ("poke".toList, .poke), ("peek".toList, .peek),
    ("jump".toList, .jump), ("run".toList, .run), ("reset".toList, .reset), ("help".toList, .help),
    ("ready".toList, .ready), ("ping".toList, .ping), ("bootloader".toList, .bootloader),
    ("benchmark".toList, .benchmark), ("identify".toList, .identify), ("server".toList, .server),
    ("relocate".toList, .relocate), ("kernal".toList, .kernal), ("fill".toList, .fill)]

def str2id (arg : Token) : CommandCode := (commandWords.lookup arg).getD .none

def isCommand (str : Token) : Bool := str2id str ≠ .none

/-- `command_arity`. -/
def CommandCode.arity : CommandCode → Int
  | .none => -1
  | .load => 1
  | .save => 1
  | .poke => 1
  | .peek => 1
  | .jump => 1
  | .run => 1
  | .reset => 0
  | .help => 1
  | .ready => 0
  | .ping => 0
  | .bootloader => 0
  | .benchmark => 0
  | .identify => 0
  | .server => 1
  | .relocate => 1
  | .kernal => 2
  | .fill => 2

/-! ## Options -/

/-- `options` and the string of short options in `command_parse_options`. -/
def optionTable : Table where
  short := "hvqfd:M:m:b:a:s:".toList
  long :=
    [⟨"help".toList, false, 'h'⟩, ⟨"verbose".toList, false, 'v'⟩, ⟨"quiet".toList, false, 'q'⟩,
      ⟨"device".toList, true, 'd'⟩, ⟨"machine".toList, true, 'M'⟩, ⟨"memory".toList, true, 'm'⟩,
      ⟨"bank".toList, true, 'b'⟩, ⟨"address".toList, true, 'a'⟩, ⟨"skip".toList, true, 's'⟩,
      ⟨"force".toList, true, 'f'⟩]

/-- `isOption`. -/
def hasDash (str : Token) : Bool := str.head? = some '-'

/-- `isOptarg` of an option; the argument is not looked at. -/
def isOptarg (option : Token) : Bool :=
  hasDash option && optionTable.long.any fun o => o.hasArg &&
    ((option.length = 2 && option[1]? = some o.val) ||
      (2 < option.length && option[2]? = some o.val))

/-! ## Consuming arguments -/

/-- The arguments in front of the pointer, the nearest one first, and those from it on. -/
structure Argv where
  passed : List Token
  rest : List Token
  deriving DecidableEq, Repr

/-- `isOptarg(previous, current)`; there is nothing to read in front of the first argument. -/
def previousTakes (passed : List Token) : Option Bool := passed.head?.map isOptarg

/-- `hasPrevious && isOptarg(previous, current)`. -/
def isTaken (hasPrevious : Bool) (passed : List Token) : Option Bool :=
  if hasPrevious then previousTakes passed else some false

/-- The two breaks of the loop in `command_consume_arguments`. -/
def breaksAt (arity consumed : Int) (hasPrevious : Bool) (passed : List Token) (current : Token) :
    Option Bool := do
  let word ← if isCommand current then (previousTakes passed).map (! ·) else some false
  if word then some true
  else if consumed = arity ∧ 0 < arity then
    (isTaken hasPrevious passed).map fun taken => (hasPrevious && !taken) || !hasDash current
  else some false

/-- An argument is consumed unless the loop continues before it counts it. -/
def countsAt (arity consumed : Int) (hasPrevious : Bool) (passed : List Token) (current : Token) :
    Option Bool :=
  if consumed < arity then
    (isTaken hasPrevious passed).map fun taken => !taken && !hasDash current
  else some false

/-- An argument is treated as the one of the option in front of it where the loop calls `isOptarg`
of it, and the answer is yes: at a command word, and, in a command with an arity, of any argument.
Otherwise the loop does not ask. -/
def treatsAt (arity consumed : Int) (hasPrevious : Bool) (passed : List Token) (current : Token) :
    Option Bool :=
  if isCommand current then previousTakes passed
  else if consumed < arity ∨ (consumed = arity ∧ 0 < arity) then isTaken hasPrevious passed
  else some false

/-- The loop of `command_consume_arguments`: the arguments it appends, each with the way it has been
treated, and where it leaves the pointer. -/
def consumeArguments (arity : Int) :
    Int → Bool → List Token → List Token → Option (List (Token × Bool) × Argv)
  | _, _, passed, [] => some ([], ⟨passed, []⟩)
  | consumed, hasPrevious, passed, current :: rest => do
    let stop ← breaksAt arity consumed hasPrevious passed current
    if stop then some ([], ⟨passed, current :: rest⟩)
    else
      let counted ← countsAt arity consumed hasPrevious passed current
      let treated ← treatsAt arity consumed hasPrevious passed current
      let (args, left) ← consumeArguments arity (if counted then consumed + 1 else consumed) true
        (current :: passed) rest
      some ((current, treated) :: args, left)

/-- A command of the vector: what `command_new` sets of it, before its options are parsed. `treated`
is no field of the source: it says of each argument behind the first entry whether the loop has
treated it as the argument of the option in front of it. -/
structure Split where
  id : CommandCode
  name : Token
  argv : List Token
  treated : List Bool
  deriving DecidableEq, Repr

/-- `command_new`. -/
def commandNew : Argv → Option (Split × Argv)
  | ⟨_, []⟩ => none
  | ⟨passed, current :: rest⟩ => do
    let id := str2id current
    let (args, left) ←
      if isCommand current then consumeArguments id.arity 0 true (current :: passed) rest
      else consumeArguments id.arity 0 false passed (current :: rest)
    some (⟨id, current, "getopt".toList :: args.map Prod.fst, args.map Prod.snd⟩, left)

/-- One round of `commands_new`. -/
def commandsBody : List Split × Argv → (List Split × Argv) ⊕ Option (List Split)
  | (commands, argv) =>
    if argv.rest = [] then .inr (some commands)
    else
      match commandNew argv with
      | none => .inr none
      | some (command, left) => .inl (commands ++ [command], left)

/-- `commands_new`: its loop ends with these commands, or with a look in front of the arguments. -/
def CommandsNew (argv : List Token) (commands : Option (List Split)) : Prop :=
  Loops commandsBody ([], ⟨[], argv⟩) commands

namespace Split

/-- The arguments of a command behind the first entry. -/
def args (c : Split) : List Token := c.argv.tail

/-- The arguments of the vector a command stands for: its name, if that is a command word, and the
ones it has collected. -/
def tokens (c : Split) : List Token := if isCommand c.name then c.name :: c.args else c.args

end Split

/-! ## Behind an argument -/

section Consume

variable {arity consumed : Int} {hasPrevious : Bool} {current : Token}

theorem str2id_none (h : isCommand current = false) : str2id current = .none := by
  simpa [isCommand] using h

/-- Behind an argument, the loop breaks at a command word that the argument does not take, and,
when it has consumed its arguments, at any that is not taken or has no dash. -/
theorem breaksAt_cons (previous : Token) (others : List Token) :
    breaksAt arity consumed hasPrevious (previous :: others) current =
      some ((isCommand current && !isOptarg previous) ||
        (decide (consumed = arity ∧ 0 < arity) &&
          ((hasPrevious && !isOptarg previous) || !hasDash current))) := by
  unfold breaksAt isTaken
  cases hword : isCommand current
  all_goals
    by_cases hconsumed : consumed = arity ∧ 0 < arity
    all_goals
      cases hasPrevious
      all_goals cases htaken : isOptarg previous <;> simp [previousTakes, hconsumed, htaken]

theorem countsAt_cons (previous : Token) (others : List Token) :
    countsAt arity consumed hasPrevious (previous :: others) current =
      some (decide (consumed < arity) && !(hasPrevious && isOptarg previous) &&
        !hasDash current) := by
  unfold countsAt isTaken
  by_cases hconsumed : consumed < arity
  all_goals
    cases hasPrevious
    all_goals simp [previousTakes, hconsumed]

theorem treatsAt_cons (previous : Token) (others : List Token) :
    treatsAt arity consumed true (previous :: others) current =
      some (isOptarg previous && (isCommand current ||
        decide (consumed < arity ∨ (consumed = arity ∧ 0 < arity)))) := by
  unfold treatsAt isTaken
  cases hword : isCommand current with
  | true => simp [previousTakes]
  | false =>
    by_cases hasked : consumed < arity ∨ (consumed = arity ∧ 0 < arity)
    · simp [previousTakes, hasked]
    · simp [hasked]

end Consume

end Xlink.Client

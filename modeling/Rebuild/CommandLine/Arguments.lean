import Rebuild.Text.Basic

/-!
# Arguments

The words of a command line, read level by level.  A level knows its options, how many other words it
takes, and the commands that open a level below.  Long options are written `--name value` or
`--name=value`, short ones `-n value`, `-nvalue` or `-n=value`; after `--` every word is a plain one.

What is read first decides: a wrong word before a request for help is an error, and after it nobody
looks at it.
-/

namespace Rebuild.Arguments

/-- What comes after the name of an option. -/
inductive Taking where
  /-- Nothing. -/
  | nothing
  /-- One value, which has to be acceptable; the option is given once. -/
  | one (accepts : String → Bool)
  /-- One value each time the option is given. -/
  | many

/-- An option. -/
structure Rule where
  name : String
  short : Option Char := none
  takes : Taking

/-- What can be written at one place of a command line. -/
structure Level where
  rules : List Rule
  /-- How many plain words there may be, if not any number. -/
  words : Option Nat := some 0
  /-- The commands; where there are some, one of them is the only plain word. -/
  commands : List String := []
  /-- The version can be asked for. -/
  hasVersion : Bool := false

/-- What was written at one level. -/
structure Given where
  /-- The options with their values, in order. -/
  options : List (String × String) := []
  words : List String := []
  /-- The command, and the arguments after it. -/
  command : Option (String × List String) := none
  deriving Repr

/-- Why nothing is to be done. -/
inductive Stop where
  | help
  | version
  /-- The arguments are wrong. -/
  | misuse
  deriving DecidableEq, Repr

/-- The meaning of one word. -/
inductive Meaning where
  | escape
  | stop (reason : Stop)
  /-- An option, with a value if one hangs on to the name. -/
  | option (rule : Rule) (attached : Option String)
  | word

/-- A name and what follows the first `=`. -/
def cutValue (cs : List Char) : String × Option String :=
  let name := String.ofList (cs.takeWhile (· ≠ '='))
  match cs.dropWhile (· ≠ '=') with
  | [] => (name, none)
  | _ :: value => (name, some (String.ofList value))

/-- The value that hangs on to a short name. -/
def shortValue? : List Char → Option String
  | [] => none
  | '=' :: value => some (String.ofList value)
  | value => some (String.ofList value)

namespace Level

/-- The meaning of a long option. -/
def long (level : Level) (cs : List Char) : Meaning :=
  let (name, value) := cutValue cs
  match level.rules.find? (·.name == name), value with
  | some rule, value => .option rule value
  | none, none =>
    if name = "help" then .stop .help
    else if name = "version" && level.hasVersion then .stop .version
    else .stop .misuse
  | none, some _ => .stop .misuse

/-- The meaning of a short option. -/
def short (level : Level) (c : Char) (rest : List Char) : Meaning :=
  match level.rules.find? (·.short == some c) with
  | some rule => .option rule (shortValue? rest)
  | none =>
    if c = 'h' then .stop .help
    else if c = 'V' && level.hasVersion then .stop .version
    else .stop .misuse

/-- The meaning of a word that may be an option. -/
def meaning (level : Level) (word : String) : Meaning :=
  match word.toList with
  | ['-', '-'] => .escape
  | '-' :: '-' :: cs => level.long cs
  | '-' :: c :: cs => level.short c cs
  | _ => .word

/-- The level with an option given, if it may be. -/
def addOption (given : Given) (rule : Rule) (value : String) : Except Stop Given :=
  let isNew := (given.options.lookup rule.name).isNone
  let added := { given with options := given.options ++ [(rule.name, value)] }
  match rule.takes with
  | .nothing => if isNew then .ok added else .error .misuse
  | .one accepts => if isNew && accepts value then .ok added else .error .misuse
  | .many => .ok added

/-- The level with a plain word given, if it may be. -/
def addWord (level : Level) (given : Given) (word : String) : Except Stop Given :=
  if level.words.all (given.words.length < ·) then
    .ok { given with words := given.words ++ [word] }
  else .error .misuse

/-- The value of an option in the next word, which must not look like an option itself. -/
def isValue (word : String) : Bool := !word.startsWith "-" || word = "-"

/-- The command that explains the others, where there are any. -/
def helpCommand : String := "help"

/-- The word is a command here. -/
def isCommand (level : Level) (word : String) : Bool :=
  word ∈ level.commands || (word == helpCommand && !level.commands.isEmpty)

/-- Reads the arguments of a level; after `--` they are all plain words (`escaped`). -/
def scan (level : Level) (escaped : Bool) (given : Given) : List String → Except Stop Given
  | [] => .ok given
  | word :: rest =>
    match if escaped then Meaning.word else level.meaning word with
    | .escape => scan level true given rest
    | .stop reason => .error reason
    | .word =>
      if !escaped && level.isCommand word then .ok { given with command := some (word, rest) }
      else do scan level escaped (← level.addWord given word) rest
    | .option rule attached =>
      match rule.takes, attached with
      | .nothing, none => do scan level escaped (← addOption given rule "") rest
      | .nothing, some _ => .error .misuse
      | _, some value => do scan level escaped (← addOption given rule value) rest
      | _, none =>
        match rest with
        | [] => .error .misuse
        | value :: rest =>
          if isValue value then do scan level escaped (← addOption given rule value) rest
          else .error .misuse

/-- What is written at a level. -/
def read (level : Level) (arguments : List String) : Except Stop Given :=
  level.scan false {} arguments

end Level

namespace Given

/-- The value of an option that is given at most once. -/
def value? (g : Given) (name : String) : Option String := g.options.lookup name

/-- The option is given. -/
def has (g : Given) (name : String) : Bool := (g.value? name).isSome

/-- All values of an option. -/
def values (g : Given) (name : String) : List String :=
  g.options.filterMap fun (n, value) => if n = name then some value else none

end Given
end Rebuild.Arguments

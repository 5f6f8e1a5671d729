/-
The grammar of command lines. An option is a long name, or a letter that may share its word with
others; its value follows an equals sign, fills the rest of the word, or is the next word, whatever
that looks like. Two dashes end the options, and a single dash is an argument.
-/
namespace Amend.CommandLine

/-- An option: its long name without the dashes, perhaps a letter, and whether it takes a value. -/
structure Switch where
  name : String
  letter : Option Char
  valued : Bool
  deriving DecidableEq, Repr

/-- What is wrong with a command line. -/
inductive UsageFault where
  | unknownOption (option : String)
  | valueMissing (option : String)
  | valueRefused (option : String)
  | badValue (option value : String)
  | commandMissing
  | unknownCommand (name : String)
  | extraArgument (argument : String)
  deriving DecidableEq, Repr

/-- The fault in words. -/
def UsageFault.message : UsageFault → String
  | .unknownOption option => s!"No such option: {option}"
  | .valueMissing option => s!"Option '--{option}' requires an argument."
  | .valueRefused option => s!"Option '--{option}' does not take a value."
  | .badValue option value => s!"Invalid value for '--{option}': {value}"
  | .commandMissing => "Missing command."
  | .unknownCommand name => s!"No such command '{name}'."
  | .extraArgument argument => s!"Got unexpected extra argument ({argument})"

/-- An option that was given, by its name, and its value; an option without one has the empty
value. -/
abbrev Given := String × String

/-- The options of one word, and the option whose value is the next word, if there is one. -/
structure WordOptions where
  given : List Given
  awaiting : Option Switch
  deriving Repr

/-- The options of letters in one word. -/
def ofLetters (switches : List Switch) : List Char → Except UsageFault WordOptions
  | [] => .ok ⟨[], none⟩
  | c :: rest =>
    match switches.find? (·.letter = some c) with
    | none => .error (.unknownOption (String.ofList ['-', c]))
    | some s =>
      if !s.valued then (ofLetters switches rest).map fun w => { w with given := (s.name, "") :: w.given }
      else if rest.isEmpty then .ok ⟨[], some s⟩
      else .ok ⟨[(s.name, String.ofList rest)], none⟩

/-- The option of a word with a long name, which follows the two dashes. -/
def ofLongName (switches : List Switch) (cs : List Char) : Except UsageFault WordOptions :=
  let name := String.ofList (cs.takeWhile (· ≠ '='))
  let value := (cs.drop name.length).tail?.map String.ofList
  match switches.find? (·.name = name), value with
  | none, _ => .error (.unknownOption ("--" ++ name))
  | some s, some value => if s.valued then .ok ⟨[(name, value)], none⟩ else .error (.valueRefused name)
  | some s, none => .ok (if s.valued then ⟨[], some s⟩ else ⟨[(name, "")], none⟩)

/-- The options of a word that has some. -/
def ofWord (switches : List Switch) (word : String) : Option (Except UsageFault WordOptions) :=
  match word.toList with
  | '-' :: '-' :: rest => some (ofLongName switches rest)
  | '-' :: c :: rest => some (ofLetters switches (c :: rest))
  | _ => none

/-- Options and arguments. -/
structure Arguments where
  given : List Given
  rest : List String
  deriving Repr

namespace Arguments

/-- The options and arguments of words. `mixed` tells whether options may follow arguments; if not,
the first argument ends the options. -/
def ofWords (switches : List Switch) (mixed : Bool) : List String → Except UsageFault Arguments
  | [] => .ok ⟨[], []⟩
  | word :: rest =>
    if word = "--" then .ok ⟨[], rest⟩
    else match ofWord switches word with
      | none =>
        if mixed then (ofWords switches mixed rest).map fun a => { a with rest := word :: a.rest }
        else .ok ⟨[], word :: rest⟩
      | some (.error fault) => .error fault
      | some (.ok ⟨given, none⟩) =>
        (ofWords switches mixed rest).map fun a => { a with given := given ++ a.given }
      | some (.ok ⟨given, some s⟩) =>
        match rest with
        | [] => .error (.valueMissing s.name)
        | value :: rest =>
          (ofWords switches mixed rest).map fun a =>
            { a with given := given ++ (s.name, value) :: a.given }

/-- Was an option given? -/
def has (a : Arguments) (name : String) : Bool :=
  a.given.any (·.1 = name)

/-- The values of an option, in order. -/
def all (a : Arguments) (name : String) : List String :=
  (a.given.filter (·.1 = name)).map (·.2)

/-- The last value of an option. -/
def last? (a : Arguments) (name : String) : Option String :=
  (a.all name).getLast?

end Arguments

end Amend.CommandLine

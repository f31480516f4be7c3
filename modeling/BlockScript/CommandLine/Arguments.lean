import BlockScript.Decimal.Numeral

/-!
# Arguments

The words of a command line. Options may stand before or after the operand of their command, a value in the same word after an
equals sign or in the next word, unless that one starts with a dash. An option is given at most once, except for those that
collect a list. After a lone double dash every word is an operand. Words are read from left to right, and the first that is
refused, be it for its value, comes before any later one that would end the reading.
-/

namespace BlockScript.CommandLine

/-- The settings of a run. -/
structure RunOptions where
  scene : String
  ticks : Nat := 600
  fps : Float := 30.0
  start : Float := 0.0
  showVariables : Bool := false
  quiet : Bool := false

/-- The settings of a test. -/
structure TestOptions where
  path : String
  categories : List String := []
  listCategories : Bool := false

/-- What to do. -/
inductive Command where
  | run (options : RunOptions)
  | test (options : TestOptions)
  | check (scene : String)

/-- A command with the settings that all commands share. -/
structure Invocation where
  noColor : Bool := false
  verbose : Bool := false
  command : Command

/-- What a command line asks for. -/
inductive Request where
  | invoke (i : Invocation)
  | version
  | help

/-- A whole number from nought up to `2^32 - 1`; a sign may stand before it. -/
def readCount? (text : String) : Option Nat :=
  let (negative, digits) := Decimal.splitSign text.toList
  let n := Decimal.ofDigits digits
  if digits ≠ [] ∧ digits.all Char.isDigit ∧ n < 0x100000000 ∧ (negative → n = 0) then some n else none

/-- What the value of an option is. -/
inductive ValueKind where
  | text
  | count
  | number
  deriving DecidableEq, Repr

/-- Whether a text can be read as a value of a kind. -/
def ValueKind.accepts : ValueKind → String → Bool
  | text, _ => true
  | count, s => (readCount? s).isSome
  | number, s => (Decimal.readFloat? s).isSome

/-- What an option takes. -/
inductive Arity where
  /-- Nothing; it is on or off. -/
  | flag
  /-- One value. -/
  | value (kind : ValueKind)
  /-- One value each time it is given. -/
  | values (kind : ValueKind)
  /-- Nothing; it ends the reading at once. -/
  | ends (answer : Request)

/-- An option of a command: its long name, its letter and what it takes. -/
structure OptionSpec where
  name : String
  letter : Option Char := none
  arity : Arity := .flag

/-- The options of all commands. -/
def commonOptions : List OptionSpec :=
  [⟨"no-color", none, .flag⟩, ⟨"verbose", some 'v', .flag⟩, ⟨"help", some 'h', .ends .help⟩]

/-- The options before the name of a command. -/
def topOptions : List OptionSpec := commonOptions ++ [⟨"version", some 'V', .ends .version⟩]

/-- The options of a run. -/
def runOptions : List OptionSpec :=
  commonOptions ++ [⟨"ticks", none, .value .count⟩, ⟨"fps", none, .value .number⟩, ⟨"start", none, .value .number⟩,
    ⟨"variables", none, .flag⟩, ⟨"quiet", some 'q', .flag⟩]

/-- The options of a test. -/
def testOptions : List OptionSpec :=
  commonOptions ++ [⟨"category", some 'c', .values .text⟩, ⟨"list-categories", none, .flag⟩]

/-- What the words read so far say. -/
structure Reading where
  operand? : Option String := none
  /-- The options given, with their values where they have one. -/
  given : List (String × Option String) := []

namespace Reading

/-- Whether an option was given. -/
def has (r : Reading) (name : String) : Bool := r.given.any (·.1 == name)

/-- The value of an option. -/
def valueOf? (r : Reading) (name : String) : Option String := (r.given.lookup name).join

/-- All values of an option, in order. -/
def valuesOf (r : Reading) (name : String) : List String :=
  (r.given.filter (·.1 == name)).filterMap (·.2)

/-- Notes an option. One that may not be repeated is refused if it was given before, and so is a value of a wrong kind. -/
def give (r : Reading) (o : OptionSpec) (value : Option String) : Option Reading :=
  let again := match o.arity with
    | .values _ => false
    | _ => r.has o.name
  let fits := match o.arity with
    | .value kind | .values kind => value.all kind.accepts
    | _ => true
  if again || !fits then none else some { r with given := r.given ++ [(o.name, value)] }

/-- Notes an operand; there is at most one. -/
def giveOperand (r : Reading) (word : String) : Option Reading :=
  match r.operand? with
  | none => some { r with operand? := some word }
  | some _ => none

end Reading

/-- How a step over the words ends. -/
inductive Progress where
  /-- The words are not a command line. -/
  | refused
  /-- An option was met that answers at once. -/
  | answered (answer : Request)
  /-- Reading goes on with what has been read. -/
  | read (r : Reading)
  /-- Reading goes on, and the next word is the value of an option. -/
  | awaits (o : OptionSpec) (r : Reading)

/-- Reads the letters of a word that starts with one dash. A letter whose option takes a value takes the rest of the word. -/
def readLetters (options : List OptionSpec) (r : Reading) : List Char → Progress
  | [] => .read r
  | c :: rest =>
    match options.find? (·.letter == some c) with
    | none => .refused
    | some o =>
      match o.arity with
      | .ends answer => .answered answer
      | .flag =>
        match r.give o none with
        | none => .refused
        | some r => readLetters options r rest
      | .value _ | .values _ =>
        match rest with
        | [] => .awaits o r
        | '=' :: value =>
          match r.give o (some (String.ofList value)) with
          | none => .refused
          | some r => .read r
        | value =>
          match r.give o (some (String.ofList value)) with
          | none => .refused
          | some r => .read r

/-- Reads a word that starts with two dashes, given without them. -/
def readLong (options : List OptionSpec) (r : Reading) (word : List Char) : Progress :=
  let name := String.ofList (word.takeWhile (· != '='))
  let attached : Option String := match word.dropWhile (· != '=') with
    | [] => none
    | _ :: value => some (String.ofList value)
  match options.find? (·.name == name) with
  | none => .refused
  | some o =>
    match o.arity, attached with
    | .ends answer, none => .answered answer
    | .flag, none =>
      match r.give o none with
      | none => .refused
      | some r => .read r
    | .ends _, some _ | .flag, some _ => .refused
    | .value _, none | .values _, none => .awaits o r
    | .value _, some v | .values _, some v =>
      match r.give o (some v) with
      | none => .refused
      | some r => .read r

/-- Reads the words of a command that has at most one operand. -/
def readWords (options : List OptionSpec) (r : Reading) : List String → Progress
  | [] => .read r
  | word :: rest =>
    let onward : Progress → Progress
      | .read r => readWords options r rest
      | .awaits o r =>
        match rest with
        | [] => .refused
        | value :: rest =>
          if value.startsWith "-" ∧ value ≠ "-" then .refused
          else
            match r.give o (some value) with
            | none => .refused
            | some r => readWords options r rest
      | ended => ended
    if word = "--" then
      match rest.foldlM Reading.giveOperand r with
      | none => .refused
      | some r => .read r
    else
      match word.toList with
      | '-' :: '-' :: name => onward (readLong options r name)
      | '-' :: letter :: more => onward (readLetters options r (letter :: more))
      | _ =>
        match r.giveOperand word with
        | none => .refused
        | some r => readWords options r rest

/-- The value of an option, if it can be read, or a default where it was not given. -/
def Reading.parsed (r : Reading) (name : String) (default : α) (read? : String → Option α) : Option α :=
  match r.valueOf? name with
  | none => some default
  | some text => read? text

/-- The command of a name, from what its words say. -/
def Command.ofReading? (name : String) (r : Reading) : Option Command := do
  let operand ← r.operand?
  match name with
  | "run" =>
    let ticks ← r.parsed "ticks" 600 readCount?
    let fps ← r.parsed "fps" 30.0 Decimal.readFloat?
    let start ← r.parsed "start" 0.0 Decimal.readFloat?
    some (.run { scene := operand, ticks, fps, start, showVariables := r.has "variables", quiet := r.has "quiet" })
  | "test" =>
    some (.test { path := operand, categories := r.valuesOf "category", listCategories := r.has "list-categories" })
  | "check" => some (.check operand)
  | _ => none

/-- The options of the command of a name. -/
def optionsOf? : String → Option (List OptionSpec)
  | "run" => some runOptions
  | "test" => some testOptions
  | "check" => some commonOptions
  | _ => none

/-- Whether there is help on what some words name: on nothing but the program itself, on a command, or on help. -/
def isHelpTopic : List String → Bool
  | [] => true
  | [name] => name == "help" || (optionsOf? name).isSome
  | _ => false

/-- Reads a command and its words. -/
def readCommand (top : Reading) (name : String) (words : List String) : Option Request := do
  let options ← optionsOf? name
  match readWords options {} words with
  | .answered answer => some answer
  | .read r =>
    let command ← Command.ofReading? name r
    some (.invoke
      { noColor := top.has "no-color" || r.has "no-color", verbose := top.has "verbose" || r.has "verbose", command })
  | _ => none

/-- Reads a command line, `top` being what was read before the name of the command. There is no answer where the words make
no command. -/
def readFrom (top : Reading) : List String → Option Request
  | [] => none
  | word :: rest =>
    let onward : Progress → Option Request
      | .read r => readFrom r rest
      | .answered answer => some answer
      | _ => none
    if word = "--" then none
    else
      match word.toList with
      | '-' :: '-' :: name => onward (readLong topOptions top name)
      | '-' :: letter :: more => onward (readLetters topOptions top (letter :: more))
      | _ =>
        if word = "help" then (if isHelpTopic rest then some .help else none)
        else readCommand top word rest

/-- Reads a command line. -/
def read (words : List String) : Option Request := readFrom {} words

end BlockScript.CommandLine

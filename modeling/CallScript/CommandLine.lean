import CallScript.Builtin

/-!
# The command line

The program evaluates a script and prints one line for each expression in it. Its options choose
the space in which names are looked up first, the greatest depth of calls, and variables that are
set beforehand; `--check` resolves and binds every call and runs nothing. The script is the text
of the file named on the command line, or else standard input.

A variable is set by `NAME=VALUE`, which guesses the kind of the value, or by `NAME:TYPE=VALUE`,
which converts the text to the type. Setting a variable again replaces it.

What the program does is a function of its arguments, of a way to read the script, and of a seed
for its random integers (`run`); only `CallScript.Main` touches files. A misuse of the options ends
with status 2 before the script is read, a failure of the script with status 1. A script that fails
prints nothing but the failure.
-/

namespace CallScript.CommandLine

/-- What the options of the program say. -/
structure Options where
  file : Option String := none
  space : String := ""
  maxDepth : Nat := 256
  settings : List (String × Value) := []
  checkOnly : Bool := false

/-- Why the value of an option is refused. -/
inductive Misuse where
  | noEquals (text : String)
  | unknownType (name : String)
  | notOfType (raw : String) (ty : Ty)
  | emptyName
  | emptyNumber
  | badDigit
  | tooLarge
  deriving DecidableEq, Repr

/-- What is wrong with the value of an option, in words. -/
def Misuse.message : Misuse → String
  | noEquals text => "expected NAME=VALUE, got '" ++ text ++ "'"
  | unknownType name => "unknown type '" ++ name ++ "'"
  | notOfType raw ty => "'" ++ raw ++ "' is not a " ++ ty.name
  | emptyName => "variable name is empty"
  | emptyNumber => "cannot parse integer from empty string"
  | badDigit => "invalid digit found in string"
  | tooLarge => "number too large to fit in target type"

/-- The options that take a value. -/
inductive ValueOption where
  | space
  | maxDepth
  | setting
  deriving DecidableEq, Repr

/-- How an option is written, and what its value is called. -/
def ValueOption.label : ValueOption → String
  | space => "--namespace <NAMESPACE>"
  | maxDepth => "--max-depth <MAX_DEPTH>"
  | setting => "--var <NAME[:TYPE]=VALUE>"

/-- Why the arguments of the program are refused. -/
inductive Refusal where
  | badValue (option : ValueOption) (value : String) (misuse : Misuse)
  | missingValue (option : ValueOption)
  | unexpected (argument : String)
  deriving DecidableEq, Repr

/-- What a misused program reports. -/
def Refusal.message : Refusal → String
  | badValue option value misuse =>
    "error: invalid value '" ++ value ++ "' for '" ++ option.label ++ "': " ++ misuse.message
  | missingValue option =>
    "error: a value is required for '" ++ option.label ++ "' but none was supplied"
  | unexpected argument => "error: unexpected argument '" ++ argument ++ "' found"

/-! ## Values of options -/

/-- A text cut at the first occurrence of a character; `none` if there is none. -/
def splitAtFirst? (c : Char) (s : List Char) : Option (List Char × List Char) :=
  match s.dropWhile (· ≠ c) with
  | [] => none
  | _ :: rest => some (s.takeWhile (· ≠ c), rest)

/-- The value that a text stands for if it is meant to be of the type with the given name. -/
def readTyped (typeName raw : String) : Except Misuse Value :=
  match Ty.ofName? typeName with
  | none => .error (.unknownType typeName)
  | some ty =>
    match (Value.text raw).convert? ty with
    | none => .error (.notOfType raw ty)
    | some value => .ok value

/-- Reads the setting of a variable. -/
def readVariable (text : String) : Except Misuse (String × Value) :=
  match splitAtFirst? '=' text.toList with
  | none => .error (.noEquals text)
  | some (target, raw) => do
    let raw := String.ofList raw
    let (name, value) ←
      match splitAtFirst? ':' target with
      | none => pure (target, Value.infer raw)
      | some (name, typeName) => do
        let value ← readTyped (String.ofList typeName) raw
        pure (name, value)
    if name.isEmpty then .error .emptyName else .ok (String.ofList name, value)

/-- Reads on at the digits of a natural number of at most 64 bits. -/
def readDigits (n : Nat) : List Char → Except Misuse Nat
  | [] => .ok n
  | c :: rest =>
    if !c.isDigit then .error .badDigit
    else
      let n := 10 * n + (c.toNat - '0'.toNat)
      if n < Number.twoPow 64 then readDigits n rest else .error .tooLarge

/-- Reads a natural number of at most 64 bits, before which a plus sign may stand. -/
def readNatural (text : String) : Except Misuse Nat :=
  match text.toList with
  | [] => .error .emptyNumber
  | '+' :: c :: rest => readDigits 0 (c :: rest)
  | s => readDigits 0 s

namespace Options

/-- The options after one with a value. -/
def setValue (options : Options) (option : ValueOption) (value : String) :
    Except Refusal Options :=
  match option with
  | .space => .ok { options with space := value }
  | .maxDepth =>
    match readNatural value with
    | .ok n => .ok { options with maxDepth := n }
    | .error misuse => .error (.badValue option value misuse)
  | .setting =>
    match readVariable value with
    | .ok pair => .ok { options with settings := options.settings ++ [pair] }
    | .error misuse => .error (.badValue option value misuse)

end Options

/-! ## Arguments -/

/-- What one argument of the program is. -/
inductive Word where
  | check
  | logging
  | valued (option : ValueOption) (value : Option String)
  | endOfOptions
  | file (path : String)
  | unknown (argument : String)
  deriving DecidableEq, Repr

/-- The option that takes a value and has the given name. -/
def ValueOption.ofName? (name : String) : Option ValueOption :=
  if name = "--namespace" then some space
  else if name = "--max-depth" then some maxDepth
  else if name = "--var" then some setting
  else none

/-- What an argument is: the part of a long option before an equals sign is its name. -/
def Word.ofText (argument : String) : Word :=
  match argument.toList with
  | '-' :: '-' :: [] => endOfOptions
  | '-' :: '-' :: rest =>
    if argument = "--check" then check
    else if argument = "--verbose" || argument = "--quiet" then logging
    else
      let (name, value) :=
        match splitAtFirst? '=' rest with
        | none => (argument, none)
        | some (name, value) => (String.ofList ('-' :: '-' :: name), some (String.ofList value))
      match ValueOption.ofName? name with
      | some option => valued option value
      | none => unknown argument
  | '-' :: c :: rest =>
    if (c :: rest).all fun c => c = 'v' || c = 'q' then logging else unknown argument
  | _ => file argument

/-- Takes an argument as the file with the script; there can be only one. -/
def Options.setFile (options : Options) (path : String) : Except Refusal Options :=
  match options.file with
  | none => .ok { options with file := some path }
  | some _ => .error (.unexpected path)

/-- Reads arguments, on top of the options read so far. -/
def readArguments (options : Options) : List String → Except Refusal Options
  | [] => .ok options
  | argument :: rest =>
    match Word.ofText argument with
    | .check => readArguments { options with checkOnly := true } rest
    | .logging => readArguments options rest
    | .valued option (some value) => do
      let options ← options.setValue option value
      readArguments options rest
    | .valued option none =>
      match rest with
      | [] => .error (.missingValue option)
      | value :: rest => do
        let options ← options.setValue option value
        readArguments options rest
    | .endOfOptions => rest.foldlM Options.setFile options
    | .file path => do
      let options ← options.setFile path
      readArguments options rest
    | .unknown argument => .error (.unexpected argument)

/-! ## The program -/

/-- What the program leaves behind: its exit status, what it printed, and what it reported. -/
structure Outcome where
  status : Nat
  output : String := ""
  report : Option String := none
  deriving DecidableEq, Repr

/-- The evaluator that the options ask for. -/
def Options.evaluator (options : Options) : Evaluator :=
  let evaluator := Evaluator.standard options.space options.maxDepth
  { evaluator with
    context := options.settings.foldl (fun context (name, value) => context.set name [value])
      evaluator.context }

/-- What a script does under the options: the lines it prints. -/
def Options.perform (options : Options) (source : String) : Run (List String) :=
  if options.checkOnly then do
    let _ ← options.evaluator.checkScript source
    pure []
  else options.evaluator.runScript source

/-- A source of random integers for each seed. Its numbers are multiples of an odd constant, counted
from the seed and mixed. -/
def randomFrom (seed : Nat) : RandomSource where
  tape i :=
    let start := seed.toUInt64 + (i + 1).toUInt64 * 0x9e3779b97f4a7c15
    let first := (start ^^^ start >>> 30) * 0xbf58476d1ce4e5b9
    let second := (first ^^^ first >>> 27) * 0x94d049bb133111eb
    (second ^^^ second >>> 31).toNat

/-- Runs the program on its arguments. `readSource` reads the script, from a file or from standard
input, and random integers come from the source for `seed`. -/
def run {m : Type → Type} [Monad m] (readSource : Option String → m (Except SourceError String))
    (seed : Nat) (arguments : List String) : m Outcome :=
  match readArguments {} arguments with
  | .error refusal => pure { status := 2, report := some refusal.message }
  | .ok options => do
    match ← readSource options.file with
    | .error cause => pure { status := 1, report := some (Error.source cause).message }
    | .ok source =>
      match ((options.perform source).run.run { random := randomFrom seed }).1 with
      | .error e => pure { status := 1, report := some e.error.message }
      | .ok lines => pure { status := 0, output := String.join (lines.map (· ++ "\n")) }

end CallScript.CommandLine

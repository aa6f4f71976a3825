import CallScript.Signature
import CallScript.Text.Quoted

/-!
# What can go wrong

Every failure is recorded as its cause; the wording of each is written down once, in the
function `message` of its type.

* A `ParseFailure` says why a text is no expression of the wanted type.
* A `BindError` says why a call does not fit the function it names.
* A `RunError` says why a function, once it ran, gave up.
* An `Error` is what a script ends with: one of these with the place it arose in, or a value
  without a counterpart in the wanted type, or too long a chain of calls, or a script that could
  not be read.

An evaluation fails with an error that it raised itself or that the body of a function returned
to it; a `Fault` tells the two apart. What is reported is the error alone.
-/

namespace CallScript

/-- Why a text is no expression of the wanted type. -/
inductive ParseFailure where
  | unparsable
  | incompatible (got : Yield)
  deriving DecidableEq, Repr

/-- Why a call does not fit the function it names. -/
inductive BindError where
  | unknownCallee (name space : String)
  | unknownParameter (name : String)
  | tooManyArguments
  | missingRequired (name : String)
  | typeMismatch (parameter : Parameter) (got : Yield)
  | unparsable (text : String)
  deriving DecidableEq, Repr

/-- Why a text is no arithmetic expression, or has no value. -/
inductive ArithmeticError where
  | unexpected (c : Char)
  | unclosed (got : Option Char)
  | noNumber (got : Option Char)
  | badLiteral (literal : String)
  | divisionByZero
  | moduloByZero
  | tooDeep (limit : Nat)
  deriving DecidableEq, Repr

/-- Why a function gave up. -/
inductive RunError where
  | stated (message : String)
  | notANumber (callee : String) (value : Value)
  | missingValue (callee parameter : String)
  | arithmetic (callee : String) (cause : ArithmeticError)
  | notAnInteger (callee : String) (value : Float)
  | notAnIndex (callee : String) (value : Float) (role : String)
  | emptyRange (callee : String) (least greatest : Int)
  | tooLong (callee : String) (start stop : Float)
  deriving DecidableEq

/-- Why the text of a script could not be read. -/
inductive SourceError where
  | notFound
  | isDirectory
  | notText
  | other (reason : String)
  deriving DecidableEq, Repr

/-- What a script ends with if it does not succeed. `lines` of a parse error are the numbers of
the script lines around the text, the outermost first. -/
inductive Error where
  | parse (lines : List Nat) (failure : ParseFailure) (text : String)
  | call (callee : String) (cause : BindError)
  | run (cause : RunError)
  | conversion (value : Value) (target : Ty)
  | recursionLimit (limit : Nat)
  | source (cause : SourceError)
  deriving DecidableEq

/-- How an evaluation fails. -/
inductive Fault where
  /-- The expression itself raised the error. -/
  | own (error : Error)
  /-- The body of a function that the expression called returned the error. -/
  | ofBody (error : Error)
  deriving DecidableEq

/-- What is reported of a fault. -/
def Fault.error : Fault → Error
  | own e => e
  | ofBody e => e

/-- Why a text was refused, in words. -/
def ParseFailure.message : ParseFailure → String
  | unparsable => "unparsable expression"
  | incompatible got => "incompatible expression of type " ++ got.describe

/-- Why a call does not fit, in words. -/
def BindError.message : BindError → String
  | unknownCallee name _ => "function '" ++ name ++ "' not found"
  | unknownParameter name => "unknown parameter '" ++ name ++ "'"
  | tooManyArguments => "too many arguments"
  | missingRequired name => "missing required parameter '" ++ name ++ "'"
  | typeMismatch p got =>
    "type mismatch for argument '" ++ p.name ++ "': expected " ++ p.describe ++ ", got " ++
      got.describe
  | unparsable text => "can't understand this expression: " ++ text

/-- What is wrong with an arithmetic text, in words. -/
def ArithmeticError.message : ArithmeticError → String
  | unexpected c => "unexpected character '" ++ String.singleton c ++ "'"
  | unclosed none => "expected ')', got None"
  | unclosed (some c) => "expected ')', got Some(" ++ Text.quotedChar c ++ ")"
  | noNumber none => "expected number, got end of expression"
  | noNumber (some c) => "expected number, got '" ++ String.singleton c ++ "'"
  | badLiteral literal => "invalid number literal '" ++ literal ++ "'"
  | divisionByZero => "division by zero"
  | moduloByZero => "modulo by zero"
  | tooDeep limit => "more than " ++ toString limit ++ " nested parentheses"

/-- Why a function gave up, in words; most of them start with its name. -/
def RunError.message : RunError → String
  | stated message => message
  | notANumber callee value => callee ++ ": '" ++ value.display ++ "' is not a number"
  | missingValue callee parameter => callee ++ ": missing value for '" ++ parameter ++ "'"
  | arithmetic callee cause => callee ++ ": " ++ cause.message
  | notAnInteger callee value =>
    callee ++ ": '" ++ (Value.number value).display ++ "' is not a valid integer"
  | notAnIndex callee value role =>
    callee ++ ": '" ++ (Value.number value).display ++ "' is not a valid " ++ role
  | emptyRange callee least greatest =>
    callee ++ ": min (" ++ toString least ++ ") is greater than max (" ++ toString greatest ++ ")"
  | tooLong callee start stop =>
    callee ++ ": " ++ (Value.number start).display ++ " to " ++ (Value.number stop).display ++
      " is too long"

/-- Why a script could not be read, in words. -/
def SourceError.message : SourceError → String
  | notFound => "No such file or directory (os error 2)"
  | isDirectory => "Is a directory (os error 21)"
  | notText => "stream did not contain valid UTF-8"
  | other reason => reason

/-- The wording of a parse error below its heading: the lines it arose in, what is wrong, and the
text without the blanks around it. -/
def Error.parseMessage (failure : ParseFailure) (text : String) : List Nat → String
  | [] => failure.message ++ ": " ++ String.ofList (Text.trim text.toList)
  | line :: lines => "line " ++ toString line ++ ": " ++ parseMessage failure text lines

/-- What a failed script reports. -/
def Error.message : Error → String
  | parse lines failure text => "Parse error: " ++ parseMessage failure text lines
  | call callee cause => "in call to '" ++ callee ++ "': " ++ cause.message
  | run cause => "Runtime error: " ++ cause.message
  | conversion value target => "cannot convert '" ++ value.display ++ "' to " ++ target.name
  | recursionLimit limit => "recursion limit of " ++ toString limit ++ " calls exceeded"
  | source cause => "IO error: " ++ cause.message

/-- The error as seen from a script: a parse error names the line it arose in. -/
def Error.atLine (line : Nat) : Error → Error
  | parse lines failure text => parse (line :: lines) failure text
  | e => e

/-- The fault as seen from a script. -/
def Fault.atLine (line : Nat) : Fault → Fault
  | own e => own (e.atLine line)
  | ofBody e => ofBody (e.atLine line)

end CallScript

import CallScript.Text.Blank
import CallScript.Number.Shortest
import CallScript.Number.Literal

/-!
# Values and their types

A script computes with three kinds of value: texts, numbers and truth values. A type says which
kind is meant; the type `any` says that every kind is welcome, and is also what is known about
an expression whose value only the run will tell.

Three rules relate the two:

* `Ty.accepts` decides, before anything runs, whether an expression of one type may stand where
  another is wanted. It errs on the side of the writer: where nothing is known the run decides.
* `Value.convert?` turns a value into one of the wanted type, if it has a counterpart there.
* `Value.infer` guesses what an untyped text was meant to be.
-/

namespace CallScript

/-- The type of a parameter, of what a function returns, or of an expression. -/
inductive Ty where
  | any
  | text
  | number
  | boolean
  deriving DecidableEq, Repr, Inhabited

namespace Ty

/-- The name of a type in messages. -/
def name : Ty → String
  | any => "object"
  | text => "text"
  | number => "number"
  | boolean => "boolean"

/-- The type that a name stands for; two of them have a second name. -/
def ofName? : String → Option Ty
  | "object" => some any
  | "any" => some any
  | "text" => some text
  | "string" => some text
  | "number" => some number
  | "boolean" => some boolean
  | _ => none

/-- The name of a type in messages, in the plural for a list of values. -/
def describe (ty : Ty) (single : Bool) : String :=
  if single then ty.name else ty.name ++ "s"

/-- Whether an expression of type `got` may stand where `expected` is wanted: one of the two is
unknown, they are the same, or the value is wanted as a text, which every value has. -/
def accepts (expected got : Ty) : Bool :=
  expected = any || got = any || expected = got || expected = text

end Ty

/-- A value of a script. -/
inductive Value where
  | text (content : String)
  | number (value : Float)
  | boolean (value : Bool)
  deriving DecidableEq, Inhabited

namespace Value

/-- The kind of a value, which is never `any`. -/
def ty : Value → Ty
  | text _ => .text
  | number _ => .number
  | boolean _ => .boolean

/-- Below this, whole numbers are shown as integers. -/
def integerLimit : Nat := 1000000000000000

/-- How a number is shown: a whole number below the limit as an integer, which leaves zero without
a sign, and any other by its shortest text. -/
def displayNumber (x : Float) : String :=
  match Number.whole? x with
  | some n => if n.natAbs < integerLimit then toString n else Number.shortestText x
  | none => Number.shortestText x

/-- How a value is shown. -/
def display : Value → String
  | text s => s
  | number x => displayNumber x
  | boolean true => "true"
  | boolean false => "false"

/-- The number of a value that is one. -/
def number? : Value → Option Float
  | number x => some x
  | _ => none

/-- The truth value that the whole of a text writes. -/
def readBoolean? (s : List Char) : Option Bool :=
  if s = "true".toList then some true
  else if s = "false".toList then some false
  else none

/-- What an untyped text was meant to be: a number if it reads as a finite one, else a truth
value, else itself; blanks around it do not count. -/
def infer (raw : String) : Value :=
  let s := Text.trim raw.toList
  match Number.readFinite? s with
  | some x => number x
  | none =>
    match readBoolean? s with
    | some b => boolean b
    | none => text (String.ofList s)

/-- The value of type `target` that corresponds to a value, if there is one. Every value has a text;
a text has a number or a truth value if it writes one. -/
def convert? (v : Value) (target : Ty) : Option Value :=
  match target, v with
  | .any, v => some v
  | .text, v => some (text v.display)
  | .number, number x => some (number x)
  | .number, text s => (Number.readFinite? (Text.trim s.toList)).map number
  | .number, boolean _ => none
  | .boolean, boolean b => some (boolean b)
  | .boolean, text s => (readBoolean? (Text.trim s.toList)).map boolean
  | .boolean, number _ => none

/-- A conversion gives a value of the wanted type. -/
theorem ty_of_convert? {v w : Value} {target : Ty} (h : v.convert? target = some w)
    (known : target ≠ .any) : w.ty = target := by
  cases target <;> cases v <;> simp_all [convert?] <;> grind [ty]

end Value

/-- The values of a list, each as it is shown, with `separator` between them. -/
def displayAll (separator : String) (values : List Value) : String :=
  separator.intercalate (values.map Value.display)

end CallScript

import CallScript.Value

/-!
# What a function declares

A function declares its parameters in order and what it returns. A parameter takes one value or
a list of them, and it may be optional. A function returns one value, a list of values, or
nothing; `Signature.shape` cuts the values that a run of it produced down to that.
-/

namespace CallScript

/-- A declared parameter. One that is not `single` receives every value of its expression. -/
structure Parameter where
  name : String
  ty : Ty
  single : Bool := true
  optional : Bool := false
  deriving DecidableEq, Repr, Inhabited

/-- What a parameter wants, in messages. -/
def Parameter.describe (p : Parameter) : String := p.ty.describe p.single

/-- What a call hands back. -/
inductive Returned where
  | single (value : Value)
  | list (values : List Value)
  deriving DecidableEq

/-- The values handed back. -/
def Returned.values : Returned → List Value
  | single v => [v]
  | list vs => vs

/-- The declaration of a function: the space and name it goes by, its parameters in order, and
what it returns. `returns` is `none` for a function that returns nothing, and `single` tells one
value from a list of them. -/
structure Signature where
  space : String
  name : String
  parameters : List Parameter
  returns : Option Ty
  single : Bool
  deriving DecidableEq, Repr, Inhabited

namespace Signature

/-- What a call hands back of the values that a run produced: nothing, the first one if there is
one, or all. -/
def shape (signature : Signature) (values : List Value) : Option Returned :=
  match signature.returns with
  | none => none
  | some _ => if signature.single then values.head?.map .single else some (.list values)

/-- The type of a call of the function, which is unknown if it returns nothing. -/
def ty (signature : Signature) : Ty := signature.returns.getD .any

end Signature

/-- What an expression yields, as far as is known before it runs. -/
inductive Yield where
  | nothing
  | values (ty : Ty) (single : Bool)
  deriving DecidableEq, Repr

/-- What is yielded, in messages. -/
def Yield.describe : Yield → String
  | nothing => "nothing"
  | values ty single => ty.describe single

end CallScript

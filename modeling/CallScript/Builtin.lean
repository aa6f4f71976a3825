import CallScript.Builtin.Number
import CallScript.Builtin.Text
import CallScript.Evaluator

/-!
# The standard evaluator

A standard evaluator has all built-in functions, registered in the global space. A script can
replace none of them, but a program that uses the evaluator can register functions of its own
beside them or in their place.
-/

namespace CallScript

/-- The functions that every standard evaluator has. -/
def builtins : List Function :=
  [Builtin.count, Builtin.join, Builtin.length, Builtin.math, Builtin.floor, Builtin.random,
    Builtin.range, Builtin.strpos, Builtin.substr].map fun f => { f with builtin := true }

/-- The registry of the built-in functions. -/
def Registry.standard : Registry := builtins.foldl Registry.register {}

/-- An evaluator with the built-in functions and no variables. -/
def Evaluator.standard (space : String) (maxDepth : Nat) : Evaluator :=
  { registry := Registry.standard, space, context := Context.top maxDepth }

end CallScript

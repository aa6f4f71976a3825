import CallScript.Bundle
import CallScript.Expr
import CallScript.Scope

/-!
# Functions and what their bodies may ask for

A body is given its arguments and a context of its own: a scope in which nothing is set, and its
depth in the chain of calls. What it then does is a finite dialogue (`Body`): it ends with a
result, or asks for something and goes on with the answer. It may ask for a random integer, have
a text read, or have an expression evaluated, and an evaluation that fails is an answer like any
other.

Two things a body cannot do. It evaluates in a *frame*, which is its own context or one a number of
levels below it, in each case with variables of its choice; so every call that a body makes is
deeper in the chain than the body itself, which together with the limit on the depth is why
evaluation ends. And it refers to the expressions it has at hand by their number: first those
that its function shares between all runs, then those it had read in this run. So it reaches no
expression that it was not given, and cannot tell one run from another by what it was given.

There is more that functions might do and that no body does here. It registers no functions. It has
no call resolved, bound or checked without having it evaluated, and a call that its runs share is
executed in the space that is written in the call, never in another one. And it keeps no state of its
own from one run to the next: what the call sites in shared expressions remember is all there is.
Functions that do such things are left out.

An expression that is evaluated more than once is `Rooted`: it carries a number that identifies
it. What the call sites in it remember from one evaluation to the next is kept under that.
-/

namespace CallScript

/-- What an expression is evaluated in: the variables, and how many calls lie above. -/
structure Context where
  scope : Scope
  depth : Nat
  maxDepth : Nat

namespace Context

/-- The context at the top of a chain of calls. -/
def top (maxDepth : Nat) : Context := ⟨Scope.empty, 0, maxDepth⟩

/-- A fresh context one level further down, unless that is deeper than allowed. -/
def child (context : Context) : Except Error Context :=
  if context.depth < context.maxDepth then
    .ok ⟨Scope.empty, context.depth + 1, context.maxDepth⟩
  else .error (.recursionLimit context.maxDepth)

/-- The context after a variable was set. -/
def set (context : Context) (name : String) (values : List Value) : Context :=
  { context with scope := context.scope.set name values }

end Context

/-- An expression or call site with an identity of its own. -/
structure Rooted (α : Type) where
  root : Nat
  item : α

/-- Where a body evaluates: `below` levels under its own context, with these variables. -/
structure Frame where
  below : Nat
  scope : Scope

/-- What the body of a function does, while it has `n` expressions at hand. -/
inductive Body : (n : Nat) → Type where
  /-- Ends with a result. -/
  | done {n : Nat} (result : Except Error (List Value)) : Body n
  /-- Asks for a random integer from `least` to `greatest`, both included. -/
  | draw {n : Nat} (least greatest : Int) (next : Int → Body n) : Body n
  /-- Has a text read in a space, where a value of type `target` is wanted. The expression is at
  hand from then on. -/
  | parse {n : Nat} (space text : String) (target : Ty) (failed : ParseFailure → Body n)
      (parsed : Body (n + 1)) : Body n
  /-- Has one of the expressions evaluated. -/
  | evaluate {n : Nat} (frame : Frame) (index : Fin n)
      (next : Except Error (List Value) → Body n) : Body n

/-- A function that scripts can call. Its runs share the given expressions. `builtin` marks the
functions that every standard evaluator has. -/
structure Function where
  signature : Signature
  sharedCount : Nat := 0
  shared : Vector (Rooted Expr) sharedCount
  body : Bundle → Context → Body sharedCount
  builtin : Bool := false

/-- A function that shares no expressions between its runs. -/
def Function.simple (signature : Signature) (body : Bundle → Context → Body 0) : Function :=
  { signature, shared := #v[], body }

/-- A function whose values follow from its arguments alone. -/
def Function.ofPure (signature : Signature) (run : Bundle → Except RunError (List Value)) :
    Function :=
  .simple signature fun arguments _ => .done ((run arguments).mapError .run)

end CallScript

import CallScript.Argument
import CallScript.Reference
import CallScript.Signature

/-!
# Expressions

An expression is a text read against the functions that were known at the time: every part of it
has a type, and where a value has to be turned into another kind a conversion is written into it.
What the functions will be when it runs is another matter, so a call in it is only a *call
site*: a name to look up and arguments still to be read.

`reach` bounds the texts that are left unread in an expression. It is what evaluation works
off: binding a call reads arguments shorter than the reach of the call site, so their expressions
reach less far (see `CallScript.Typing`).
-/

namespace CallScript

/-- A call as written: the name it calls, the space that name is looked up in first, and the
arguments. -/
structure CallSite where
  space : String
  name : String
  arguments : List RawArgument
  deriving DecidableEq, Repr

/-- A typed expression. -/
inductive Expr where
  /-- A value that is written down. -/
  | literal (value : Value)
  /-- A text that refers to variables. -/
  | template (text : String)
  /-- A variable: its first value, or all. -/
  | reference (target : Reference)
  /-- The values of several expressions, one after the other. -/
  | list (items : List Expr) (ty : Ty)
  /-- The values of an expression, each turned into one of type `target`. -/
  | converted (inner : Expr) (target : Ty)
  /-- What a call hands back, with the type and arity its function declared when it was read. -/
  | call (site : CallSite) (ty : Ty) (single : Bool)

namespace Expr

/-- The type of the values of an expression, `any` if only the run will tell. -/
def ty : Expr → Ty
  | literal value => value.ty
  | template _ => .text
  | reference _ => .any
  | list _ ty => ty
  | converted _ target => target
  | call _ ty _ => ty

/-- Whether an expression stands for one value rather than for a list of them. -/
def single : Expr → Bool
  | literal _ => true
  | template _ => true
  | reference target => !target.all
  | list _ _ => false
  | converted inner _ => inner.single
  | call _ _ single => single

/-- What an expression yields, as far as is known before it runs. -/
def yield (e : Expr) : Yield := .values e.ty e.single

end Expr

/-- One parameter of a function with the expression that a call supplies for it. -/
structure Binding where
  parameter : Parameter
  expr : Expr

/-- A bound on the texts that a call site leaves unread. -/
def CallSite.reach (site : CallSite) : Nat := longest site.arguments + 1

namespace Expr

mutual

/-- A bound on the texts that are left unread in an expression, zero if it has no call. -/
def reach : Expr → Nat
  | list items _ => reachAll items
  | converted inner _ => reach inner
  | call site _ _ => site.reach
  | _ => 0

/-- The greatest reach of some expressions. -/
def reachAll : List Expr → Nat
  | [] => 0
  | item :: items => max item.reach (reachAll items)

end

theorem reachAll_le {items : List Expr} {n : Nat} (h : ∀ item ∈ items, item.reach ≤ n) :
    reachAll items ≤ n := by
  induction items with
  | nil => exact Nat.zero_le n
  | cons item items ih =>
    exact Nat.max_le.mpr ⟨h item (by simp), ih fun i hi => h i (by simp [hi])⟩

end Expr

end CallScript

import CallScript.Error
import CallScript.Expr
import CallScript.Form

/-!
# From texts to typed expressions

A text is read for a wanted type. Its form says what it is; typing the form
* takes the type and arity of a call from what its function declares at this moment, or leaves
  them unknown if there is no such function yet;
* refuses an expression whose type cannot stand where the wanted one is, and a call of a function
  that returns nothing where a particular type is wanted;
* writes a conversion around an expression that is admitted but not of the wanted type.

The parts of a list are typed for the same type, in order, so the first part at fault decides
how the text fails. A `Reader` holds what typing depends on beside the text.

The fact that evaluation needs is `reach_parse_le`: an expression reaches no further than the
text it was read from is long.
-/

namespace CallScript

/-- What a text is read against: the space in which the names of calls are looked up, and the
declarations found there. -/
structure Reader where
  space : String
  signature? : String → Option Signature

/-- The expression where a value of type `target` is wanted. -/
def Expr.coerce (target : Ty) (e : Expr) : Except ParseFailure Expr :=
  if target.accepts e.ty then
    if target = .any || e.ty = target then .ok e else .ok (.converted e target)
  else .error (.incompatible e.yield)

/-- The type of the values of a list: that of its parts if they agree, and the wanted one if it
has none. -/
def commonTy (target : Ty) (items : List Expr) : Ty :=
  match items with
  | [] => target
  | item :: rest => if rest.all fun other => other.ty = item.ty then item.ty else .any

namespace Reader

/-- A call, typed by what its function declares. -/
def typeCall (r : Reader) (target : Ty) (name : String) (arguments : List RawArgument) :
    Except ParseFailure Expr :=
  let site : CallSite := ⟨r.space, name, arguments⟩
  match r.signature? name with
  | none => (Expr.call site .any true).coerce target
  | some signature =>
    if signature.returns = none ∧ target ≠ .any then .error (.incompatible .nothing)
    else (Expr.call site signature.ty signature.single).coerce target

mutual

/-- The expression that a form stands for where a value of type `target` is wanted. -/
def type (r : Reader) (target : Ty) : Form → Except ParseFailure Expr
  | .unreadable => .error .unparsable
  | .text content =>
    if '\x7b' ∈ content.toList then (Expr.template content).coerce target
    else (Expr.literal (.text content)).coerce target
  | .boolean value => (Expr.literal (.boolean value)).coerce target
  | .number value => (Expr.literal (.number value)).coerce target
  | .reference name => (Expr.reference name).coerce target
  | .list items => do
    let items ← r.typeAll target items
    (Expr.list items (commonTy target items)).coerce target
  | .call name arguments => r.typeCall target name arguments

/-- The expressions that some forms stand for, in order. -/
def typeAll (r : Reader) (target : Ty) : List Form → Except ParseFailure (List Expr)
  | [] => .ok []
  | form :: forms => do
    let item ← r.type target form
    let items ← r.typeAll target forms
    .ok (item :: items)

end

/-- The expression that a text writes where a value of type `target` is wanted. -/
def parse (r : Reader) (text : String) (target : Ty) : Except ParseFailure Expr :=
  r.type target (Form.read text.toList)

end Reader

/-! ## Expressions reach no further than their texts -/

theorem Expr.reach_of_coerce {target : Ty} {e e' : Expr} (h : e.coerce target = .ok e') :
    e'.reach = e.reach := by
  unfold coerce at h
  split at h
  · split at h <;> cases h <;> rfl
  · cases h

namespace Reader

theorem reach_of_typeCall {r : Reader} {target : Ty} {name : String}
    {arguments : List RawArgument} {e : Expr} (h : r.typeCall target name arguments = .ok e) :
    e.reach = longest arguments + 1 := by
  unfold typeCall at h
  split at h
  · exact Expr.reach_of_coerce h
  · split at h
    · cases h
    · exact Expr.reach_of_coerce h

mutual

theorem reach_of_type {r : Reader} {target : Ty} {f : Form} {e : Expr}
    (h : r.type target f = .ok e) : e.reach = f.reach := by
  cases f with
  | unreadable => simp [type] at h
  | text content =>
    simp only [type] at h
    split at h <;> exact Expr.reach_of_coerce h
  | boolean _ => exact Expr.reach_of_coerce (by simpa [type] using h)
  | number _ => exact Expr.reach_of_coerce (by simpa [type] using h)
  | reference _ => exact Expr.reach_of_coerce (by simpa [type] using h)
  | list items =>
    simp only [type] at h
    cases ht : r.typeAll target items with
    | error _ => simp [ht, bind, Except.bind] at h
    | ok es =>
      simp only [ht, bind, Except.bind] at h
      exact (Expr.reach_of_coerce h).trans (reach_of_typeAll ht)
  | call name arguments => exact reach_of_typeCall (by simpa [type] using h)

theorem reach_of_typeAll {r : Reader} {target : Ty} {fs : List Form} {es : List Expr}
    (h : r.typeAll target fs = .ok es) : Expr.reachAll es = Form.reachAll fs := by
  cases fs with
  | nil =>
    simp only [typeAll, Except.ok.injEq] at h
    subst h
    rfl
  | cons f fs =>
    simp only [typeAll] at h
    cases ht : r.type target f with
    | error _ => simp [ht, bind, Except.bind] at h
    | ok e =>
      cases hts : r.typeAll target fs with
      | error _ => simp [ht, hts, bind, Except.bind] at h
      | ok rest =>
        simp only [ht, hts, bind, Except.bind, Except.ok.injEq] at h
        subst h
        simp only [Expr.reachAll, Form.reachAll, reach_of_type ht, reach_of_typeAll hts]

end

/-- An expression reaches no further than the text it was read from is long. -/
theorem reach_parse_le {r : Reader} {text : String} {target : Ty} {e : Expr}
    (h : r.parse text target = .ok e) : e.reach ≤ text.length := by
  rw [reach_of_type h, ← String.length_toList]
  exact Form.reach_read_le text.toList

end Reader

end CallScript

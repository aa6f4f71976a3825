import CallScript.Error
import CallScript.Expr

/-!
# Binding the arguments of a call

The arguments of a call are matched with the parameters of the function it names. They are taken
in the order they are written, out of a pool that starts as all parameters in the order they are
declared: a named argument claims the parameter of that name, any other claims the first one left,
and what is claimed leaves the pool. So no parameter is bound twice, and a name that was claimed
before is as unknown as one that never was there.

The text of an argument is read for the type of its parameter. How a text is read is left open
here: `bindArguments` takes it as the function `parse`, and `exists_of_mem_bindArguments` says
that a binding holds nothing but what `parse` made of one of the arguments.
-/

namespace CallScript

/-- The parameter that an argument claims, and the pool without it. -/
def claim (pool : List Parameter) (argument : RawArgument) :
    Except BindError (Parameter × List Parameter) :=
  match argument.name with
  | some name =>
    match pool.find? fun p => p.name = name with
    | some p => .ok (p, pool.eraseP fun p => p.name = name)
    | none => .error (.unknownParameter name)
  | none =>
    match pool with
    | p :: rest => .ok (p, rest)
    | [] => .error .tooManyArguments

/-- The expression of an argument for the parameter it claims: of its type, and no list where one
value is wanted. -/
def fit (parse : String → Ty → Except ParseFailure Expr) (p : Parameter)
    (argument : RawArgument) : Except BindError Expr :=
  match parse argument.text p.ty with
  | .error .unparsable => .error (.unparsable argument.text)
  | .error (.incompatible got) => .error (.typeMismatch p got)
  | .ok e =>
    if p.single && !e.single then .error (.typeMismatch p (.values e.ty false)) else .ok e

/-- Binds arguments to the parameters in a pool. What is left over at the end must be optional. -/
def bindFrom (parse : String → Ty → Except ParseFailure Expr) (pool : List Parameter) :
    List RawArgument → Except BindError (List Binding)
  | [] =>
    match pool.find? fun p => !p.optional with
    | some p => .error (.missingRequired p.name)
    | none => .ok []
  | argument :: arguments => do
    let (p, pool) ← claim pool argument
    let e ← fit parse p argument
    let bindings ← bindFrom parse pool arguments
    .ok (⟨p, e⟩ :: bindings)

/-- Binds the arguments of a call to the parameters of a signature, in the order of the
arguments. -/
def bindArguments (parse : String → Ty → Except ParseFailure Expr) (signature : Signature)
    (arguments : List RawArgument) : Except BindError (List Binding) :=
  bindFrom parse signature.parameters arguments

/-! ## Bindings come from arguments -/

theorem parse_of_fit {parse : String → Ty → Except ParseFailure Expr} {p : Parameter}
    {a : RawArgument} {e : Expr} (h : fit parse p a = .ok e) : parse a.text p.ty = .ok e := by
  unfold fit at h
  split at h
  · cases h
  · cases h
  · next e' he' =>
    split at h
    · cases h
    · cases h; exact he'

theorem exists_of_mem_bindFrom {parse : String → Ty → Except ParseFailure Expr}
    {pool : List Parameter} {arguments : List RawArgument} {bindings : List Binding}
    (h : bindFrom parse pool arguments = .ok bindings) {b : Binding} (hb : b ∈ bindings) :
    ∃ a ∈ arguments, parse a.text b.parameter.ty = .ok b.expr := by
  induction arguments generalizing pool bindings with
  | nil =>
    unfold bindFrom at h
    split at h
    · cases h
    · cases h; simp at hb
  | cons a arguments ih =>
    simp only [bindFrom] at h
    cases hc : claim pool a with
    | error _ => simp [hc, bind, Except.bind] at h
    | ok claimed =>
      cases hf : fit parse claimed.1 a with
      | error _ => simp [hc, hf, bind, Except.bind] at h
      | ok e =>
        cases hr : bindFrom parse claimed.2 arguments with
        | error _ => simp [hc, hf, hr, bind, Except.bind] at h
        | ok rest =>
          simp only [hc, hf, hr, bind, Except.bind, Except.ok.injEq] at h
          subst h
          rcases List.mem_cons.mp hb with rfl | hb
          · exact ⟨a, by simp, parse_of_fit hf⟩
          · obtain ⟨a', ha', hp⟩ := ih hr hb
            exact ⟨a', by simp [ha'], hp⟩

/-- Every binding holds what `parse` made of one of the arguments. -/
theorem exists_of_mem_bindArguments {parse : String → Ty → Except ParseFailure Expr}
    {signature : Signature} {arguments : List RawArgument} {bindings : List Binding}
    (h : bindArguments parse signature arguments = .ok bindings) {b : Binding}
    (hb : b ∈ bindings) : ∃ a ∈ arguments, parse a.text b.parameter.ty = .ok b.expr :=
  exists_of_mem_bindFrom h hb

end CallScript

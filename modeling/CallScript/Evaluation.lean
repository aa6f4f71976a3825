import CallScript.Memory

/-!
# Evaluation

An expression is evaluated in a scope, at a place that tells what its call sites remember. Parts
are evaluated from left to right. A call site

1. finds the function it calls, or recalls it;
2. binds its arguments, or recalls how they are bound;
3. has the bound expressions evaluated, in the order of the arguments, where a parameter for one
   value gets the first of its expression;
4. has the function run, and cuts its values down to what it declares to return.

The first failure ends the evaluation, but not what was remembered up to then: the state goes
on beside the error. Checking an expression (`validate`) takes the first two steps at every call
site in it, including those in bound arguments, and runs nothing.

How a function is run is left open here: it is a field of the `Host`. So the recursion in this
module is over expressions only. It ends because the bound arguments of a call site reach less
far than the call site (`Bound`), and the parts of an expression are smaller and reach no further.
-/

namespace CallScript

/-- A computation that changes the state and may fail; the state survives the failure. -/
abbrev Attempt (ε α : Type) := ExceptT ε (StateM State) α

/-- An evaluation: a computation that fails with a fault. -/
abbrev Run (α : Type) := Attempt Fault α

/-- What evaluation depends on beside the expression: the functions there are, and how one of them
is run on evaluated arguments. -/
structure Host where
  registry : Registry
  invoke : Function → Bundle → Run (List Value)

/-- The next unused root. -/
def freshRoot {ε : Type} : Attempt ε Nat :=
  modifyGet fun state => (state.nextRoot, { state with nextRoot := state.nextRoot + 1 })

namespace CallSite

/-- The function that a call site calls: the one it remembers, or else the one it finds, which it
remembers from then on. -/
def resolve (registry : Registry) (place : Place) (site : CallSite) :
    Attempt BindError Function := do
  let pin := (← get).pins.get place
  match pin.callee with
  | some f => pure f
  | none =>
    match registry.lookup site.name site.space with
    | some f =>
      modify fun state => { state with pins := state.pins.set place { pin with callee := some f } }
      pure f
    | none => throw (.unknownCallee site.name site.space)

/-- The bindings of a call site: those of the edition it remembers, or else of the given one,
which it remembers from then on if the arguments can be bound. -/
def bind (edition : Edition) (place : Place) (site : CallSite) :
    Attempt BindError (Bound site) := do
  let pin := (← get).pins.get place
  match pin.edition with
  | some known => liftExcept (known.bind site)
  | none =>
    let bound ← liftExcept (edition.bind site)
    modify fun state =>
      { state with pins := state.pins.set place { pin with edition := some edition } }
    pure bound

/-- The function that a call site calls with the bindings of its arguments, whose texts are read
in `space`. -/
def prepare (registry : Registry) (space : String) (place : Place) (site : CallSite) :
    Run (Function × Bound site) :=
  ExceptT.adapt (fun cause => Fault.own (.call site.name cause)) do
    let f ← site.resolve registry place
    let bound ← site.bind ⟨f.signature, registry.reader space⟩ place
    pure (f, bound)

end CallSite

/-- Turns values into values of a type; the first one without a counterpart is an error. -/
def convertAll (target : Ty) (values : List Value) : Except Fault (List Value) :=
  values.mapM fun v =>
    match v.convert? target with
    | some w => .ok w
    | none => .error (.own (.conversion v target))

/-- The arguments of a run: a parameter for one value gets the first of its values. -/
def Bundle.ofBindings (bindings : List Binding) (values : List (List Value)) : Bundle :=
  (bindings.zip values).foldl
    (fun bundle (b, vs) =>
      bundle.insert b.parameter.name (if b.parameter.single then vs.take 1 else vs))
    {}

/-- A part of an expression comes before it: it reaches no further and is smaller. -/
theorem descends {reach reach' size size' : Nat} (h : reach ≤ reach') (h' : size < size') :
    Prod.Lex (· < ·) (· < ·) (reach, size) (reach', size') :=
  (Nat.lt_or_eq_of_le h).elim (Prod.Lex.left _ _) fun e => e ▸ Prod.Lex.right _ h'

namespace Host

mutual

/-- The values of an expression. -/
def eval (host : Host) (scope : Scope) (place : Place) : Expr → Run (List Value)
  | .literal value => pure [value]
  | .template text => pure [.text (String.ofList (scope.interpolate text.toList))]
  | .reference target => pure (scope.resolve target)
  | .list items _ => do
    let values ← host.evalEach scope place 0 items
    pure values.flatten
  | .converted inner target => do
    let values ← host.eval scope place inner
    liftExcept (convertAll target values)
  | .call site _ _ => do
    let returned ← host.execute scope site.space place site
    pure ((returned.map Returned.values).getD [])
termination_by e => (e.reach, sizeOf e)

/-- The values of each of some expressions, the parts of the one at `place` from `index` on. -/
def evalEach (host : Host) (scope : Scope) (place : Place) (index : Nat) :
    List Expr → Run (List (List Value))
  | [] => pure []
  | item :: items => do
    let values ← host.eval scope (place.child index) item
    let rest ← host.evalEach scope place (index + 1) items
    pure (values :: rest)
termination_by items => (Expr.reachAll items, sizeOf items)
decreasing_by
  · exact descends (Nat.le_max_left _ _) (by simp only [List.cons.sizeOf_spec]; omega)
  · exact descends (Nat.le_max_right _ _) (by simp only [List.cons.sizeOf_spec]; omega)

/-- What a call hands back. -/
def execute (host : Host) (scope : Scope) (space : String) (place : Place) (site : CallSite) :
    Run (Option Returned) := do
  let (f, ⟨bindings, _⟩) ← site.prepare host.registry space place
  let values ← host.evalEach scope place 0 (bindings.map Binding.expr)
  let result ← host.invoke f (Bundle.ofBindings bindings values)
  pure (f.signature.shape result)
termination_by (site.reach, 0)

end

end Host

mutual

/-- Finds the function and the bindings of every call site in an expression. -/
def Registry.validate (registry : Registry) (place : Place) : Expr → Run Unit
  | .list items _ => registry.validateEach place 0 items
  | .converted inner _ => registry.validate place inner
  | .call site _ _ => do
    let (_, ⟨bindings, _⟩) ← site.prepare registry site.space place
    registry.validateEach place 0 (bindings.map Binding.expr)
  | _ => pure ()
termination_by e => (e.reach, sizeOf e)

/-- Finds the function and the bindings of every call site in each of some expressions. -/
def Registry.validateEach (registry : Registry) (place : Place) (index : Nat) :
    List Expr → Run Unit
  | [] => pure ()
  | item :: items => do
    registry.validate (place.child index) item
    registry.validateEach place (index + 1) items
termination_by items => (Expr.reachAll items, sizeOf items)
decreasing_by
  · exact descends (Nat.le_max_left _ _) (by simp only [List.cons.sizeOf_spec]; omega)
  · exact descends (Nat.le_max_right _ _) (by simp only [List.cons.sizeOf_spec]; omega)

end

end CallScript

import CallScript.Invocation

/-!
# Evaluators and scripts

An evaluator is what a text is read and evaluated against: the registered functions, the space in
which names are looked up first, and a context with its variables. It evaluates single texts, and
scripts of one expression per line.

A script line is a text between line breaks without the blanks around it; lines that are then
empty or start with `#` are left out, but counted. Running a script gives one text per line, its
values separated by a comma and a space, and checking it gives the number of lines. Both stop at
the first line that fails.
-/

namespace CallScript

/-- What texts are read and evaluated against. -/
structure Evaluator where
  registry : Registry := {}
  space : String := ""
  context : Context := Context.top 256

namespace Evaluator

/-- Reads a text, where a value of type `target` is wanted, as an expression of its own. -/
def parse (evaluator : Evaluator) (text : String) (target : Ty) :
    Attempt ParseFailure (Rooted Expr) := do
  let expr ← liftExcept ((evaluator.registry.reader evaluator.space).parse text target)
  let root ← freshRoot
  pure ⟨root, expr⟩

/-- The values of an expression in the context of the evaluator. -/
def eval (evaluator : Evaluator) (expr : Rooted Expr) : Run (List Value) :=
  (evaluator.registry.host evaluator.context).eval evaluator.context.scope ⟨expr.root, []⟩
    expr.item

/-- Finds the function and the bindings of every call site in an expression. -/
def validate (evaluator : Evaluator) (expr : Rooted Expr) : Run Unit :=
  evaluator.registry.validate ⟨expr.root, []⟩ expr.item

/-- What a call site hands back in the context of the evaluator. -/
def execute (evaluator : Evaluator) (site : Rooted CallSite) : Run (Option Returned) :=
  (evaluator.registry.host evaluator.context).execute evaluator.context.scope evaluator.space
    ⟨site.root, []⟩ site.item

/-- Finds the function that a call site calls. -/
def resolve (evaluator : Evaluator) (site : Rooted CallSite) : Attempt BindError Function :=
  site.item.resolve evaluator.registry ⟨site.root, []⟩

/-- Binds the arguments of a call site to a signature, unless they are bound already. -/
def bind (evaluator : Evaluator) (signature : Signature) (site : Rooted CallSite) :
    Attempt BindError (List Binding) := do
  let edition : Edition := ⟨signature, evaluator.registry.reader evaluator.space⟩
  let bound ← site.item.bind edition ⟨site.root, []⟩
  pure bound.1

/-- Finds the function that a call site calls, and binds its arguments. -/
def prepare (evaluator : Evaluator) (site : Rooted CallSite) : Run Unit := do
  let _ ← site.item.prepare evaluator.registry evaluator.space ⟨site.root, []⟩

/-- Reads a text for a value of any type. -/
def read (evaluator : Evaluator) (text : String) : Run (Rooted Expr) :=
  ExceptT.adapt (fun failure => Fault.own (.parse [] failure text)) (evaluator.parse text .any)

/-- The values of a text. -/
def evaluate (evaluator : Evaluator) (text : String) : Run (List Value) := do
  let expr ← evaluator.read text
  evaluator.eval expr

/-- Reads a text, and finds the function and the bindings of every call site in it. -/
def check (evaluator : Evaluator) (text : String) : Run Unit := do
  let expr ← evaluator.read text
  evaluator.validate expr

/-- The texts between line breaks: the first one and the ones after it. -/
def splitLines : List Char → List Char × List (List Char)
  | [] => ([], [])
  | c :: rest =>
    let (first, others) := splitLines rest
    if c = '\n' then ([], first :: others) else (c :: first, others)

/-- The lines of a script that hold an expression, with their numbers; `number` is that of the
first one. -/
def numberedLines (number : Nat) : List (List Char) → List (Nat × String)
  | [] => []
  | line :: lines =>
    match Text.trim line with
    | [] => numberedLines (number + 1) lines
    | c :: rest =>
      if c = '#' then numberedLines (number + 1) lines
      else (number, String.ofList (c :: rest)) :: numberedLines (number + 1) lines

/-- The lines of a script that hold an expression, with their numbers from one. -/
def scriptLines (source : String) : List (Nat × String) :=
  let (first, others) := splitLines source.toList
  numberedLines 1 (first :: others)

/-- Evaluates every line of a script, and shows its values. -/
def runScript (evaluator : Evaluator) (source : String) : Run (List String) :=
  (scriptLines source).mapM fun (number, line) => do
    let values ← ExceptT.adapt (Fault.atLine number) (evaluator.evaluate line)
    pure (displayAll ", " values)

/-- Checks every line of a script, and counts them. -/
def checkScript (evaluator : Evaluator) (source : String) : Run Nat := do
  let checked ← (scriptLines source).mapM fun (number, line) =>
    ExceptT.adapt (Fault.atLine number) (evaluator.check line)
  pure checked.length

end Evaluator

end CallScript

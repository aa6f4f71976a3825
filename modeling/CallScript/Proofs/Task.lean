import Mathlib.Order.RelClasses
import CallScript.Proofs.Preparation

/-!
# What there is to do

Checking and evaluation come to expressions, to calls, to functions and to the dialogues with their
bodies. Each of these is a `Task`, and `Task.run` is what the evaluator does about it.

On the way a task begins others: `Task.Begins` lists them, whatever the state is. A task that is
begun comes below the one that begins it, in this order: there is less room left in the chain of
calls; or as much, and a body has gone on; or the texts that are left unread are shorter; or as
long, and the expression is smaller (`Task.Begins.descends`). This order is well-founded, so no
task can begin others forever (`Task.wellFounded_begins`), however functions call each other and
whatever texts their bodies have read.
-/

namespace CallScript

/-- Evaluation with `room` levels left below it. -/
def Registry.hostAt (registry : Registry) (maxDepth room : Nat) : Host :=
  ⟨registry, registry.invoke maxDepth room⟩

@[simp] theorem Registry.registry_hostAt (registry : Registry) (maxDepth room : Nat) :
    (registry.hostAt maxDepth room).registry = registry := rfl

@[simp] theorem Registry.invoke_hostAt (registry : Registry) (maxDepth room : Nat) :
    (registry.hostAt maxDepth room).invoke = registry.invoke maxDepth room := rfl

/-- What a body may evaluate in that has `room` levels below it. -/
def Registry.hostBelow (registry : Registry) (maxDepth room below : Nat) : Except Error Host :=
  if below ≤ room then .ok (registry.hostAt maxDepth (room - below))
  else .error (.recursionLimit maxDepth)

/-- What there is to do in the course of an evaluation or a check. -/
inductive Task : Type → Type where
  /-- An expression is evaluated. -/
  | eval (room : Nat) (scope : Scope) (place : Place) (e : Expr) : Task (List Value)
  /-- The parts of the expression at `place` are evaluated, from `index` on. -/
  | evalEach (room : Nat) (scope : Scope) (place : Place) (index : Nat) (items : List Expr) :
      Task (List (List Value))
  /-- A call is executed. -/
  | execute (room : Nat) (scope : Scope) (space : String) (place : Place) (site : CallSite) :
      Task (Option Returned)
  /-- A function is run. -/
  | invoke (room : Nat) (f : Function) (arguments : Bundle) : Task (List Value)
  /-- A body goes on, with the given expressions at hand. -/
  | converse {n : Nat} (room : Nat) (body : Body n) (exprs : Vector (Rooted Expr) n) :
      Task (List Value)
  /-- An expression is checked. -/
  | validate (place : Place) (e : Expr) : Task Unit
  /-- The parts of the expression at `place` are checked, from `index` on. -/
  | validateEach (place : Place) (index : Nat) (items : List Expr) : Task Unit

/-- What the evaluator does about a task. -/
def Task.run (registry : Registry) (maxDepth : Nat) : {α : Type} → Task α → Run α
  | _, eval room scope place e => (registry.hostAt maxDepth room).eval scope place e
  | _, evalEach room scope place index items =>
    (registry.hostAt maxDepth room).evalEach scope place index items
  | _, execute room scope space place site =>
    (registry.hostAt maxDepth room).execute scope space place site
  | _, invoke room f arguments => registry.invoke maxDepth room f arguments
  | _, converse room body exprs => body.run registry (registry.hostBelow maxDepth room) exprs
  | _, validate place e => registry.validate place e
  | _, validateEach place index items => registry.validateEach place index items

/-! ## What a task leads to -/

/-- What the dialogue with a body goes on with after a step. -/
inductive Body.Continues : (Σ n, Body n) → (Σ n, Body n) → Prop where
  | drawn {n least greatest} {next : Int → Body n} (i : Int) :
      Continues ⟨n, next i⟩ ⟨n, .draw least greatest next⟩
  | unread {n space text target} {failed : ParseFailure → Body n} {parsed : Body (n + 1)}
      (failure : ParseFailure) :
      Continues ⟨n, failed failure⟩ ⟨n, .parse space text target failed parsed⟩
  | read {n space text target} {failed : ParseFailure → Body n} {parsed : Body (n + 1)} :
      Continues ⟨n + 1, parsed⟩ ⟨n, .parse space text target failed parsed⟩
  | answered {n frame index} {next : Except Error (List Value) → Body n}
      (answer : Except Error (List Value)) :
      Continues ⟨n, next answer⟩ ⟨n, .evaluate frame index next⟩

/-- The tasks that a task may begin, whatever the state is. -/
inductive Task.Begins (registry : Registry) (maxDepth : Nat) :
    {α β : Type} → Task α → Task β → Prop where
  | items {room scope place items ty} :
      Begins registry maxDepth (.eval room scope place (.list items ty))
        (.evalEach room scope place 0 items)
  | inner {room scope place inner target} :
      Begins registry maxDepth (.eval room scope place (.converted inner target))
        (.eval room scope place inner)
  | call {room scope place site ty single} :
      Begins registry maxDepth (.eval room scope place (.call site ty single))
        (.execute room scope site.space place site)
  | head {room scope place index item items} :
      Begins registry maxDepth (.evalEach room scope place index (item :: items))
        (.eval room scope (place.child index) item)
  | tail {room scope place index item items} :
      Begins registry maxDepth (.evalEach room scope place index (item :: items))
        (.evalEach room scope place (index + 1) items)
  | arguments {room scope space place site} {edition : Edition} {bound : Bound site}
      (binds : edition.bind site = .ok bound) :
      Begins registry maxDepth (.execute room scope space place site)
        (.evalEach room scope place 0 (bound.1.map Binding.expr))
  | run {room scope space place site f arguments} :
      Begins registry maxDepth (.execute room scope space place site) (.invoke room f arguments)
  | body {room f arguments} :
      Begins registry maxDepth (.invoke (room + 1) f arguments)
        (.converse room (f.body arguments ⟨Scope.empty, maxDepth - room, maxDepth⟩) f.shared)
  | next {n m room} {body : Body n} {later : Body m} {exprs : Vector (Rooted Expr) n}
      {exprs' : Vector (Rooted Expr) m} (continues : Body.Continues ⟨m, later⟩ ⟨n, body⟩) :
      Begins registry maxDepth (.converse room body exprs) (.converse room later exprs')
  | evaluated {n room} {frame : Frame} {index : Fin n} {next : Except Error (List Value) → Body n}
      {exprs : Vector (Rooted Expr) n} {x : Rooted Expr} (held : x ∈ exprs)
      (enough : frame.below ≤ room) :
      Begins registry maxDepth (.converse room (.evaluate frame index next) exprs)
        (.eval (room - frame.below) frame.scope ⟨x.root, []⟩ x.item)
  | validItems {place items ty} :
      Begins registry maxDepth (.validate place (.list items ty)) (.validateEach place 0 items)
  | validInner {place inner target} :
      Begins registry maxDepth (.validate place (.converted inner target)) (.validate place inner)
  | validArguments {place site ty single} {edition : Edition} {bound : Bound site}
      (binds : edition.bind site = .ok bound) :
      Begins registry maxDepth (.validate place (.call site ty single))
        (.validateEach place 0 (bound.1.map Binding.expr))
  | validHead {place index item items} :
      Begins registry maxDepth (.validateEach place index (item :: items))
        (.validate (place.child index) item)
  | validTail {place index item items} :
      Begins registry maxDepth (.validateEach place index (item :: items))
        (.validateEach place (index + 1) items)

/-! ## It leads down -/

/-- What is left of a task: the room in the chain of calls, whether a body talks (2), expressions
are evaluated (1) or a function is to be run (0), what the body still says, how long the texts are
that are left unread, and how large the expression is. -/
abbrev Rank := Nat × Nat × (Σ n, Body n) × Nat × Nat

/-- The order in which tasks descend: the first difference decides. -/
abbrev Rank.Below : Rank → Rank → Prop :=
  Prod.Lex (· < ·) (Prod.Lex (· < ·) (Prod.Lex Body.Continues (Prod.Lex (· < ·) (· < ·))))

namespace Task

/-- The body that is noted where none talks. -/
def silent : Σ n, Body n := ⟨0, .done (.ok [])⟩

/-- What is left of a task. -/
noncomputable def rank : {α : Type} → Task α → Rank
  | _, eval room _ _ e => (room, 1, silent, e.reach, sizeOf e)
  | _, evalEach room _ _ _ items => (room, 1, silent, Expr.reachAll items, sizeOf items)
  | _, execute room _ _ _ site => (room, 1, silent, site.reach, 0)
  | _, invoke room _ _ => (room, 0, silent, 0, 0)
  | _, @converse n room body _ => (room, 2, ⟨n, body⟩, 0, 0)
  | _, validate _ e => (0, 1, silent, e.reach, sizeOf e)
  | _, validateEach _ _ items => (0, 1, silent, Expr.reachAll items, sizeOf items)

end Task

namespace Rank.Below

variable {room stage reach size reach' size' : Nat} {body : Σ n, Body n}

/-- A part of an expression, or an argument of a call: it comes lower than the whole. -/
theorem part (h : Prod.Lex (· < ·) (· < ·) (reach, size) (reach', size')) :
    Rank.Below (room, stage, body, reach, size) (room, stage, body, reach', size') :=
  .right _ (.right _ (.right _ h))

end Rank.Below

variable {registry : Registry} {maxDepth : Nat}

/-- What a task begins comes below it. -/
theorem Task.Begins.descends {α β : Type} {task : Task α} {later : Task β}
    (h : task.Begins registry maxDepth later) : Rank.Below later.rank task.rank := by
  -- The head and the tail of a list reach no further than the list and are smaller.
  have head (item : Expr) (items : List Expr) : Prod.Lex (· < ·) (· < ·)
      (item.reach, sizeOf item) (Expr.reachAll (item :: items), sizeOf (item :: items)) :=
    CallScript.descends (Nat.le_max_left _ _) (by simp only [List.cons.sizeOf_spec]; omega)
  have tail (item : Expr) (items : List Expr) : Prod.Lex (· < ·) (· < ·)
      (Expr.reachAll items, sizeOf items)
      (Expr.reachAll (item :: items), sizeOf (item :: items)) :=
    CallScript.descends (Nat.le_max_right _ _) (by simp only [List.cons.sizeOf_spec]; omega)
  cases h with
  | items | validItems =>
    exact .part (CallScript.descends (Nat.le_refl _) (by simp only [Expr.list.sizeOf_spec]; omega))
  | inner | validInner =>
    exact .part
      (CallScript.descends (Nat.le_refl _) (by simp only [Expr.converted.sizeOf_spec]; omega))
  | call =>
    exact .part (CallScript.descends (Nat.le_refl _) (by simp only [Expr.call.sizeOf_spec]; omega))
  | head | validHead => exact .part (head ..)
  | tail | validTail => exact .part (tail ..)
  | @arguments _ _ _ _ _ _ bound => exact .part (.left _ _ bound.2)
  | @validArguments _ _ _ _ _ bound => exact .part (.left _ _ bound.2)
  | run => exact .right _ (.left _ _ Nat.zero_lt_one)
  | body => exact .left _ _ (Nat.lt_succ_self _)
  | next continues => exact .right _ (.right _ (.left _ _ continues))
  | evaluated _ enough =>
    rcases Nat.lt_or_eq_of_le (Nat.sub_le _ _) with hless | hsame
    · exact .left _ _ hless
    · rw [rank, hsame]
      exact .right _ (.left _ _ (Nat.lt_succ_self 1))

/-- A dialogue is finite, whatever its answers are. -/
theorem Body.wellFounded_continues : WellFounded Body.Continues := by
  refine ⟨fun ⟨n, body⟩ => ?_⟩
  induction body with
  | done result => exact ⟨_, fun later h => by cases h⟩
  | draw least greatest next ih =>
    refine ⟨_, fun later h => ?_⟩
    cases h with
    | drawn i => exact ih i
  | parse space text target failed parsed ih ih' =>
    refine ⟨_, fun later h => ?_⟩
    cases h with
    | unread failure => exact ih failure
    | read => exact ih'
  | evaluate frame index next ih =>
    refine ⟨_, fun later h => ?_⟩
    cases h with
    | answered answer => exact ih answer

/-- Nothing descends forever. -/
theorem Rank.wellFounded_below : WellFounded Rank.Below := by
  have numbers : WellFounded fun a b : Nat => a < b := Nat.lt_wfRel.wf
  have dialogues := Body.wellFounded_continues.prod_lex (numbers.prod_lex numbers)
  exact numbers.prod_lex (numbers.prod_lex dialogues)

/-- No task can begin others forever. -/
theorem Task.wellFounded_begins (registry : Registry) (maxDepth : Nat) :
    WellFounded fun later task : Σ α, Task α => task.2.Begins registry maxDepth later.2 :=
  Subrelation.wf (fun h => h.descends)
    (InvImage.wf (fun task : Σ α, Task α => task.2.rank) Rank.wellFounded_below)

end CallScript

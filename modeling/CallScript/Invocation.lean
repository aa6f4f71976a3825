import CallScript.Evaluation

/-!
# Running functions

The body of a function is a dialogue, and `Body.run` holds it: it answers what the body asks for.
Evaluation inside a body happens below the body in the chain of calls, and the chain has a greatest
depth. `Registry.invoke` is given the *room* that is left, the number of levels from the caller
down to that depth. Without room a call fails, and the function does not run; otherwise the body
runs with one level less, and a frame `below` levels under it with that much less again. The room
only ever shrinks, so functions that call each other, or themselves, come to an end.

A random integer comes from the source that is part of the state (`State.drawn`). Nothing is assumed
of that source, and it may be any integer of the range that was asked for (`State.drawn_iff`).
-/

namespace CallScript

/-- The outcome of an evaluation as a body sees it, an error included. -/
def outcome {α : Type} (run : Run α) : Run (Except Error α) := do
  let answer ← ExceptT.lift run.run
  pure (answer.mapError Fault.error)

/-- The random integer from `least` to `greatest` that a state has next, and the state after it was
drawn. The integer is `least` if there is none between them. -/
def State.drawn (state : State) (least greatest : Int) : Int × State :=
  let (word, random) := state.random.next
  let spread := (greatest - least + 1).toNat
  (least + (word % max spread 1 : Nat), { state with random })

/-- Drawing a random integer changes the source of random integers only. -/
theorem State.exists_random_of_drawn (state : State) (least greatest : Int) :
    ∃ random, (state.drawn least greatest).2 = { state with random } := ⟨_, rfl⟩

/-- What can be drawn is what lies in the range: every source gives an integer of it, and for each
of them there is a source that gives it. -/
theorem State.drawn_iff (state : State) {least greatest : Int} (h : least ≤ greatest) (n : Int) :
    (∃ random, ({ state with random }.drawn least greatest).1 = n) ↔
      least ≤ n ∧ n ≤ greatest := by
  constructor
  · rintro ⟨random, rfl⟩
    have hword := Nat.mod_lt (random.tape random.used)
      (show 0 < max (greatest - least + 1).toNat 1 by omega)
    simp only [drawn, RandomSource.next]
    omega
  · rintro ⟨hleast, hgreatest⟩
    refine ⟨⟨fun _ => (n - least).toNat, 0⟩, ?_⟩
    have hword : (n - least).toNat < max (greatest - least + 1).toNat 1 := by omega
    simp only [drawn, RandomSource.next, Nat.mod_eq_of_lt hword]
    omega

/-- A random integer from `least` to `greatest`. -/
def draw (least greatest : Int) : Run Int :=
  modifyGet fun state => state.drawn least greatest

/-- Holds the dialogue with a body that has the given expressions at hand. `host` tells how to
evaluate a number of levels below the body, or why that cannot be done. -/
def Body.run (registry : Registry) (host : Nat → Except Error Host) :
    {n : Nat} → Body n → Vector (Rooted Expr) n → Run (List Value)
  | _, .done result, _ => liftExcept (result.mapError Fault.ofBody)
  | _, .draw least greatest next, exprs => do
    let n ← CallScript.draw least greatest
    (next n).run registry host exprs
  | _, .parse space text target failed parsed, exprs =>
    match (registry.reader space).parse text target with
    | .error failure => (failed failure).run registry host exprs
    | .ok expr => do
      let root ← freshRoot
      parsed.run registry host (exprs.push ⟨root, expr⟩)
  | _, .evaluate frame index next, exprs =>
    match host frame.below with
    | .error e => (next (.error e)).run registry host exprs
    | .ok below => do
      let expr := exprs[index]
      let answer ← outcome (below.eval frame.scope ⟨expr.root, []⟩ expr.item)
      (next answer).run registry host exprs

/-- Notes that a function is run. -/
def noteInvocation (invocation : Invocation) : Run Unit :=
  modify fun state => { state with history := invocation :: state.history }

/-- Runs a function, called from a context with `room` levels below it. -/
def Registry.invoke (registry : Registry) (maxDepth room : Nat) (f : Function)
    (arguments : Bundle) : Run (List Value) :=
  match room with
  | 0 => throw (.own (.recursionLimit maxDepth))
  | room + 1 => do
    let context : Context := ⟨Scope.empty, maxDepth - room, maxDepth⟩
    noteInvocation ⟨f, arguments, context.depth⟩
    let host (below : Nat) : Except Error Host :=
      if below ≤ room then
        .ok ⟨registry, fun g args => registry.invoke maxDepth (room - below) g args⟩
      else .error (.recursionLimit maxDepth)
    (f.body arguments context).run registry host f.shared
termination_by room
decreasing_by exact Nat.lt_succ_of_le (Nat.sub_le _ _)

/-- What evaluation in a context depends on. -/
def Registry.host (registry : Registry) (context : Context) : Host :=
  ⟨registry, registry.invoke context.maxDepth (context.maxDepth - context.depth)⟩

end CallScript

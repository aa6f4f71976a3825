import Mathlib.Logic.Relation
import CallScript.Evaluator
import CallScript.Proofs.Frame

/-!
# Staged loading

Scripts are loaded in stages: functions are registered or replaced, texts are read and calls are
made, and what was read or made is resolved, prepared, checked or evaluated, in any order and as
often as one likes. A `Session` is what there is at some moment of this, and `Session.Step` says
what may happen next; each step reads, evaluates and looks up names in a space and a context of its
choice. The functions that are registered may share expressions that were read before, and calls
that were made before. Random integers come from any source, and from another one at any time.

What holds of every session that can be reached is proved by one case for each step. The first such
fact is `Session.Reached.isRooted`: the state is settled, and whatever was read or made has a root
that is used; so nothing a session does can get at an expression that is only read later.
-/

namespace CallScript

/-- What there is at some moment: the functions, the state of evaluation, the expressions that were
read, and the calls that were made. -/
structure Session where
  registry : Registry := {}
  state : State := {}
  read : List (Rooted Expr) := []
  sites : List (Rooted CallSite) := []

namespace Session

/-- The session in another state. -/
def moved (session : Session) (state : State) : Session := { session with state }

/-- Whether an expression is at hand, to be shared between the runs of a function. -/
def Holds (session : Session) (x : Rooted Expr) : Prop :=
  x ∈ session.read ∨
    ∃ site ∈ session.sites, ∃ single, x = ⟨site.root, .call site.item .any single⟩

/-- What may happen next. Runs are held to a law. -/
inductive Step (law : Law) (session : Session) : Session → Prop where
  /-- A function is registered, or put in the place of one of its name. -/
  | register {f : Function} (shared : ∀ x ∈ f.shared, session.Holds x) :
      Step law session { session with registry := session.registry.register f }
  /-- A text is read. -/
  | parse {space context text target x after}
      (accepted : (Evaluator.parse ⟨session.registry, space, context⟩ text target).runIn
        session.state = (.ok x, after)) :
      Step law session { session with state := after, read := x :: session.read }
  /-- A call is made. -/
  | make (site : CallSite) :
      Step law session
        { session with
          state := { session.state with nextRoot := session.state.nextRoot + 1 }
          sites := ⟨session.state.nextRoot, site⟩ :: session.sites }
  /-- The function of a call is searched for. -/
  | resolve {site space context} (known : site ∈ session.sites) :
      Step law session (session.moved
        ((Evaluator.resolve ⟨session.registry, space, context⟩ site).runIn session.state).2)
  /-- A call is prepared. -/
  | prepare {site space context} (known : site ∈ session.sites) :
      Step law session (session.moved
        ((Evaluator.prepare ⟨session.registry, space, context⟩ site).runIn session.state).2)
  /-- A call is executed. -/
  | execute {site space} {context : Context} {outcome after} (known : site ∈ session.sites)
      (ran : Derives session.registry context.maxDepth law
        (.execute (context.maxDepth - context.depth) context.scope space ⟨site.root, []⟩ site.item)
        session.state outcome after) :
      Step law session (session.moved after)
  /-- An expression is checked. -/
  | validate {x maxDepth outcome after} (known : x ∈ session.read)
      (ran : Derives session.registry maxDepth law (.validate ⟨x.root, []⟩ x.item) session.state
        outcome after) :
      Step law session (session.moved after)
  /-- An expression is evaluated. -/
  | evaluate {x} {context : Context} {outcome after} (known : x ∈ session.read)
      (ran : Derives session.registry context.maxDepth law
        (.eval (context.maxDepth - context.depth) context.scope ⟨x.root, []⟩ x.item) session.state
        outcome after) :
      Step law session (session.moved after)
  /-- Random integers come from another source. -/
  | reseed (random : RandomSource) :
      Step law session (session.moved { session.state with random })

/-- The sessions that can be reached. -/
def Reached (law : Law) (session : Session) : Prop := Relation.ReflTransGen (Step law) {} session

/-! ## Steps are what an evaluator does -/

theorem execute_eq_run (evaluator : Evaluator) (site : Rooted CallSite) :
    evaluator.execute site = Task.run evaluator.registry evaluator.context.maxDepth
      (.execute (evaluator.context.maxDepth - evaluator.context.depth) evaluator.context.scope
        evaluator.space ⟨site.root, []⟩ site.item) := rfl

theorem validate_eq_run (evaluator : Evaluator) (x : Rooted Expr) (maxDepth : Nat) :
    evaluator.validate x = Task.run evaluator.registry maxDepth (.validate ⟨x.root, []⟩ x.item) :=
  rfl

theorem eval_eq_run (evaluator : Evaluator) (x : Rooted Expr) :
    evaluator.eval x = Task.run evaluator.registry evaluator.context.maxDepth
      (.eval (evaluator.context.maxDepth - evaluator.context.depth) evaluator.context.scope
        ⟨x.root, []⟩ x.item) := rfl

/-- What reading a text does. -/
theorem of_runIn_parse {evaluator : Evaluator} {text : String} {target : Ty} {x : Rooted Expr}
    {state after : State} (h : (evaluator.parse text target).runIn state = (.ok x, after)) :
    (evaluator.registry.reader evaluator.space).parse text target = .ok x.item ∧
      x.root = state.nextRoot ∧ after = { state with nextRoot := state.nextRoot + 1 } := by
  rw [Evaluator.parse] at h
  cases hparse : (evaluator.registry.reader evaluator.space).parse text target with
  | error failure =>
    rw [hparse] at h
    cases h
  | ok e =>
    rw [hparse] at h
    cases h
    exact ⟨rfl, rfl, rfl⟩

/-- What searching for the function of a call does. -/
theorem of_runIn_resolve (evaluator : Evaluator) (site : Rooted CallSite) (state : State) :
    ((evaluator.resolve site).runIn state).2 = state ∨
      ∃ f, (state.pins.get ⟨site.root, []⟩).callee.or
          (evaluator.registry.lookup site.item.name site.item.space) = some f ∧
        state.Repinned ⟨site.root, []⟩ { state.pins.get ⟨site.root, []⟩ with callee := some f }
          ((evaluator.resolve site).runIn state).2 := by
  have hresolve := runIn_resolve evaluator.registry ⟨site.root, []⟩ site.item state
  rw [Evaluator.resolve]
  cases hcallee : (state.pins.get ⟨site.root, []⟩).callee.or
      (evaluator.registry.lookup site.item.name site.item.space) with
  | none =>
    rw [hcallee] at hresolve
    rw [hresolve]
    exact .inl rfl
  | some f =>
    rw [hcallee] at hresolve
    obtain ⟨after, hrun, hpin⟩ := hresolve
    rw [hrun]
    exact .inr ⟨f, rfl, hpin⟩

/-- What preparing a call does. -/
theorem of_runIn_prepare (evaluator : Evaluator) (site : Rooted CallSite) (state : State) :
    state.Repinned ⟨site.root, []⟩
      ((state.pins.get ⟨site.root, []⟩).prepare evaluator.registry evaluator.space site.item).2
      ((evaluator.prepare site).runIn state).2 := by
  obtain ⟨-, hpin⟩ :=
    runIn_prepare evaluator.registry evaluator.space ⟨site.root, []⟩ site.item state
  rw [Evaluator.prepare, Attempt.runIn_bind_pure]
  exact hpin

/-! ## Roots -/

/-- The state is settled, and what was read or made has a root that is used. -/
structure IsRooted (session : Session) : Prop where
  settled : session.state.Settled session.registry
  read : ∀ x ∈ session.read, x.root < session.state.nextRoot
  sites : ∀ site ∈ session.sites, site.root < session.state.nextRoot

theorem IsRooted.start : IsRooted {} where
  settled := .start
  read _ h := absurd h List.not_mem_nil
  sites _ h := absurd h List.not_mem_nil

theorem IsRooted.of_holds {session : Session} (h : session.IsRooted) {x : Rooted Expr}
    (hx : session.Holds x) : x.root < session.state.nextRoot := by
  rcases hx with hx | ⟨site, hsite, single, rfl⟩
  · exact h.read x hx
  · exact h.sites site hsite

/-- An evaluation leaves everything as rooted as it was. -/
theorem IsRooted.moved {session : Session} (h : session.IsRooted) {after : State}
    (hsettled : after.Settled session.registry)
    (hroot : session.state.nextRoot ≤ after.nextRoot) : (session.moved after).IsRooted where
  settled := hsettled
  read x hx := Nat.lt_of_lt_of_le (h.read x hx) hroot
  sites site hsite := Nat.lt_of_lt_of_le (h.sites site hsite) hroot

/-- A call site that remembers another function leaves everything as rooted as it was. -/
theorem IsRooted.repinned {session : Session} (h : session.IsRooted) {after : State}
    {site : Rooted CallSite} (hsite : site ∈ session.sites) {pin : Pin}
    (hpin : session.state.Repinned ⟨site.root, []⟩ pin after)
    (hcallee : ∀ f, pin.callee = some f →
      (session.state.pins.get ⟨site.root, []⟩).callee.or
        (session.registry.lookup site.item.name site.item.space) = some f) :
    (session.moved after).IsRooted := by
  refine h.moved ?_ (Nat.le_of_eq hpin.nextRoot_eq.symm)
  apply h.settled.repinned hpin (h.sites site hsite)
  intro f hf
  exact known_of_found h.settled.registered h.settled.recalled (hcallee f hf)

theorem IsRooted.step {law : Law} {session after : Session} (h : session.IsRooted)
    (hstep : Step law session after) : after.IsRooted := by
  cases hstep with
  | register shared =>
    exact ⟨h.settled.register fun x hx => h.of_holds (shared x hx), h.read, h.sites⟩
  | parse accepted =>
    obtain ⟨-, hroot, rfl⟩ := of_runIn_parse accepted
    refine ⟨h.settled.freshRoot, ?_, ?_⟩
    · intro x hx
      rcases List.mem_cons.mp hx with rfl | hx
      · exact hroot ▸ Nat.lt_succ_self _
      · exact Nat.lt_succ_of_lt (h.read x hx)
    · intro site hsite
      exact Nat.lt_succ_of_lt (h.sites site hsite)
  | make site =>
    refine ⟨h.settled.freshRoot, fun x hx => Nat.lt_succ_of_lt (h.read x hx), ?_⟩
    intro site hsite
    rcases List.mem_cons.mp hsite with rfl | hsite
    · exact Nat.lt_succ_self _
    · exact Nat.lt_succ_of_lt (h.sites site hsite)
  | @resolve site space context known =>
    rcases of_runIn_resolve ⟨session.registry, space, context⟩ site session.state with
      hsame | ⟨f, hfound, hpin⟩
    · -- The call site remembers its function, or there is none.
      rw [hsame]
      exact h
    · refine h.repinned known hpin ?_
      intro g hg
      cases hg
      exact hfound
  | @prepare site space context known =>
    have hpin := of_runIn_prepare ⟨session.registry, space, context⟩ site session.state
    refine h.repinned known hpin ?_
    intro f hf
    rwa [Pin.callee_prepare] at hf
  | execute known ran =>
    exact h.moved (ran.settled h.settled (h.sites _ known)) ran.extends.nextRoot
  | validate known ran | evaluate known ran =>
    exact h.moved (ran.settled h.settled (h.read _ known)) ran.extends.nextRoot
  | reseed =>
    exact h.moved ⟨h.settled.unused, h.settled.registered, h.settled.recalled⟩ (Nat.le_refl _)

/-- In every session that can be reached the state is settled, and what was read or made has a root
that is used. -/
theorem Reached.isRooted {law : Law} {session : Session} (h : Reached law session) :
    session.IsRooted := by
  induction h with
  | refl => exact .start
  | tail _ hstep ih => exact ih.step hstep

end Session

end CallScript

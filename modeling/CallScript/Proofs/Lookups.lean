import CallScript.Proofs.Determinism

/-!
# Which variables an evaluation looks up

An expression refers to variables by their names, and in a template the names may be put together
from the values of other variables. So which variables an evaluation looks up is not written in the
expression; it depends on the variables, and on how far the evaluation gets.

`Scope.lookups` lists the variables that are looked up for a text, `Moment.LooksUp` says which are
looked up from a moment of an evaluation on. This is about the variables of one context: a function
that is run on the way has variables of its own, and what it looks up there does not count.

No other variable makes a difference (`Session.unread_variables_do_not_show`). In a scope that
gives the same values to what is looked up, the evaluation takes the very same way
(`Derives.inScope`): each name is put together from values that were looked up before, so the two
runs agree on it, and what a function is given are values that were evaluated alike.
-/

namespace CallScript

/-! ## Variables that a text refers to -/

namespace Scope

/-- The variables that are looked up when the references in a text are replaced, in order: those in
the name of a reference, then the one that it names, then those after it. -/
def lookups (scope : Scope) : List Char → List String
  | [] => []
  | c :: rest =>
    if c = '\x7b' then
      match _h : splitReference 0 rest with
      | none => []
      | some (inner, after) =>
        scope.lookups inner ++
          (Reference.ofText (scope.interpolate inner)).name :: scope.lookups after
    else scope.lookups rest
termination_by s => s.length
decreasing_by
  · have h := length_splitReference _h
    simp only [List.length_cons]
    omega
  · have h := length_splitReference _h
    simp only [List.length_cons]
    omega
  · simp

section

variable {scope other : Scope} {rest inner after : List Char}

theorem interpolate_cons {c : Char} (hc : c ≠ '\x7b') :
    scope.interpolate (c :: rest) = c :: scope.interpolate rest := by
  rw [interpolate, if_neg hc]

/-- A brace that is never closed stays, with everything after it. -/
theorem interpolate_open (h : splitReference 0 rest = none) :
    scope.interpolate ('\x7b' :: rest) = '\x7b' :: rest := by
  rw [interpolate, if_pos rfl]
  split
  · rfl
  · next hsplit =>
    rw [h] at hsplit
    cases hsplit

theorem interpolate_reference (h : splitReference 0 rest = some (inner, after)) :
    scope.interpolate ('\x7b' :: rest) =
      (displayAll " " (scope.get (Reference.ofText (scope.interpolate inner)).name)).toList ++
        scope.interpolate after := by
  rw [interpolate, if_pos rfl]
  split
  · next hsplit =>
    rw [h] at hsplit
    cases hsplit
  · next hsplit =>
    rw [h] at hsplit
    cases hsplit
    rfl

/-- Scopes that agree on what is looked up for a text make the same of it. -/
theorem interpolate_eq {s : List Char}
    (h : ∀ name ∈ scope.lookups s, other.get name = scope.get name) :
    other.interpolate s = scope.interpolate s := by
  fun_induction scope.lookups s with
  | case1 => rw [interpolate, interpolate]
  | case2 rest hsplit => rw [interpolate_open hsplit, interpolate_open hsplit]
  | case3 rest inner after hsplit ih ih' =>
    -- The name is the same in both scopes, since what is in it is looked up first.
    have hinner := ih fun name hname => h name (List.mem_append_left _ hname)
    have hafter := ih' fun name hname =>
      h name (List.mem_append_right _ (List.mem_cons_of_mem _ hname))
    have hvalues := h _ (List.mem_append_right _ (List.mem_cons_self ..))
    rw [interpolate_reference hsplit, interpolate_reference hsplit, hinner, hafter, hvalues]
  | case4 c rest hc ih => rw [interpolate_cons hc, interpolate_cons hc, ih h]

end

end Scope

/-! ## Variables that an evaluation refers to -/

namespace Task

/-- Whether a task is about an expression or a call, which see the variables of a context. A
function has variables of its own, and a check needs none. -/
def SeesVariables : {α : Type} → Task α → Prop
  | _, eval .. | _, evalEach .. | _, execute .. => True
  | _, _ => False

/-- The variables that a task sees. -/
def scope : {α : Type} → Task α → Scope
  | _, eval _ scope _ _ | _, evalEach _ scope _ _ _ | _, execute _ scope _ _ _ => scope
  | _, _ => Scope.empty

/-- The task with other variables. -/
def inScope (other : Scope) : {α : Type} → Task α → Task α
  | _, eval room _ place e => eval room other place e
  | _, evalEach room _ place index items => evalEach room other place index items
  | _, execute room _ space place site => execute room other space place site
  | _, task => task

/-- The variables that are looked up for a task itself, before it begins any other. -/
def lookups : {α : Type} → Task α → List String
  | _, eval _ scope _ (.template text) => scope.lookups text.toList
  | _, eval _ _ _ (.reference target) => [target.name]
  | _, _ => []

end Task

/-- Whether an evaluation comes from one moment to another without going into a function. -/
def Moment.LeadsWithin (registry : Registry) (maxDepth : Nat) : Moment → Moment → Prop :=
  Relation.ReflTransGen fun before after =>
    Moment.Next registry maxDepth before after ∧ ¬after.IsRun

theorem Moment.LeadsWithin.leadsTo {registry : Registry} {maxDepth : Nat} {first second : Moment}
    (h : first.LeadsWithin registry maxDepth second) : first.LeadsTo registry maxDepth second :=
  Relation.ReflTransGen.mono (fun _ _ hnext => hnext.1) _ _ h

/-- Whether a variable is looked up from a moment on. What functions look up does not count: they
have variables of their own. -/
def Moment.LooksUp (registry : Registry) (maxDepth : Nat) (moment : Moment) (name : String) :
    Prop :=
  ∃ later, moment.LeadsWithin registry maxDepth later ∧ name ∈ later.task.lookups

/-- Whether other variables have the same values, as far as they are looked up from a moment on. -/
def Moment.AgreesOnLookups (registry : Registry) (maxDepth : Nat) (moment : Moment)
    (other : Scope) : Prop :=
  ∀ name, moment.LooksUp registry maxDepth name → other.get name = moment.task.scope.get name

section

variable {registry : Registry} {maxDepth : Nat} {other : Scope} {first second : Moment}

theorem Moment.AgreesOnLookups.here (h : first.AgreesOnLookups registry maxDepth other) :
    ∀ name ∈ first.task.lookups, other.get name = first.task.scope.get name :=
  fun name hname => h name ⟨first, .refl, hname⟩

theorem Moment.AgreesOnLookups.next (h : first.AgreesOnLookups registry maxDepth other)
    (hnext : Moment.Next registry maxDepth first second) (hrun : ¬second.IsRun)
    (hscope : second.task.scope = first.task.scope) :
    second.AgreesOnLookups registry maxDepth other := by
  intro name hname
  obtain ⟨later, hleads, hlater⟩ := hname
  rw [hscope]
  exact h name ⟨later, .head ⟨hnext, hrun⟩ hleads, hlater⟩

/-- With other variables that agree on what is looked up, a task takes the very same way. -/
theorem Derives.inScope {α : Type} {task : Task α} {state after : State}
    {outcome : Except Fault α} (h : Derives registry maxDepth .free task state outcome after)
    (htask : task.SeesVariables)
    (hsame : Moment.AgreesOnLookups registry maxDepth ⟨task, state⟩ other) :
    Derives registry maxDepth .free (task.inScope other) state outcome after := by
  -- On the derivation. The agreement is handed down to each part; where a function is run, nothing
  -- is left of the variables but the values of its arguments, and these are the same.
  induction h with
  | literal => exact .literal
  | template =>
    rw [← Scope.interpolate_eq hsame.here]
    exact .template
  | @reference room scope place target state =>
    have hvalues := hsame.here target.name (List.mem_singleton_self _)
    have hresolve : other.resolve target = scope.resolve target := by
      rw [Scope.resolve, Scope.resolve, hvalues]
      rfl
    rw [← hresolve]
    exact .reference
  | list _ ih => exact .list (ih trivial (hsame.next .items id rfl))
  | converted _ ih => exact .converted (ih trivial (hsame.next .inner id rfl))
  | call _ ih => exact .call (ih trivial (hsame.next .call id rfl))
  | evalNil => exact .evalNil
  | evalFails _ ih => exact .evalFails (ih trivial (hsame.next .head id rfl))
  | evalCons head _ ih ih' =>
    exact .evalCons (ih trivial (hsame.next .head id rfl))
      (ih' trivial (hsame.next (.tail head) id rfl))
  | unprepared prepared => exact .unprepared prepared
  | argumentFails prepared _ ih =>
    exact .argumentFails prepared (ih trivial (hsame.next (.arguments prepared) id rfl))
  | executed prepared _ kept invoked ih =>
    exact .executed prepared (ih trivial (hsame.next (.arguments prepared) id rfl)) kept invoked
  | _ => exact htask.elim

end

/-- Whether an expression is about to be evaluated that has no parts. -/
def Moment.IsLeaf : Moment → Prop
  | ⟨.eval _ _ _ (.literal _), _⟩ | ⟨.eval _ _ _ (.template _), _⟩
  | ⟨.eval _ _ _ (.reference _), _⟩ => True
  | _ => False

theorem Moment.Next.not_isLeaf {registry : Registry} {maxDepth : Nat} {before after : Moment}
    (h : Moment.Next registry maxDepth before after) : ¬before.IsLeaf := by
  cases h <;> exact id

/-- From an expression without parts nothing is looked up but what it refers to itself. -/
theorem Moment.looksUp_iff_of_isLeaf {registry : Registry} {maxDepth : Nat} {moment : Moment}
    (h : moment.IsLeaf) (name : String) :
    moment.LooksUp registry maxDepth name ↔ name ∈ moment.task.lookups := by
  constructor
  · rintro ⟨later, hleads, hname⟩
    rcases hleads.cases_head with rfl | ⟨next, ⟨hnext, -⟩, -⟩
    · exact hname
    · exact absurd h hnext.not_isLeaf
  · exact fun hname => ⟨_, .refl, hname⟩

/-! ## Calls and the variables of the caller -/

/-- What the arguments of a call come to: it is prepared, and they are evaluated. -/
def Host.evalArguments (host : Host) (scope : Scope) (space : String) (place : Place)
    (site : CallSite) : Run (List (List Value)) := do
  let (_, bound) ← site.prepare host.registry space place
  host.evalEach scope place 0 (bound.1.map Binding.expr)

section

variable {registry : Registry} {maxDepth room root root' : Nat} {layout layout' : Layout}
  {state state' : State} {scope other : Scope} {space : String} {place place' : Place}
  {site : CallSite}

theorem runIn_evalArguments {f : Function} {bound : Bound site} {middle : State}
    (prepared : (site.prepare registry space place).runIn state = (.ok (f, bound), middle)) :
    ((registry.hostAt maxDepth room).evalArguments scope space place site).runIn state =
      (Task.run registry maxDepth
        (.evalEach room scope place 0 (bound.1.map Binding.expr))).runIn middle :=
  Attempt.runIn_bind_of_ok prepared

/-- A call that is laid out in two states is executed alike if its arguments come to the same and
the functions end alike that are run: the variables of the callers do not matter otherwise. -/
theorem State.Secludes.execute_alike (hstate : state.Secludes registry root layout)
    (hplace : layout place = some (space, site))
    (hstate' : state'.Secludes registry root' layout')
    (hplace' : layout' place' = some (space, site))
    (hruns : Moment.AgreeOnRuns registry maxDepth ⟨.execute room scope space place site, state⟩
      ⟨.execute room other space place' site, state'⟩)
    (harguments :
      (((registry.hostAt maxDepth room).evalArguments other space place' site).runIn state').1 =
        (((registry.hostAt maxDepth room).evalArguments scope space place site).runIn state).1) :
    (((registry.hostAt maxDepth room).execute other space place' site).runIn state').1 =
      (((registry.hostAt maxDepth room).execute scope space place site).runIn state).1 := by
  obtain ⟨outcome, after, after', hran, hran'⟩ : ∃ outcome after after',
      Derives registry maxDepth .free (.execute room scope space place site) state outcome after ∧
      Derives registry maxDepth .free (.execute room other space place' site) state' outcome
        after' := by
    rcases hprepared : (site.prepare registry space place).runIn state with
      ⟨fault | ⟨f, bound⟩, middle⟩
    · obtain ⟨middle', hprepared'⟩ := hstate.prepare_alike hplace hstate' hplace' hprepared
      exact ⟨_, _, _, .unprepared hprepared, .unprepared hprepared'⟩
    · obtain ⟨middle', hprepared'⟩ := hstate.prepare_alike hplace hstate' hplace' hprepared
      obtain ⟨-, hfound⟩ := hstate.agrees.prepared hplace hprepared
      rw [runIn_evalArguments hprepared, runIn_evalArguments hprepared'] at harguments
      have hran := derives registry maxDepth
        (.evalEach room scope place 0 (bound.1.map Binding.expr)) middle
      obtain ⟨called', hran'⟩ := Task.exists_derives harguments
      rcases hvalues : (Task.run registry maxDepth
        (.evalEach room scope place 0 (bound.1.map Binding.expr))).runIn middle with
        ⟨fault | values, called⟩
      · rw [hvalues] at hran hran'
        exact ⟨_, _, _, .argumentFails hprepared hran, .argumentFails hprepared' hran'⟩
      · rw [hvalues] at hran hran'
        -- The function is run on the same arguments.
        have hsame := hruns f (Registry.mem_of_lookup hfound) _ _ _ _
          (.single (.run hprepared hran)) (.single (.run hprepared' hran'))
        obtain ⟨after', hinvoked⟩ : ∃ after', Derives registry maxDepth .free
            (.invoke room f (Bundle.ofBindings bound.1 values)) called' _ after' :=
          Task.exists_derives hsame.symm
        exact ⟨_, _, _, .executed hprepared hran trivial (derives _ _ _ _),
          .executed hprepared' hran' trivial hinvoked⟩
  exact (congrArg Prod.fst hran'.runIn_eq).trans (congrArg Prod.fst hran.runIn_eq).symm

/-- Whether a moment belongs to the evaluation of the expression under a root, and nothing else gets
at the memory of that expression. -/
structure Moment.IsSecluded (registry : Registry) (root : Nat) (layout : Layout) (moment : Moment) :
    Prop where
  task : moment.task.IsOf root
  laid : moment.task.IsLaidOut registry layout
  state : moment.state.Secludes registry root layout

/-- It does so until a function is run. -/
theorem Moment.IsSecluded.leadsWithin {first second : Moment}
    (h : first.IsSecluded registry root layout)
    (hleads : first.LeadsWithin registry maxDepth second) :
    second.IsSecluded registry root layout := by
  induction hleads with
  | refl => exact h
  | tail _ hnext ih =>
    obtain ⟨htask, hlaid, hstate⟩ := ih
    obtain ⟨hnext, hrun⟩ := hnext
    cases hnext with
    | items => exact ⟨htask, Layout.Covers.items hlaid, hstate⟩
    | inner => exact ⟨htask, Layout.Covers.converted hlaid, hstate⟩
    | call => exact ⟨⟨htask, rfl⟩, Layout.Covers.call hlaid, hstate⟩
    | head => exact ⟨htask, Layout.CoversEach.head hlaid, hstate⟩
    | tail head =>
      exact ⟨htask, Layout.CoversEach.tail hlaid,
        head.secludes hstate htask (Layout.CoversEach.head hlaid)⟩
    | arguments prepared =>
      have hplace := Layout.Covers.here hlaid
      obtain ⟨hfresh, -⟩ := hstate.agrees.prepared hplace prepared
      exact ⟨htask.1, Layout.Covers.arguments hlaid hfresh, hstate.of_prepare hplace prepared⟩
    | run => exact absurd trivial hrun
    | body | exchange | answer => exact htask.elim

end

/-! ## Other variables -/

namespace Evaluator

/-- The evaluator with other variables. -/
def withScope (evaluator : Evaluator) (other : Scope) : Evaluator :=
  { evaluator with context := { evaluator.context with scope := other } }

/-- The moment at which an expression is about to be evaluated. -/
def start (evaluator : Evaluator) (x : Rooted Expr) (state : State) : Moment :=
  ⟨.eval (evaluator.context.maxDepth - evaluator.context.depth) evaluator.context.scope ⟨x.root, []⟩
    x.item, state⟩

/-- Whether a variable of the context is looked up when an expression is evaluated in a state. -/
def LooksUp (evaluator : Evaluator) (x : Rooted Expr) (state : State) (name : String) : Prop :=
  (evaluator.start x state).LooksUp evaluator.registry evaluator.context.maxDepth name

/-- Whether a call in an expression, or in the arguments of its calls, comes to be executed when the
expression is evaluated; `before` is the state at that moment. -/
def Executes (evaluator : Evaluator) (x : Rooted Expr) (state : State) (place : Place)
    (site : CallSite) (before : State) : Prop :=
  (evaluator.start x state).LeadsWithin evaluator.registry evaluator.context.maxDepth
    ⟨.execute (evaluator.context.maxDepth - evaluator.context.depth) evaluator.context.scope
      site.space place site, before⟩

/-- What a call at a place in an expression hands back. -/
def executeAt (evaluator : Evaluator) (place : Place) (site : CallSite) : Run (Option Returned) :=
  (evaluator.registry.host evaluator.context).execute evaluator.context.scope site.space place site

/-- What the arguments of a call at a place in an expression come to. -/
def evalArgumentsAt (evaluator : Evaluator) (place : Place) (site : CallSite) :
    Run (List (List Value)) :=
  (evaluator.registry.host evaluator.context).evalArguments evaluator.context.scope site.space place
    site

variable {evaluator : Evaluator} {other : Scope}

/-- Variables that are not looked up make no difference, neither to the outcome nor to the state. -/
theorem runIn_eval_withScope {x : Rooted Expr} {state : State}
    (hsame : ∀ name, evaluator.LooksUp x state name →
      other.get name = evaluator.context.scope.get name) :
    ((evaluator.withScope other).eval x).runIn state = (evaluator.eval x).runIn state := by
  have hran := derives evaluator.registry evaluator.context.maxDepth
    (.eval (evaluator.context.maxDepth - evaluator.context.depth) evaluator.context.scope
      ⟨x.root, []⟩ x.item) state
  exact (hran.inScope trivial hsame).runIn_eq

end Evaluator

namespace Session

variable {session first second : Session} {x y : Rooted Expr} {evaluator : Evaluator}

theorem Isolates.isSecluded (h : first.Isolates x) (hfirst : Steady .free session first) :
    (evaluator.start x first.state).IsSecluded session.registry x.root
      (session.registry.layoutOf x) where
  task := rfl
  laid := Layout.covers_add
  state := hfirst.registry_eq ▸ h.secludes

/-- A call that is executed in two evaluations ends alike if its arguments come to the same. -/
theorem IsDeterministic.execute_alike (h : session.IsDeterministic)
    (hfirst : Steady .free session first) (hsecond : Steady .free session second)
    (hx : first.Isolates x) (hy : second.Isolates y)
    (hregistry : evaluator.registry = session.registry) {other : Scope} {site : CallSite}
    {place place' : Place} {before before' : State}
    (hexecutes : evaluator.Executes x first.state place site before)
    (hexecutes' : (evaluator.withScope other).Executes y second.state place' site before')
    (harguments : (((evaluator.withScope other).evalArgumentsAt place' site).runIn before').1 =
      ((evaluator.evalArgumentsAt place site).runIn before).1) :
    (((evaluator.withScope other).executeAt place' site).runIn before').1 =
      ((evaluator.executeAt place site).runIn before).1 := by
  obtain ⟨registry, home, context⟩ := evaluator
  obtain rfl : registry = session.registry := hregistry
  have hsecluded := (hx.isSecluded hfirst).leadsWithin hexecutes
  have hsecluded' := (hy.isSecluded hsecond).leadsWithin hexecutes'
  have hruns := (h.agreeOnRuns hfirst hsecond (@Begins.evaluate _ _ context hx.read)
    (@Begins.evaluate _ _ { context with scope := other } hy.read)).of_leadsTo hexecutes.leadsTo
    hexecutes'.leadsTo
  exact hsecluded.state.execute_alike (Layout.Covers.here hsecluded.laid) hsecluded'.state
    (Layout.Covers.here hsecluded'.laid) hruns harguments

/-- Variables that an evaluation does not look up make no difference to it. An expression that was
read is evaluated in two contexts that differ in their variables only, while the functions are the
same and deterministic. If they agree on the variables that the evaluation in the first context
looks up, it does the very same in the second one, and ends alike if it is done there at another
time. And whatever variables they have, a call in the expression ends alike in both if its
arguments come to the same. -/
theorem unread_variables_do_not_show (session : Session) (hreached : Reached .free session)
    (hdeterministic : session.IsDeterministic) (evaluator : Evaluator)
    (hregistry : evaluator.registry = session.registry) (other : Scope) (space text : String)
    (target : Ty) (x y : Rooted Expr) (first second : Session)
    (hx : session.HasRead space text target x first)
    (hy : session.HasRead space text target y second) :
    ((∀ name, evaluator.LooksUp x first.state name →
        other.get name = evaluator.context.scope.get name) →
      ((evaluator.withScope other).eval x).runIn first.state =
          (evaluator.eval x).runIn first.state ∧
        (((evaluator.withScope other).eval y).runIn second.state).1 =
          ((evaluator.eval x).runIn first.state).1) ∧
    ∀ place place' site before before',
      evaluator.Executes x first.state place site before →
      (evaluator.withScope other).Executes y second.state place' site before' →
      (((evaluator.withScope other).evalArgumentsAt place' site).runIn before').1 =
        ((evaluator.evalArgumentsAt place site).runIn before).1 →
      (((evaluator.withScope other).executeAt place' site).runIn before').1 =
        ((evaluator.executeAt place site).runIn before).1 := by
  obtain ⟨hparsed, hfirst, hisolates⟩ := hx.isolates hreached
  obtain ⟨hparsed', hsecond, hisolates'⟩ := hy.isolates hreached
  have hitem : y.item = x.item := Except.ok.inj (hparsed'.symm.trans hparsed)
  constructor
  · intro hsame
    have hrun := Evaluator.runIn_eval_withScope hsame
    have hlater := hdeterministic.eval_alike hfirst hsecond hisolates hisolates' hitem
      (evaluator.withScope other) hregistry
    rw [hrun] at hlater
    exact ⟨hrun, hlater.symm⟩
  · intro place place' site before before' hexecutes hexecutes' harguments
    exact hdeterministic.execute_alike hfirst hsecond hisolates hisolates' hregistry hexecutes
      hexecutes' harguments

/-- Variables for which the text of `indirectText` is `a`: `x1` is named by way of `i`. -/
def indirectScope : Scope := (Scope.empty.set "i" [.text "1"]).set "x1" [.text "a"]

/-- A text that refers to a variable whose name is put together from another one. -/
def indirectText : String := "\x7bx\x7bi\x7d\x7d"

theorem lookups_indirect : indirectScope.lookups indirectText.toList = ["i", "x1"] := by
  cbv

theorem interpolate_indirect : indirectScope.interpolate indirectText.toList = ['a'] := by
  cbv

/-- An evaluator with these variables. -/
def indirectEvaluator : Evaluator := ⟨nestedSession.registry, "", ⟨indirectScope, 0, 256⟩⟩

/-- Where the text is read, between quotes, `x1` and `i` are looked up, and `x2` is not. -/
theorem unread_variables_do_not_show_indirect :
    ∃ x later, nestedSession.HasRead "" "\"\x7bx\x7bi\x7d\x7d\"" .any x later ∧
      (∀ name, indirectEvaluator.LooksUp x later.state name ↔ name = "i" ∨ name = "x1") ∧
      ((indirectEvaluator.eval x).runIn later.state).1 = .ok [.text "a"] ∧
      (((indirectEvaluator.withScope (indirectScope.set "x2" [.text "b"])).eval x).runIn
        later.state).1 = .ok [.text "a"] := by
  have hparsed : (Evaluator.parse ⟨nestedSession.registry, "", .top 256⟩
      "\"\x7bx\x7bi\x7d\x7d\"" .any).runIn nestedSession.state =
        (.ok ⟨1, .template indirectText⟩, { nextRoot := 2 }) := by
    have hread : Form.read "\"\x7bx\x7bi\x7d\x7d\"".toList = .text indirectText := by
      rw [Form.read_eq]
      rfl
    rw [Evaluator.parse, Reader.parse, hread]
    rfl
  have hx : nestedSession.HasRead "" "\"\x7bx\x7bi\x7d\x7d\"" .any ⟨1, .template indirectText⟩
      { nestedSession with state := { nextRoot := 2 }, read := [⟨1, .template indirectText⟩] } :=
    ⟨nestedSession, _, _, .refl, hparsed, .refl⟩
  have hnames (name : String) (state : State) :
      indirectEvaluator.LooksUp ⟨1, .template indirectText⟩ state name ↔
        name = "i" ∨ name = "x1" := by
    have hlookups : name ∈ indirectScope.lookups indirectText.toList ↔
        name = "i" ∨ name = "x1" := by
      rw [lookups_indirect, List.mem_pair]
    refine Iff.trans (Moment.looksUp_iff_of_isLeaf ?_ name) hlookups
    trivial
  have heval : ((indirectEvaluator.eval ⟨1, .template indirectText⟩).runIn { nextRoot := 2 }).1 =
      .ok [.text "a"] := by
    rw [Evaluator.eval, Host.eval, indirectEvaluator, interpolate_indirect]
    rfl
  refine ⟨_, _, hx, fun name => hnames name _, heval, ?_⟩
  obtain ⟨hunread, -⟩ := unread_variables_do_not_show nestedSession (reached_nestedSession .free)
    isDeterministic_nestedSession indirectEvaluator rfl (indirectScope.set "x2" [.text "b"])
    _ _ _ _ _ _ _ hx hx
  obtain ⟨-, hlater⟩ := hunread fun name hname => by
    rcases (hnames name _).mp hname with rfl | rfl
    · rfl
    · rfl
  exact hlater.trans heval

end Session

end CallScript

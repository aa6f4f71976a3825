import CallScript.Proofs.Moments
import CallScript.Proofs.Twins

/-!
# Evaluating an expression again

An expression may be read and evaluated in one session, and read and evaluated again in another one,
with the same functions. Nothing but its own evaluation gets at its memory, so preparing its calls
ends alike in both (`State.Secludes`); and an evaluation depends on nothing else but the outcomes of
the functions that it has run for its calls. So the two evaluations end alike if these do
(`Derives.ends_alike`). Checks run no functions, and always end alike.

The functions of a session are *deterministic* if, from there on and while no function is
registered, running one of them on the same arguments, with as much room, ends alike at all moments
that are come to (`Session.IsDeterministic`); and they are *honest* if they return values of the
types that they declare whenever they are run at such a moment (`Session.IsHonest`). What a function
does in states that are never reached does not matter. Functions that end at once, whatever the
state, are deterministic (`Session.isDeterministic_of_endsAtOnce`).
-/

namespace CallScript

/-! ## Runs that end alike -/

/-- Whether the registered functions that two evaluations come to run on the same arguments, with as
much room, end alike. -/
def Moment.AgreeOnRuns (registry : Registry) (maxDepth : Nat) (first second : Moment) : Prop :=
  ∀ f ∈ registry.functions, ∀ room arguments called called',
    first.LeadsTo registry maxDepth ⟨.invoke room f arguments, called⟩ →
    second.LeadsTo registry maxDepth ⟨.invoke room f arguments, called'⟩ →
    ((registry.invoke maxDepth room f arguments).runIn called).1 =
      ((registry.invoke maxDepth room f arguments).runIn called').1

section

variable {registry : Registry} {maxDepth : Nat}

theorem Moment.AgreeOnRuns.of_leadsTo {first second first' second' : Moment}
    (h : first.AgreeOnRuns registry maxDepth second)
    (hfirst : first.LeadsTo registry maxDepth first')
    (hsecond : second.LeadsTo registry maxDepth second') :
    first'.AgreeOnRuns registry maxDepth second' :=
  fun f hf room arguments called called' hcalled hcalled' =>
    h f hf room arguments called called' (hfirst.trans hcalled) (hsecond.trans hcalled')

theorem Moment.AgreeOnRuns.next {first second first' second' : Moment}
    (h : first.AgreeOnRuns registry maxDepth second)
    (hfirst : Moment.Next registry maxDepth first first')
    (hsecond : Moment.Next registry maxDepth second second') :
    first'.AgreeOnRuns registry maxDepth second' := h.of_leadsTo (.single hfirst) (.single hsecond)

/-- A check runs nothing. -/
theorem Moment.AgreeOnRuns.of_isCheck {α : Type} {task : Task α} {state : State} {second : Moment}
    (h : task.IsCheck) : AgreeOnRuns registry maxDepth ⟨task, state⟩ second := by
  intro f _ room arguments called called' hcalled
  rcases hcalled.cases_head with hsame | ⟨_, hnext, -⟩
  · cases hsame
    exact h.elim
  · cases hnext <;> exact h.elim

/-- The memory of the expression under a root is its own, and the calls that are laid out there
remember nothing but what would be found now. -/
structure State.Secludes (registry : Registry) (root : Nat) (layout : Layout) (state : State) :
    Prop where
  rooted : ∀ place call, layout place = some call → place.root = root
  keeps : state.Keeps registry root
  agrees : state.AgreesWith registry layout

variable {α : Type} {task other : Task α} {state state' middle after : State}
  {outcome : Except Fault α} {root root' : Nat} {layout layout' : Layout} {space : String}
  {place place' : Place} {site : CallSite}

/-- The evaluator's way with a task can be derived. -/
theorem Task.exists_derives (h : ((task.run registry maxDepth).runIn state).1 = outcome) :
    ∃ after, Derives registry maxDepth .free task state outcome after :=
  ⟨_, h ▸ derives registry maxDepth task state⟩

theorem Task.IsOf.within (h : task.IsOf root) (known : Function → Prop) :
    task.Within known fun _ => True := by
  cases task with
  | invoke | converse => exact h.elim
  | _ => trivial

/-- An evaluation or a check of the expression leaves its memory to itself. -/
theorem Derives.secludes {law : Law} (h : Derives registry maxDepth law task state outcome after)
    (hstate : state.Secludes registry root layout) (htask : task.IsOf root)
    (hlaid : task.IsLaidOut registry layout) : after.Secludes registry root layout where
  rooted := hstate.rooted
  keeps := h.keeps hstate.keeps (htask.within _)
  agrees := (h.promised hstate.rooted hstate.keeps hstate.agrees htask hlaid).1

namespace State.Secludes

variable (hstate : state.Secludes registry root layout)
  (hplace : layout place = some (space, site))

include hstate hplace

/-- So does preparing one of its calls. -/
theorem of_prepare {found : Except Fault (Function × Bound site)}
    (h : (site.prepare registry space place).runIn state = (found, after)) :
    after.Secludes registry root layout where
  rooted := hstate.rooted
  keeps := hstate.keeps.of_prepare h
  agrees := by
    obtain ⟨-, hafter⟩ := hstate.agrees.prepare hplace
    rwa [h] at hafter

/-- A call is prepared alike in all states in which it is laid out. -/
theorem prepare_alike (hstate' : state'.Secludes registry root' layout')
    (hplace' : layout' place' = some (space, site)) {found : Except Fault (Function × Bound site)}
    (h : (site.prepare registry space place).runIn state = (found, after)) :
    ∃ after', (site.prepare registry space place').runIn state' = (found, after') := by
  obtain ⟨houtcome, -⟩ := hstate.agrees.prepare hplace
  obtain ⟨houtcome', -⟩ := hstate'.agrees.prepare hplace'
  rw [h] at houtcome
  exact ⟨((site.prepare registry space place').runIn state').2,
    Prod.ext (houtcome'.trans houtcome.symm) rfl⟩

end State.Secludes

/-- A task about an expression ends alike in two states in which the memory of the expression is its
own, if the functions end alike that are run on both sides. -/
theorem Derives.ends_alike (h : Derives registry maxDepth .free task state outcome after)
    (hstate : state.Secludes registry root layout) (htask : task.IsOf root)
    (htwin : task.Twin registry False layout layout' other)
    (hstate' : state'.Secludes registry root' layout') (hother : other.IsOf root')
    (hruns : Moment.AgreeOnRuns registry maxDepth ⟨task, state⟩ ⟨other, state'⟩) :
    ∃ after', Derives registry maxDepth .free other state' outcome after' := by
  -- On the first derivation. Both states seclude their side throughout, and the agreement on runs is
  -- handed down to each part.
  induction h generalizing state' with
  | literal =>
    obtain ⟨_, -, -, rfl⟩ := htwin
    exact ⟨_, .literal⟩
  | template =>
    obtain ⟨_, -, -, rfl⟩ := htwin
    exact ⟨_, .template⟩
  | reference =>
    obtain ⟨_, -, -, rfl⟩ := htwin
    exact ⟨_, .reference⟩
  | list _ ih =>
    obtain ⟨_, hleft, hright, rfl⟩ := htwin
    obtain ⟨after', hparts⟩ := ih hstate htask ⟨_, hleft.items, hright.items, rfl⟩ hstate' hother
      (hruns.next .items .items)
    exact ⟨after', .list hparts⟩
  | converted _ ih =>
    obtain ⟨_, hleft, hright, rfl⟩ := htwin
    obtain ⟨after', hpart⟩ := ih hstate htask ⟨_, hleft.converted, hright.converted, rfl⟩ hstate'
      hother (hruns.next .inner .inner)
    exact ⟨after', .converted hpart⟩
  | call _ ih =>
    obtain ⟨_, hleft, hright, rfl⟩ := htwin
    obtain ⟨after', hexecuted⟩ := ih hstate ⟨htask, rfl⟩ ⟨_, hleft.call, hright.call, rfl⟩ hstate'
      ⟨hother, rfl⟩ (hruns.next .call .call)
    exact ⟨after', .call hexecuted⟩
  | evalNil =>
    obtain ⟨_, -, -, rfl⟩ := htwin
    exact ⟨_, .evalNil⟩
  | evalFails _ ih =>
    obtain ⟨_, hleft, hright, rfl⟩ := htwin
    obtain ⟨after', hhead⟩ := ih hstate htask ⟨_, hleft.head, hright.head, rfl⟩ hstate' hother
      (hruns.next .head .head)
    exact ⟨after', .evalFails hhead⟩
  | evalCons head _ ih ih' =>
    obtain ⟨_, hleft, hright, rfl⟩ := htwin
    obtain ⟨middle', hhead⟩ := ih hstate htask ⟨_, hleft.head, hright.head, rfl⟩ hstate' hother
      (hruns.next .head .head)
    obtain ⟨after', hrest⟩ := ih' (head.secludes hstate htask hleft.head) htask
      ⟨_, hleft.tail, hright.tail, rfl⟩ (hhead.secludes hstate' hother hright.head) hother
      (hruns.next (.tail head) (.tail hhead))
    exact ⟨after', .evalCons hhead hrest⟩
  | unprepared prepared =>
    obtain ⟨_, hleft, hright, rfl⟩ := htwin
    obtain ⟨after', hprepared⟩ := hstate.prepare_alike hleft.here hstate' hright.here prepared
    exact ⟨after', .unprepared hprepared⟩
  | argumentFails prepared _ ih =>
    obtain ⟨_, hleft, hright, rfl⟩ := htwin
    obtain ⟨middle', hprepared⟩ := hstate.prepare_alike hleft.here hstate' hright.here prepared
    obtain ⟨hfresh, -⟩ := hstate.agrees.prepared hleft.here prepared
    obtain ⟨after', harguments⟩ := ih (hstate.of_prepare hleft.here prepared) htask.1
      ⟨_, hleft.arguments hfresh, hright.arguments hfresh, rfl⟩
      (hstate'.of_prepare hright.here hprepared) hother.1
      (hruns.next (.arguments prepared) (.arguments hprepared))
    exact ⟨after', .argumentFails hprepared harguments⟩
  | @executed room _ _ _ _ _ f bound _ values _ outcome _ prepared arguments _ invoked ih =>
    obtain ⟨_, hleft, hright, rfl⟩ := htwin
    obtain ⟨middle', hprepared⟩ := hstate.prepare_alike hleft.here hstate' hright.here prepared
    obtain ⟨hfresh, hfound⟩ := hstate.agrees.prepared hleft.here prepared
    obtain ⟨called', harguments⟩ := ih (hstate.of_prepare hleft.here prepared) htask.1
      ⟨_, hleft.arguments hfresh, hright.arguments hfresh, rfl⟩
      (hstate'.of_prepare hright.here hprepared) hother.1
      (hruns.next (.arguments prepared) (.arguments hprepared))
    -- The function is run on the same arguments.
    have hsame := hruns f (Registry.mem_of_lookup hfound) _ _ _ _
      (.single (.run prepared arguments)) (.single (.run hprepared harguments))
    obtain ⟨after', hinvoked⟩ : ∃ after', Derives registry maxDepth .free
        (.invoke room f (Bundle.ofBindings bound.1 values)) called' outcome after' :=
      Task.exists_derives (hsame.symm.trans (congrArg Prod.fst invoked.runIn_eq))
    exact ⟨after', .executed hprepared harguments trivial hinvoked⟩
  | noRoom | invoked | done | draw | unread | read | tooDeep | evaluated => exact htask.elim
  | validLiteral =>
    obtain ⟨_, -, -, rfl⟩ := htwin
    exact ⟨_, .validLiteral⟩
  | validTemplate =>
    obtain ⟨_, -, -, rfl⟩ := htwin
    exact ⟨_, .validTemplate⟩
  | validReference =>
    obtain ⟨_, -, -, rfl⟩ := htwin
    exact ⟨_, .validReference⟩
  | validNil =>
    obtain ⟨_, -, -, rfl⟩ := htwin
    exact ⟨_, .validNil⟩
  | validList _ ih =>
    obtain ⟨_, hleft, hright, rfl⟩ := htwin
    obtain ⟨after', hparts⟩ := ih hstate htask ⟨_, hleft.items, hright.items, rfl⟩ hstate' hother
      (.of_isCheck trivial)
    exact ⟨after', .validList hparts⟩
  | validConverted _ ih =>
    obtain ⟨_, hleft, hright, rfl⟩ := htwin
    obtain ⟨after', hpart⟩ := ih hstate htask ⟨_, hleft.converted, hright.converted, rfl⟩ hstate'
      hother (.of_isCheck trivial)
    exact ⟨after', .validConverted hpart⟩
  | invalidCall prepared =>
    obtain ⟨_, hleft, hright, rfl⟩ := htwin
    obtain ⟨after', hprepared⟩ :=
      hstate.prepare_alike hleft.call.here hstate' hright.call.here prepared
    exact ⟨after', .invalidCall hprepared⟩
  | validCall prepared _ ih =>
    obtain ⟨_, hleft, hright, rfl⟩ := htwin
    obtain ⟨middle', hprepared⟩ :=
      hstate.prepare_alike hleft.call.here hstate' hright.call.here prepared
    obtain ⟨hfresh, -⟩ := hstate.agrees.prepared hleft.call.here prepared
    obtain ⟨after', harguments⟩ := ih (hstate.of_prepare hleft.call.here prepared) htask
      ⟨_, hleft.call.arguments hfresh, hright.call.arguments hfresh, rfl⟩
      (hstate'.of_prepare hright.call.here hprepared) hother (.of_isCheck trivial)
    exact ⟨after', .validCall hprepared harguments⟩
  | validFails _ ih =>
    obtain ⟨_, hleft, hright, rfl⟩ := htwin
    obtain ⟨after', hhead⟩ := ih hstate htask ⟨_, hleft.head, hright.head, rfl⟩ hstate' hother
      (.of_isCheck trivial)
    exact ⟨after', .validFails hhead⟩
  | validCons head _ ih ih' =>
    obtain ⟨_, hleft, hright, rfl⟩ := htwin
    obtain ⟨middle', hhead⟩ := ih hstate htask ⟨_, hleft.head, hright.head, rfl⟩ hstate' hother
      (.of_isCheck trivial)
    obtain ⟨after', hrest⟩ := ih' (head.secludes hstate htask hleft.head) htask
      ⟨_, hleft.tail, hright.tail, rfl⟩ (hhead.secludes hstate' hother hright.head) hother
      (.of_isCheck trivial)
    exact ⟨after', .validCons hhead hrest⟩

end

/-! ## Deterministic sessions -/

/-- Whether what a function ends with follows from its arguments and context at once: its body asks
for nothing. -/
def Function.EndsAtOnce (f : Function) : Prop :=
  ∀ arguments context, ∃ result, f.body arguments context = .done result

theorem Function.endsAtOnce_ofPure (signature : Signature)
    (run : Bundle → Except RunError (List Value)) : (ofPure signature run).EndsAtOnce :=
  fun arguments _ => ⟨(run arguments).mapError .run, rfl⟩

/-- Such a function ends alike in all states. -/
theorem Function.EndsAtOnce.runIn_eq {f : Function} (h : f.EndsAtOnce) (registry : Registry)
    (maxDepth room : Nat) (arguments : Bundle) (state state' : State) :
    ((registry.invoke maxDepth room f arguments).runIn state).1 =
      ((registry.invoke maxDepth room f arguments).runIn state').1 := by
  obtain ⟨outcome, hran⟩ : ∃ outcome, ∀ state, ∃ after,
      Derives registry maxDepth .free (.invoke room f arguments) state outcome after := by
    cases room with
    | zero => exact ⟨_, fun state => ⟨state, .noRoom⟩⟩
    | succ room =>
      obtain ⟨result, hbody⟩ := h arguments ⟨Scope.empty, maxDepth - room, maxDepth⟩
      exact ⟨result.mapError Fault.ofBody, fun state =>
        ⟨_, .invoked (by rw [hbody]; exact .done) fun _ _ => trivial⟩⟩
  obtain ⟨_, hfirst⟩ := hran state
  obtain ⟨_, hsecond⟩ := hran state'
  exact (congrArg Prod.fst hfirst.runIn_eq).trans (congrArg Prod.fst hsecond.runIn_eq).symm

namespace Session

/-- Whether running a registered function on the same arguments, with as much room, ends alike at
all moments that are come to from now on, while no function is registered. -/
def IsDeterministic (session : Session) : Prop :=
  ∀ f ∈ session.registry.functions, ∀ first second,
    Steady .free session first → Steady .free session second →
    ∀ maxDepth room arguments called called',
      first.ComesTo maxDepth ⟨.invoke room f arguments, called⟩ →
      second.ComesTo maxDepth ⟨.invoke room f arguments, called'⟩ →
      ((session.registry.invoke maxDepth room f arguments).runIn called).1 =
        ((session.registry.invoke maxDepth room f arguments).runIn called').1

/-- Whether the registered functions return values of the types that they declare, whenever they are
run from now on, while no function is registered. -/
def IsHonest (session : Session) : Prop :=
  ∀ f ∈ session.registry.functions, ∀ later, Steady .free session later →
    ∀ maxDepth room arguments called values,
      later.ComesTo maxDepth ⟨.invoke room f arguments, called⟩ →
      ((session.registry.invoke maxDepth room f arguments).runIn called).1 = .ok values →
      Law.honest.returns f values

theorem isDeterministic_of_endsAtOnce {session : Session}
    (h : ∀ f ∈ session.registry.functions, f.EndsAtOnce) : session.IsDeterministic :=
  fun f hf _ _ _ _ maxDepth room arguments called called' _ _ =>
    (h f hf).runIn_eq session.registry maxDepth room arguments called called'

section

variable {x y : Rooted Expr} {session first second : Session}

theorem Isolates.secludes (h : session.Isolates x) :
    session.state.Secludes session.registry x.root (session.registry.layoutOf x) where
  rooted _ _ := Registry.root_of_layoutOf
  keeps := h.keeps
  agrees := h.agrees

theorem Steady.registry_eq {law : Law} (h : Steady law session first) :
    first.registry = session.registry := by
  induction h with
  | refl => rfl
  | tail _ hstep ih => exact hstep.2.trans ih

theorem Reached.steady {law : Law} (h : Reached law session) (hsteady : Steady law session first) :
    Reached law first := by
  induction hsteady with
  | refl => exact h
  | tail _ hstep ih => exact ih.tail hstep.1

/-- Whether an expression was read from a text, where a value of a type is wanted, at some time
between two sessions while no function was registered. -/
def HasRead (session : Session) (space text : String) (target : Ty) (x : Rooted Expr)
    (later : Session) : Prop :=
  ∃ first context after, Steady .free session first ∧
    (Evaluator.parse ⟨session.registry, space, context⟩ text target).runIn first.state =
      (.ok x, after) ∧
    Steady .free { first with state := after, read := x :: first.read } later

/-- Nothing but its own evaluation gets at the memory of an expression that was read. -/
theorem HasRead.isolates {space text : String} {target : Ty}
    (h : session.HasRead space text target x second) (hreached : Reached .free session) :
    (session.registry.reader space).parse text target = .ok x.item ∧
      Steady .free session second ∧ second.Isolates x := by
  obtain ⟨first, context, after, hfirst, hparsed, hsecond⟩ := h
  obtain ⟨hparse, hroot, rfl⟩ := of_runIn_parse hparsed
  obtain ⟨root, e⟩ := x
  obtain rfl : root = first.state.nextRoot := hroot
  refine ⟨hparse, ?_, ((Isolates.start (hreached.steady hfirst).isRooted).steady hsecond).1⟩
  rw [← hfirst.registry_eq] at hparsed
  exact (hfirst.tail ⟨.parse hparsed, rfl⟩).trans hsecond

/-- Evaluations that are begun from now on agree on what they run. -/
theorem IsDeterministic.agreeOnRuns (h : session.IsDeterministic)
    (hfirst : Steady .free session first) (hsecond : Steady .free session second) {maxDepth : Nat}
    {start start' : Moment}
    (hstart : first.Begins maxDepth start) (hstart' : second.Begins maxDepth start') :
    start.AgreeOnRuns session.registry maxDepth start' := by
  intro f hf room arguments called called' hcalled hcalled'
  refine h f hf first second hfirst hsecond maxDepth room arguments called called'
    ⟨start, hstart, ?_⟩ ⟨start', hstart', ?_⟩
  · rwa [hfirst.registry_eq]
  · rwa [hsecond.registry_eq]

/-- Two readings of one expression are evaluated alike, whenever they are evaluated. -/
theorem IsDeterministic.eval_alike (h : session.IsDeterministic)
    (hfirst : Steady .free session first) (hsecond : Steady .free session second)
    (hx : first.Isolates x) (hy : second.Isolates y) (hitem : y.item = x.item)
    (evaluator : Evaluator) (hregistry : evaluator.registry = session.registry) :
    ((evaluator.eval x).runIn first.state).1 = ((evaluator.eval y).runIn second.state).1 := by
  have hstate := hx.secludes
  have hstate' := hy.secludes
  rw [hfirst.registry_eq] at hstate
  rw [hsecond.registry_eq] at hstate'
  have hran := derives session.registry evaluator.context.maxDepth
    (.eval (evaluator.context.maxDepth - evaluator.context.depth) evaluator.context.scope
      ⟨x.root, []⟩ x.item) first.state
  have hruns := h.agreeOnRuns hfirst hsecond (@Begins.evaluate _ _ evaluator.context hx.read)
    (@Begins.evaluate _ _ evaluator.context hy.read)
  obtain ⟨after, hran'⟩ := hran.ends_alike hstate rfl ⟨⟨y.root, []⟩, Layout.covers_add,
    hitem ▸ Layout.covers_add, rfl⟩ hstate' rfl (hitem ▸ hruns)
  rw [eval_eq_run, eval_eq_run, hregistry, hitem, hran'.runIn_eq]

/-- Two readings of one expression are checked alike, whenever they are checked. -/
theorem Isolates.validate_alike (hx : first.Isolates x) (hy : second.Isolates y)
    (hitem : y.item = x.item) (hsame : second.registry = first.registry) (evaluator : Evaluator)
    (hregistry : evaluator.registry = first.registry) :
    ((evaluator.validate x).runIn first.state).1 =
      ((evaluator.validate y).runIn second.state).1 := by
  have hstate' := hy.secludes
  rw [hsame] at hstate'
  have hran := derives first.registry 0 (.validate ⟨x.root, []⟩ x.item) first.state
  obtain ⟨after, hran'⟩ := hran.ends_alike hx.secludes rfl ⟨⟨y.root, []⟩, Layout.covers_add,
    hitem ▸ Layout.covers_add, rfl⟩ hstate' rfl (.of_isCheck trivial)
  rw [validate_eq_run _ _ 0, validate_eq_run _ _ 0, hregistry, hitem, hran'.runIn_eq]

end

theorem functions_nestedSession :
    nestedSession.registry.functions = [.constant "g" (.boolean true), .sink "f"] := rfl

/-- Both functions of this session end at once. -/
theorem isDeterministic_nestedSession : nestedSession.IsDeterministic := by
  apply isDeterministic_of_endsAtOnce
  rw [functions_nestedSession]
  intro f hf
  rcases List.mem_pair.mp hf with rfl | rfl
  · exact fun _ _ => ⟨_, rfl⟩
  · exact fun _ _ => ⟨_, rfl⟩

/-- How `g()` is read where every value is welcome. -/
theorem parse_plainCall : (nestedSession.registry.reader "").parse "g()" .any =
    .ok (.call ⟨"", "g", []⟩ .boolean true) := by
  rw [Reader.parse, Form.read_nested]
  rfl

/-- It ends with the truth value that `g` returns. -/
theorem runIn_eval_plainCall {root : Nat} {state : State}
    (hunused : state.pins.get ⟨root, []⟩ = {}) :
    ((Evaluator.eval ⟨nestedSession.registry, "", .top 256⟩
      ⟨root, .call ⟨"", "g", []⟩ .boolean true⟩).runIn state).1 = .ok [.boolean true] := by
  obtain ⟨after, hran, -⟩ := @exists_derives_constant nestedSession.registry 256 255 .free
    Scope.empty ⟨root, []⟩ state (.boolean true) hunused rfl trivial fun _ => trivial
  have hcall := @Derives.call _ _ _ _ _ _ ⟨"", "g", []⟩ .boolean true _ _ _ hran
  exact congrArg Prod.fst hcall.runIn_eq

end Session

end CallScript

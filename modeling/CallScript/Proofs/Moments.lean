import CallScript.Proofs.RecursionLimit
import CallScript.Proofs.StaticTypes

/-!
# What an evaluation comes to

A derivation says how a task ends, not what happens before. What happens is a sequence of
*moments*, at each of which some task is about to be done in some state. `Moment.Next` has a rule
for each way in which an evaluation gets from one moment to another: into a part, into the next part
after the ones before it have succeeded, into a function, into its body, on in the dialogue with it,
and into an expression that it has evaluated.

What holds of every run of a function is stated at the moments at which one is about to be run. None
of them is missed: each run that an evaluation adds to the history is begun at a moment that the
evaluation comes to, in a state whose history is what is noted before that run
(`Derives.exists_moment`, `Session.Reached.exists_moment`).

Moments know of no law. But an evaluation that keeps to a law does so wherever it is: what is about
to be done at a moment that it comes to keeps to the law as well (`Moment.LeadsTo.keepsTo`). And at
every moment the state and the task are typed (`Moment.Next.isTyped`), so that the bindings of a call
that is executed fit the function that it has found.
-/

namespace CallScript

/-! ## Moments -/

/-- A task that is about to be done, and the state it is begun in. -/
structure Moment where
  {α : Type}
  task : Task α
  state : State

/-- How an evaluation gets from one moment to another. -/
inductive Moment.Next (registry : Registry) (maxDepth : Nat) : Moment → Moment → Prop where
  | items {room scope place items ty state} :
      Next registry maxDepth ⟨.eval room scope place (.list items ty), state⟩
        ⟨.evalEach room scope place 0 items, state⟩
  | inner {room scope place inner target state} :
      Next registry maxDepth ⟨.eval room scope place (.converted inner target), state⟩
        ⟨.eval room scope place inner, state⟩
  | call {room scope place site ty single state} :
      Next registry maxDepth ⟨.eval room scope place (.call site ty single), state⟩
        ⟨.execute room scope site.space place site, state⟩
  | head {room scope place index item items state} :
      Next registry maxDepth ⟨.evalEach room scope place index (item :: items), state⟩
        ⟨.eval room scope (place.child index) item, state⟩
  | tail {room scope place index item items state values middle}
      (head : Derives registry maxDepth .free (.eval room scope (place.child index) item) state
        (.ok values) middle) :
      Next registry maxDepth ⟨.evalEach room scope place index (item :: items), state⟩
        ⟨.evalEach room scope place (index + 1) items, middle⟩
  | arguments {room scope space place site state f} {bound : Bound site} {middle}
      (prepared : (site.prepare registry space place).runIn state = (.ok (f, bound), middle)) :
      Next registry maxDepth ⟨.execute room scope space place site, state⟩
        ⟨.evalEach room scope place 0 (bound.1.map Binding.expr), middle⟩
  | run {room scope space place site state f} {bound : Bound site} {middle values called}
      (prepared : (site.prepare registry space place).runIn state = (.ok (f, bound), middle))
      (arguments : Derives registry maxDepth .free
        (.evalEach room scope place 0 (bound.1.map Binding.expr)) middle (.ok values) called) :
      Next registry maxDepth ⟨.execute room scope space place site, state⟩
        ⟨.invoke room f (Bundle.ofBindings bound.1 values), called⟩
  | body {room f arguments state} :
      Next registry maxDepth ⟨.invoke (room + 1) f arguments, state⟩
        ⟨.converse room (f.body arguments ⟨Scope.empty, maxDepth - room, maxDepth⟩) f.shared,
          { state with history := ⟨f, arguments, maxDepth - room⟩ :: state.history }⟩
  | exchange {room n m} {body : Body n} {later : Body m} {exprs exprs' state after}
      (step : Exchange.Step registry maxDepth room ⟨n, body, exprs, state⟩
        ⟨m, later, exprs', after⟩) :
      Next registry maxDepth ⟨.converse room body exprs, state⟩
        ⟨.converse room later exprs', after⟩
  | answer {room n} {frame : Frame} {index : Nat} {next : Except Error (List Value) → Body n}
      {exprs : Vector (Rooted Expr) n} {state} (bound : index < n) (enough : frame.below ≤ room) :
      Next registry maxDepth ⟨.converse room (.evaluate frame ⟨index, bound⟩ next) exprs, state⟩
        ⟨.eval (room - frame.below) frame.scope ⟨exprs[index].root, []⟩ exprs[index].item, state⟩

/-- Whether an evaluation that is at one moment comes to another. -/
def Moment.LeadsTo (registry : Registry) (maxDepth : Nat) : Moment → Moment → Prop :=
  Relation.ReflTransGen (Moment.Next registry maxDepth)

/-- How an evaluation gets to the run of a function: a call was prepared, and its arguments were
evaluated. -/
def Moment.IsRunFrom (registry : Registry) (maxDepth : Nat) (before : Moment) : Moment → Prop
  | ⟨.invoke room f arguments, called⟩ =>
    ∃ (scope : Scope) (space : String) (place : Place) (site : CallSite) (state : State)
      (bound : Bound site) (middle : State) (values : List (List Value)),
      before = ⟨.execute room scope space place site, state⟩ ∧
      (site.prepare registry space place).runIn state = (.ok (f, bound), middle) ∧
      Derives registry maxDepth .free
        (.evalEach room scope place 0 (bound.1.map Binding.expr)) middle (.ok values) called ∧
      arguments = Bundle.ofBindings bound.1 values
  | _ => True

theorem Moment.Next.isRunFrom {registry : Registry} {maxDepth : Nat} {before after : Moment}
    (h : Moment.Next registry maxDepth before after) :
    before.IsRunFrom registry maxDepth after := by
  cases h with
  | run prepared arguments => exact ⟨_, _, _, _, _, _, _, _, rfl, prepared, arguments, rfl⟩
  | _ => trivial

/-! ## Moments are typed -/

/-- What is known of types at a moment. -/
structure Moment.IsTyped (registry : Registry) (moment : Moment) : Prop where
  state : moment.state.IsTyped registry
  task : moment.task.IsTyped

theorem Moment.Next.isTyped {registry : Registry} {maxDepth : Nat} {first second : Moment}
    (h : Moment.Next registry maxDepth first second) (hfirst : first.IsTyped registry) :
    second.IsTyped registry := by
  obtain ⟨hstate, htask⟩ := hfirst
  cases h with
  | items => cases htask with | list parts => exact ⟨hstate, parts⟩
  | inner => cases htask with | converted part => exact ⟨hstate, part⟩
  | call => exact ⟨hstate, trivial⟩
  | head => exact ⟨hstate, htask _ (List.mem_cons_self ..)⟩
  | tail head =>
    obtain ⟨hmiddle, -⟩ := head.isTyped hstate (htask _ (List.mem_cons_self ..))
    exact ⟨hmiddle, fun item hitem => htask item (List.mem_cons_of_mem _ hitem)⟩
  | arguments prepared =>
    exact ⟨hstate.of_runIn_prepare prepared, isTyped_of_fits (hstate.fits_of_prepare prepared)⟩
  | run prepared arguments =>
    obtain ⟨hcalled, -⟩ := arguments.isTyped (hstate.of_runIn_prepare prepared)
      (isTyped_of_fits (hstate.fits_of_prepare prepared))
    exact ⟨hcalled, known_of_prepare hstate.registered hstate.recalled prepared⟩
  | body => exact ⟨hstate.of_eq rfl, htask⟩
  | exchange step =>
    cases step with
    | draw => exact ⟨hstate.of_eq rfl, htask⟩
    | unread | tooDeep => exact ⟨hstate, htask⟩
    | read accepted => exact ⟨hstate.of_eq rfl, Reader.isTyped_push accepted htask⟩
    | evaluated _ answered =>
      exact ⟨(answered.isTyped hstate (htask _ (Vector.getElem_mem _))).1, htask⟩
  | answer => exact ⟨hstate, htask _ (Vector.getElem_mem _)⟩

/-! ## Moments of an evaluation that keeps to a law -/

/-- Whether what is about to be done keeps to a law. -/
def Moment.KeepsTo (registry : Registry) (maxDepth : Nat) (law : Law) (moment : Moment) : Prop :=
  ∃ outcome after, Derives registry maxDepth law moment.task moment.state outcome after

/-- What comes next is a part of what was about to be done, so it keeps to the law as well. -/
theorem Moment.Next.keepsTo {registry : Registry} {maxDepth : Nat} {law : Law}
    {first second : Moment} (h : Moment.Next registry maxDepth first second)
    (hfirst : first.KeepsTo registry maxDepth law) : second.KeepsTo registry maxDepth law := by
  obtain ⟨outcome, after, hran⟩ := hfirst
  cases h with
  | items | inner | call =>
    obtain ⟨_, hpart, -⟩ := hran.isEvaluated
    exact ⟨_, _, hpart⟩
  | head =>
    obtain ⟨_, hhead, -⟩ | ⟨_, _, _, hhead, -⟩ := hran.isEvaluated <;> exact ⟨_, _, hhead⟩
  | tail head =>
    obtain ⟨_, hhead, -⟩ | ⟨_, _, _, hhead, hrest, -⟩ := hran.isEvaluated
    · obtain ⟨hfails, -⟩ := hhead.free.unique head
      cases hfails
    · obtain ⟨-, rfl⟩ := hhead.free.unique head
      exact ⟨_, _, hrest⟩
  | arguments prepared =>
    obtain ⟨_, hfails, -⟩ | ⟨_, _, _, hprepared, hrun⟩ := hran.isDerived
    · cases prepared.symm.trans hfails
    · cases prepared.symm.trans hprepared
      obtain ⟨_, harguments, -⟩ | ⟨_, _, _, harguments, -⟩ := hrun <;> exact ⟨_, _, harguments⟩
  | run prepared arguments =>
    obtain ⟨_, hfails, -⟩ | ⟨_, _, _, hprepared, hrun⟩ := hran.isDerived
    · cases prepared.symm.trans hfails
    · cases prepared.symm.trans hprepared
      obtain ⟨_, hfails, -⟩ | ⟨_, _, _, harguments, -, hinvoked, -⟩ := hrun
      · obtain ⟨hfails, -⟩ := hfails.free.unique arguments
        cases hfails
      · obtain ⟨hvalues, rfl⟩ := harguments.free.unique arguments
        cases hvalues
        exact ⟨_, _, hinvoked⟩
  | body => exact ⟨_, _, hran.isDerived⟩
  | exchange step =>
    have hrest := hran.goesOn
    cases step with
    | draw => exact ⟨_, _, hrest⟩
    | unread refused =>
      obtain ⟨_, refused', hrest⟩ | ⟨_, accepted, -⟩ := hrest
      · cases refused.symm.trans refused'
        exact ⟨_, _, hrest⟩
      · cases refused.symm.trans accepted
    | read accepted =>
      obtain ⟨_, refused, -⟩ | ⟨_, accepted', hrest⟩ := hrest
      · cases accepted.symm.trans refused
      · cases accepted.symm.trans accepted'
        exact ⟨_, _, hrest⟩
    | tooDeep deep =>
      obtain ⟨-, hrest⟩ | ⟨_, _, enough, -⟩ := hrest
      · exact ⟨_, _, hrest⟩
      · exact absurd enough (Nat.not_le_of_lt deep)
    | evaluated enough answered =>
      obtain ⟨deep, -⟩ | ⟨_, _, -, hanswered, hrest⟩ := hrest
      · exact absurd enough (Nat.not_le_of_lt deep)
      · obtain ⟨rfl, rfl⟩ := hanswered.free.unique answered
        exact ⟨_, _, hrest⟩
  | answer _ enough =>
    obtain ⟨deep, -⟩ | ⟨_, _, -, hanswered, -⟩ := hran.goesOn
    · exact absurd enough (Nat.not_le_of_lt deep)
    · exact ⟨_, _, hanswered⟩

theorem Moment.LeadsTo.keepsTo {registry : Registry} {maxDepth : Nat} {law : Law}
    {first second : Moment} (h : first.LeadsTo registry maxDepth second)
    (hfirst : first.KeepsTo registry maxDepth law) : second.KeepsTo registry maxDepth law := by
  induction h with
  | refl => exact hfirst
  | tail _ hnext ih => exact hnext.keepsTo ih

/-! ## Every run is begun at some moment -/

section

variable {registry : Registry} {maxDepth : Nat} {α : Type} {task : Task α} {state after : State}
  {outcome : Except Fault α}

/-- A run in a history is noted by some time in the middle, or after it. -/
theorem suffix_or_suffix_of_run {run : Invocation} {earlier middle later : List Invocation}
    (h : run :: earlier <:+ later) (hmiddle : middle <:+ later) :
    run :: earlier <:+ middle ∨ middle <:+ earlier := by
  rcases List.suffix_or_suffix_of_suffix h hmiddle with hin | hin
  · exact .inl hin
  · rcases List.suffix_cons_iff.mp hin with rfl | hin
    · exact .inl (List.suffix_refl _)
    · exact .inr hin

theorem not_suffix_of_suffix {run : Invocation} {earlier later : List Invocation}
    (h : run :: earlier <:+ later) : ¬later <:+ earlier := fun hlater => by
  have hlength := (h.trans hlater).length_le
  rw [List.length_cons] at hlength
  omega

theorem State.history_drawn (state : State) (least greatest : Int) :
    (state.drawn least greatest).2.history = state.history := by
  obtain ⟨random, hdrawn⟩ := state.exists_random_of_drawn least greatest
  rw [hdrawn]

/-- Whether a task comes to the moment at which a run is begun, before which `earlier` is noted. -/
def Task.ComesToRun (registry : Registry) (maxDepth : Nat) (task : Task α) (state : State)
    (run : Invocation) (earlier : List Invocation) : Prop :=
  ∃ room called, Moment.LeadsTo registry maxDepth ⟨task, state⟩
      ⟨.invoke (room + 1) run.function run.arguments, called⟩ ∧
    called.history = earlier ∧ run.depth = maxDepth - room

theorem Task.ComesToRun.of_next {β : Type} {other : Task β} {run : Invocation}
    {earlier : List Invocation} (h : task.ComesToRun registry maxDepth after run earlier)
    (hnext : Moment.Next registry maxDepth ⟨other, state⟩ ⟨task, after⟩) :
    other.ComesToRun registry maxDepth state run earlier := by
  obtain ⟨room, called, hleads, hrest⟩ := h
  exact ⟨room, called, .head hnext hleads, hrest⟩

/-- A run that a task brings about is begun at a moment that the task comes to. -/
theorem Derives.exists_moment (h : Derives registry maxDepth .free task state outcome after)
    {run : Invocation} {earlier : List Invocation} (hrun : run :: earlier <:+ after.history)
    (hlater : state.history <:+ earlier) :
    task.ComesToRun registry maxDepth state run earlier := by
  induction h with
  | literal | template | reference | evalNil | noRoom | done =>
    exact absurd hlater (not_suffix_of_suffix hrun)
  | validLiteral | validTemplate | validReference | validNil =>
    exact absurd hlater (not_suffix_of_suffix hrun)
  | list _ ih => exact (ih hrun hlater).of_next .items
  | converted _ ih => exact (ih hrun hlater).of_next .inner
  | call _ ih => exact (ih hrun hlater).of_next .call
  | evalFails _ ih => exact (ih hrun hlater).of_next .head
  | evalCons head rest ih ih' =>
    rcases suffix_or_suffix_of_run hrun rest.extends.history with hfirst | hrest
    · exact (ih hfirst hlater).of_next .head
    · exact (ih' hrun hrest).of_next (.tail head)
  | unprepared prepared =>
    rw [history_of_prepare prepared] at hrun
    exact absurd hlater (not_suffix_of_suffix hrun)
  | argumentFails prepared _ ih =>
    rw [← history_of_prepare prepared] at hlater
    exact (ih hrun hlater).of_next (.arguments prepared)
  | executed prepared arguments _ invoked ih ih' =>
    rw [← history_of_prepare prepared] at hlater
    rcases suffix_or_suffix_of_run hrun invoked.extends.history with hfirst | hrest
    · exact (ih hfirst hlater).of_next (.arguments prepared)
    · exact (ih' hrun hrest).of_next (.run prepared arguments)
  | invoked body _ ih =>
    -- The run itself is noted first, and then those that its body brings about.
    rcases suffix_or_suffix_of_run hrun body.extends.history with hfirst | hrest
    · rcases List.suffix_cons_iff.mp hfirst with hsame | hin
      · cases hsame
        exact ⟨_, _, .refl, rfl, rfl⟩
      · exact absurd hlater (not_suffix_of_suffix hin)
    · exact (ih hrun hrest).of_next .body
  | @draw _ _ least greatest state _ _ _ _ _ ih =>
    rw [← state.history_drawn least greatest] at hlater
    exact (ih hrun hlater).of_next (.exchange .draw)
  | unread refused _ ih => exact (ih hrun hlater).of_next (.exchange (.unread refused))
  | read accepted _ ih => exact (ih hrun hlater).of_next (.exchange (.read accepted))
  | tooDeep deep _ ih => exact (ih hrun hlater).of_next (.exchange (.tooDeep deep))
  | evaluated enough answered rest ih ih' =>
    rcases suffix_or_suffix_of_run hrun rest.extends.history with hfirst | hrest
    · exact (ih hfirst hlater).of_next (.answer (Fin.isLt _) enough)
    · exact (ih' hrun hrest).of_next (.exchange (.evaluated enough answered))
  | validList parts =>
    rw [parts.history_eq trivial] at hrun
    exact absurd hlater (not_suffix_of_suffix hrun)
  | validConverted part =>
    rw [part.history_eq trivial] at hrun
    exact absurd hlater (not_suffix_of_suffix hrun)
  | invalidCall prepared =>
    rw [history_of_prepare prepared] at hrun
    exact absurd hlater (not_suffix_of_suffix hrun)
  | validCall prepared arguments =>
    rw [arguments.history_eq trivial, history_of_prepare prepared] at hrun
    exact absurd hlater (not_suffix_of_suffix hrun)
  | validFails head =>
    rw [head.history_eq trivial] at hrun
    exact absurd hlater (not_suffix_of_suffix hrun)
  | validCons head rest =>
    rw [rest.history_eq trivial, head.history_eq trivial] at hrun
    exact absurd hlater (not_suffix_of_suffix hrun)

/-- The parts of an expression that were evaluated: where and when each of them was. -/
theorem Derives.exists_eval {room : Nat} {scope : Scope} {place : Place} {index : Nat}
    {items : List Expr} {values : List (List Value)}
    (h : Derives registry maxDepth .free (.evalEach room scope place index items) state
      (.ok values) after) :
    values.length = items.length ∧ ∀ (i : Nat) (e : Expr), items[i]? = some e →
      ∃ vs before later, values[i]? = some vs ∧
        Moment.LeadsTo registry maxDepth ⟨.evalEach room scope place index items, state⟩
          ⟨.eval room scope (place.child (index + i)) e, before⟩ ∧
        Derives registry maxDepth .free (.eval room scope (place.child (index + i)) e) before
          (.ok vs) later := by
  induction items generalizing index state values with
  | nil =>
    obtain ⟨hvalues, -⟩ := h.isEvaluated
    cases hvalues
    exact ⟨rfl, fun i e he => by simp at he⟩
  | cons item items ih =>
    obtain ⟨fault, -, hfails⟩ | ⟨vs, middle, rest, hfirst, hrest, hvalues⟩ := h.isEvaluated
    · cases hfails
    · obtain ⟨others, rfl, rfl⟩ := exists_of_map_eq_ok hvalues.symm
      obtain ⟨hlength, hothers⟩ := ih hrest
      refine ⟨by rw [List.length_cons, List.length_cons, hlength], ?_⟩
      intro i e he
      cases i with
      | zero =>
        cases he
        exact ⟨vs, state, middle, rfl, .single .head, hfirst⟩
      | succ i =>
        obtain ⟨ws, before, later, hws, hleads, hran⟩ := hothers i e he
        rw [Nat.add_right_comm] at hleads hran
        exact ⟨ws, before, later, hws, .head (.tail hfirst) hleads, hran⟩

end

/-! ## The moments of a session -/

/-- Whether a function is about to be run. -/
def Moment.IsRun : Moment → Prop
  | ⟨.invoke _ _ _, _⟩ => True
  | _ => False

namespace Session

/-- What a session may begin, with a limit on the depth. -/
inductive Begins (session : Session) : Nat → Moment → Prop where
  | execute {site space} {context : Context} (known : site ∈ session.sites) :
      Begins session context.maxDepth
        ⟨.execute (context.maxDepth - context.depth) context.scope space ⟨site.root, []⟩ site.item,
          session.state⟩
  | evaluate {x} {context : Context} (known : x ∈ session.read) :
      Begins session context.maxDepth
        ⟨.eval (context.maxDepth - context.depth) context.scope ⟨x.root, []⟩ x.item, session.state⟩

/-- Whether something that a session may begin comes to a moment. -/
def ComesTo (session : Session) (maxDepth : Nat) (moment : Moment) : Prop :=
  ∃ start, session.Begins maxDepth start ∧
    Moment.LeadsTo session.registry maxDepth start moment

/-- Whether a session comes to the moment at which a run is begun, before which `earlier` is
noted. -/
def ComesToRun (session : Session) (run : Invocation) (earlier : List Invocation) : Prop :=
  ∃ maxDepth room called,
    session.ComesTo maxDepth ⟨.invoke (room + 1) run.function run.arguments, called⟩ ∧
    called.history = earlier ∧ run.depth = maxDepth - room

variable {session : Session} {maxDepth : Nat}

theorem Begins.not_isRun {start : Moment} (h : session.Begins maxDepth start) : ¬start.IsRun := by
  cases h <;> exact id

/-- Whether a session comes to a moment in the course of something that keeps to a law. -/
def ComesToUnder (law : Law) (session : Session) (maxDepth : Nat) (moment : Moment) : Prop :=
  ∃ start, session.Begins maxDepth start ∧ start.KeepsTo session.registry maxDepth law ∧
    Moment.LeadsTo session.registry maxDepth start moment

variable {law : Law} {moment : Moment}

theorem ComesToUnder.comesTo (h : session.ComesToUnder law maxDepth moment) :
    session.ComesTo maxDepth moment := by
  obtain ⟨start, hbegins, -, hleads⟩ := h
  exact ⟨start, hbegins, hleads⟩

theorem ComesToUnder.keepsTo (h : session.ComesToUnder law maxDepth moment) :
    moment.KeepsTo session.registry maxDepth law := by
  obtain ⟨start, -, hkeeps, hleads⟩ := h
  exact Moment.LeadsTo.keepsTo hleads hkeeps

/-- Everything keeps to the law that asks for nothing. -/
theorem ComesTo.under_free (h : session.ComesTo maxDepth moment) :
    session.ComesToUnder .free maxDepth moment := by
  obtain ⟨start, hbegins, hleads⟩ := h
  exact ⟨start, hbegins, ⟨_, _, derives session.registry maxDepth start.task start.state⟩, hleads⟩

/-- Where a function is about to be run, a call was executed before: it was prepared, and its
arguments were evaluated. -/
theorem ComesToUnder.exists_execute {room : Nat} {f : Function} {arguments : Bundle}
    {called : State}
    (h : session.ComesToUnder law maxDepth ⟨.invoke room f arguments, called⟩) :
    ∃ (scope : Scope) (space : String) (place : Place) (site : CallSite) (state : State)
      (bound : Bound site) (middle : State) (values : List (List Value)),
      session.ComesToUnder law maxDepth ⟨.execute room scope space place site, state⟩ ∧
      (site.prepare session.registry space place).runIn state = (.ok (f, bound), middle) ∧
      Derives session.registry maxDepth .free
        (.evalEach room scope place 0 (bound.1.map Binding.expr)) middle (.ok values) called ∧
      arguments = Bundle.ofBindings bound.1 values := by
  obtain ⟨start, hbegins, hkeeps, hleads⟩ := h
  rcases hleads.cases_tail with rfl | ⟨before, hbefore, hnext⟩
  · exact absurd trivial hbegins.not_isRun
  · obtain ⟨scope, space, place, site, state, bound, middle, values, rfl, hrest⟩ := hnext.isRunFrom
    exact ⟨scope, space, place, site, state, bound, middle, values,
      ⟨start, hbegins, hkeeps, hbefore⟩, hrest⟩

theorem Begins.isTyped {start : Moment} (h : session.Begins maxDepth start)
    (hsession : session.IsTyped) : start.IsTyped session.registry := by
  cases h with
  | execute => exact ⟨hsession.state, trivial⟩
  | evaluate known => exact ⟨hsession.state, hsession.read _ known⟩

theorem ComesTo.isTyped (h : session.ComesTo maxDepth moment)
    (hreached : Reached law session) : moment.IsTyped session.registry := by
  obtain ⟨start, hbegins, hleads⟩ := h
  induction hleads with
  | refl => exact hbegins.isTyped hreached.isTyped
  | tail _ hnext ih => exact hnext.isTyped ih

/-- Whether a run, before which `earlier` is noted, was begun at a moment that this session or an
earlier one comes to, in the course of something that keeps to a law. -/
def HasBegun (law : Law) (session : Session) (run : Invocation) (earlier : List Invocation) :
    Prop :=
  ∃ before maxDepth room called, Reached law before ∧
    Relation.ReflTransGen (Step law) before session ∧
    before.ComesToUnder law maxDepth ⟨.invoke (room + 1) run.function run.arguments, called⟩ ∧
    called.history = earlier ∧ run.depth = maxDepth - room

/-- Every run in the history of a session that keeps to a law was begun at such a moment. -/
theorem Reached.hasBegun {law : Law} (h : Reached law session) {run : Invocation}
    {earlier : List Invocation} (hrun : run :: earlier <:+ session.state.history) :
    session.HasBegun law run earlier := by
  induction h with
  | refl =>
    have hlength := hrun.length_le
    exact absurd hlength (Nat.not_succ_le_zero _)
  | @tail middle after hreached hstep ih =>
    -- The run is older than the step, or it is one that the step brings about.
    have older (hmiddle : run :: earlier <:+ middle.state.history) :
        after.HasBegun law run earlier := by
      obtain ⟨before, maxDepth, room, called, hbefore, hsteps, hmoment⟩ := ih hmiddle
      exact ⟨before, maxDepth, room, called, hbefore, hsteps.tail hstep, hmoment⟩
    have younger {α : Type} {maxDepth : Nat} {task : Task α} {state : State}
        {outcome : Except Fault α} (hbegins : middle.Begins maxDepth ⟨task, middle.state⟩)
        (hran : Derives middle.registry maxDepth law task middle.state outcome state)
        (hrun : run :: earlier <:+ state.history) : after.HasBegun law run earlier := by
      rcases suffix_or_suffix_of_run hrun hran.extends.history with hmiddle | hlater
      · exact older hmiddle
      · obtain ⟨room, called, hleads, hrest⟩ := hran.free.exists_moment hrun hlater
        exact ⟨middle, maxDepth, room, called, hreached, .single hstep,
          ⟨_, hbegins, ⟨_, _, hran⟩, hleads⟩, hrest⟩
    cases hstep with
    | register => exact older hrun
    | parse accepted =>
      obtain ⟨-, -, rfl⟩ := of_runIn_parse accepted
      exact older hrun
    | make | reseed => exact older hrun
    | @resolve site space context known =>
      rcases of_runIn_resolve ⟨middle.registry, space, context⟩ site middle.state with
        hsame | ⟨f, -, hpin⟩
      · rw [moved, hsame] at hrun
        exact older hrun
      · rw [moved, hpin.history_eq] at hrun
        exact older hrun
    | @prepare site space context known =>
      rw [moved, (of_runIn_prepare ⟨middle.registry, space, context⟩ site _).history_eq] at hrun
      exact older hrun
    | execute known ran => exact younger (.execute known) ran hrun
    | validate known ran =>
      rw [moved, ran.history_eq trivial] at hrun
      exact older hrun
    | evaluate known ran => exact younger (.evaluate known) ran hrun

/-- A run in the history of a session was begun at a moment that an earlier session came to. -/
theorem Reached.exists_moment (h : Reached .free session) {run : Invocation}
    {earlier : List Invocation} (hrun : run :: earlier <:+ session.state.history) :
    ∃ before, Reached .free before ∧ Relation.ReflTransGen (Step .free) before session ∧
      before.ComesToRun run earlier := by
  obtain ⟨before, maxDepth, room, called, hbefore, hsteps, hmoment, hrest⟩ := h.hasBegun hrun
  exact ⟨before, hbefore, hsteps, maxDepth, room, called, hmoment.comesTo, hrest⟩

end Session

end CallScript

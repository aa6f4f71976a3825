import CallScript.Proofs.Moments

/-!
# Functions run on arguments of their types

A call that is executed is prepared, its arguments are evaluated, and then its function is run on
them. A `Launch` is all of this at some moment that a session comes to, up to the run. Whether the
arguments have the types that the function declares shows there and then: it is so if bodies have
returned what they declare while the arguments were evaluated, and if the calls whose values are
handed on as they are have found functions that declare the types of the parameters, or that return
nothing. What other calls of the same function have found does not matter
(`Session.Launch.isTyped`).

A call that was bound before a function was replaced may fail the second condition, and then a
value of a wrong type gets to a parameter (`Session.wrong_type_after_replacement`).
`Session.arguments_typed` says that this is the only way: it is about each launch of a session in
which whatever is registered, read, made, resolved, prepared, checked and evaluated in whatever
order, and no run of the history is without a launch.

A call is executed at a moment that is typed (`Session.ComesTo.isTyped`), so its bindings fit the
function that it has found, and the values of its arguments are those that `Derives.isTyped`
promises.
-/

namespace CallScript

/-- The law that bodies return what they declare, and that a watched function is run only if the
values of calls that are handed on to it are declared to be of the types of its parameters. -/
def Law.typed (watched : Function → Prop) : Law where
  returns := Law.honest.returns
  passes state place bindings := ∀ f, (state.pins.get place).callee = some f → watched f →
    state.Agrees place bindings

theorem Law.IsHonest.honest : Law.honest.IsHonest := fun _ _ h => h

theorem Law.IsHonest.typed (watched : Function → Prop) : (Law.typed watched).IsHonest :=
  fun _ _ h => h

namespace Session

variable {law : Law} {session : Session} {maxDepth : Nat}

/-! ## Launches -/

/-- The execution of a call, at a moment that a session comes to, up to where its function is run:
the call was prepared, and its arguments were evaluated. -/
structure Launch (session : Session) (maxDepth : Nat) where
  room : Nat
  scope : Scope
  space : String
  place : Place
  site : CallSite
  start : State
  function : Function
  bound : Bound site
  prepared : State
  values : List (List Value)
  called : State
  comes : session.ComesTo maxDepth ⟨.execute room scope space place site, start⟩
  prepares : (site.prepare session.registry space place).runIn start =
    (.ok (function, bound), prepared)
  evaluates : Derives session.registry maxDepth .free
    (.evalEach room scope place 0 (bound.1.map Binding.expr)) prepared (.ok values) called

namespace Launch

/-- What the function is run on. -/
def arguments (launch : Launch session maxDepth) : Bundle :=
  .ofBindings launch.bound.1 launch.values

/-- The moment at which the function is about to be run. -/
def moment (launch : Launch session maxDepth) : Moment :=
  ⟨.invoke launch.room launch.function launch.arguments, launch.called⟩

/-- The run that is noted, if there is room for it. -/
def run (launch : Launch session maxDepth) : Invocation :=
  ⟨launch.function, launch.arguments, maxDepth - (launch.room - 1)⟩

/-- Whether the evaluation of the arguments keeps to a law, by which the function may then be run. -/
def KeepsTo (law : Law) (launch : Launch session maxDepth) : Prop :=
  Derives session.registry maxDepth law
      (.evalEach launch.room launch.scope launch.place 0 (launch.bound.1.map Binding.expr))
      launch.prepared (.ok launch.values) launch.called ∧
    law.passes launch.called launch.place launch.bound.1

/-- Whether the calls whose values are handed on to parameters of a particular type have found
functions that declare this type, or that return nothing. -/
def Agrees (launch : Launch session maxDepth) : Prop :=
  launch.called.Agrees launch.place launch.bound.1

/-- The call that is executed remembers the function. -/
theorem callee (launch : Launch session maxDepth) :
    (launch.called.pins.get launch.place).callee = some launch.function :=
  launch.evaluates.extends.callee _ _ (callee_of_prepare launch.prepares)

/-- A launch keeps to the law that the execution of its call keeps to. -/
theorem keepsTo_of_execute (launch : Launch session maxDepth)
    (h : Moment.KeepsTo session.registry maxDepth law
      ⟨.execute launch.room launch.scope launch.space launch.place launch.site, launch.start⟩) :
    launch.KeepsTo law := by
  obtain ⟨_, _, hran⟩ := h
  obtain ⟨_, hfails, -⟩ | ⟨_, _, _, hprepared, hrun⟩ := hran.isDerived
  · cases launch.prepares.symm.trans hfails
  · cases launch.prepares.symm.trans hprepared
    obtain ⟨_, hfails, -⟩ | ⟨_, _, _, harguments, hpasses, -⟩ := hrun
    · obtain ⟨hfails, -⟩ := hfails.free.unique launch.evaluates
      cases hfails
    · obtain ⟨hvalues, rfl⟩ := harguments.free.unique launch.evaluates
      cases hvalues
      exact ⟨harguments, hpasses⟩

/-- The arguments of a launch are of the types that the function declares, if bodies have returned
what they declare, and the calls whose values are handed on agree with that. -/
theorem isTyped (launch : Launch session maxDepth) {law' : Law} (hreached : Reached law' session)
    (hhonest : law.IsHonest) (hkeeps : launch.KeepsTo law) (hagrees : launch.Agrees) :
    launch.arguments.IsTyped launch.function.signature.parameters := by
  have hstart : launch.start.IsTyped session.registry := (launch.comes.isTyped hreached).state
  have hfits := hstart.fits_of_prepare launch.prepares
  obtain ⟨-, hyields⟩ :=
    hkeeps.1.isTyped (hstart.of_runIn_prepare launch.prepares) (isTyped_of_fits hfits)
  have hvalues : YieldsEach (launch.bound.1.map Binding.expr) launch.place 0 launch.called
    launch.values := hyields hhonest _ rfl
  exact Bundle.isTyped_ofBindings hfits (hvalues.hasTy_of_agrees hfits hagrees)

end Launch

/-- Where a function is about to be run in the course of something that keeps to a law, there is a
launch that keeps to it. -/
theorem ComesToUnder.exists_launch {room : Nat} {f : Function} {arguments : Bundle}
    {called : State}
    (h : session.ComesToUnder law maxDepth ⟨.invoke room f arguments, called⟩) :
    ∃ launch : Launch session maxDepth, launch.room = room ∧ launch.function = f ∧
      launch.arguments = arguments ∧ launch.called = called ∧ launch.KeepsTo law := by
  obtain ⟨scope, space, place, site, state, bound, middle, values, hcomes, hprepared, harguments,
    rfl⟩ := h.exists_execute
  let launch : Launch session maxDepth := ⟨room, scope, space, place, site, state, f, bound, middle,
    values, called, hcomes.comesTo, hprepared, harguments⟩
  exact ⟨launch, rfl, rfl, rfl, rfl, launch.keepsTo_of_execute hcomes.keepsTo⟩

/-- Every run in the history of a session that keeps to a law has a launch that keeps to it, in this
session or an earlier one. -/
theorem Reached.exists_launch (h : Reached law session) {run : Invocation}
    {earlier : List Invocation} (hrun : run :: earlier <:+ session.state.history) :
    ∃ (before : Session) (maxDepth : Nat) (launch : Launch before maxDepth),
      Reached law before ∧ Relation.ReflTransGen (Step law) before session ∧
      launch.KeepsTo law ∧ 0 < launch.room ∧ launch.run = run ∧ launch.called.history = earlier := by
  obtain ⟨before, maxDepth, room, called, hbefore, hsteps, hmoment, rfl, hdepth⟩ := h.hasBegun hrun
  obtain ⟨launch, hroom, hfunction, harguments, rfl, hkeeps⟩ := hmoment.exists_launch
  refine ⟨before, maxDepth, launch, hbefore, hsteps, hkeeps, hroom ▸ Nat.succ_pos _, ?_, rfl⟩
  rw [Launch.run, hroom, hfunction, harguments, Nat.add_sub_cancel, ← hdepth]

/-! ## A launch of a call whose argument is a call -/

theorem exists_pure_nestedSession : ∃ bound,
    ((nestedSession.state.pins.get ⟨0, []⟩).prepare nestedSession.registry "" nestedCall).1 =
      .ok (.sink "f", bound) ∧ bound.1 = [nestedBinding] := by
  rw [nestedSession, Pins.get_empty]
  exact exists_prepare_nestedSession

/-- The call `f(g())` may be executed, and launches `f` on the value of `g`. -/
theorem exists_launch_nestedSession :
    ∃ launch : Launch nestedSession 256, launch.KeepsTo .honest ∧ launch.Agrees ∧
      launch.function = .sink "f" ∧ launch.arguments.get "x" = [.boolean true] := by
  obtain ⟨bound, hpure, hbound⟩ := exists_pure_nestedSession
  obtain ⟨middle, called, hprepared, harguments, hcallee⟩ : ∃ middle called,
      (nestedCall.prepare nestedSession.registry "" ⟨0, []⟩).runIn nestedSession.state =
        (.ok (.sink "f", bound), middle) ∧
      Derives nestedSession.registry 256 .honest
        (.evalEach 256 Scope.empty ⟨0, []⟩ 0 (bound.1.map Binding.expr)) middle
        (.ok [[.boolean true]]) called ∧
      (called.pins.get (Place.child ⟨0, []⟩ 0)).callee = some (.constant "g" (.boolean true)) :=
    exists_derives_nestedArgument 256 255 Scope.empty hpure hbound (Pins.get_empty _) rfl
      (honest_constant _ _) fun _ => trivial
  have hbegins := @Begins.execute nestedSession ⟨0, nestedCall⟩ "" (.top 256)
    (List.mem_singleton_self _)
  let launch : Launch nestedSession 256 := ⟨256, Scope.empty, "", ⟨0, []⟩, nestedCall,
    nestedSession.state, .sink "f", bound, middle, [[.boolean true]], called,
    ⟨_, hbegins, .refl⟩, hprepared, harguments.free⟩
  refine ⟨launch, ⟨harguments, trivial⟩, ?_, rfl, ?_⟩
  · rw [Launch.Agrees, hbound]
    exact agrees_nestedBinding hcallee
  · rw [Launch.arguments, hbound]
    rfl

/-- So there is a session in which `f` was run, and in which what is handed on to functions has
always agreed with their parameters. -/
theorem exists_run_nestedSession : ∃ session, Reached (.typed fun _ => True) session ∧
    ⟨.sink "f", ⟨[("x", [.boolean true])]⟩, 1⟩ ∈ session.state.history := by
  obtain ⟨bound, hpure, hbound⟩ := exists_pure_nestedSession
  obtain ⟨after, hran, hrun⟩ : ∃ after, Derives nestedSession.registry 256 (.typed fun _ => True)
      (.execute (255 + 1) Scope.empty "" ⟨0, []⟩ nestedCall) nestedSession.state (.ok none) after ∧
      ⟨.sink "f", ⟨[("x", [.boolean true])]⟩, 256 - 255⟩ ∈ after.history := by
    refine exists_derives_nestedCall hpure hbound (Pins.get_empty _) rfl (honest_constant _ _)
      (honest_sink _) ?_ fun _ hcallee _ _ _ => agrees_nestedBinding hcallee
    -- The call `g()` has no arguments.
    exact fun _ _ _ _ _ _ hb => by simp at hb
  exact ⟨_, (reached_nestedSession _).tail
    (@Step.execute _ _ _ _ (.top 256) _ _ (List.mem_singleton_self _) hran), hrun⟩

/-! ## The arguments of runs -/

/-- Functions are run on arguments of the types that they declare. For any session that can be
reached, by registering and replacing functions, reading texts, making calls, and resolving,
preparing, checking, executing and evaluating them in any order, while bodies return what their
functions declare:

* every moment at which a function is about to be run is that of a launch;
* at every launch, the arguments are of the types of the parameters that they are bound to, if
  bodies have returned what they declare while these arguments were evaluated, and if each call whose
  values are handed on to a parameter of a particular type has found a function that declares this
  type, or that returns nothing;
* every run in the history has such a launch, in this session or an earlier one.

So it is for all runs of some watched functions, if the calls that are handed on to them agree at
each of their launches. -/
theorem arguments_typed (session : Session) :
    (Reached .honest session →
      (∀ maxDepth room f arguments called,
        session.ComesTo maxDepth ⟨.invoke room f arguments, called⟩ →
        ∃ launch : Launch session maxDepth,
          launch.moment = ⟨.invoke room f arguments, called⟩) ∧
      (∀ maxDepth (launch : Launch session maxDepth), launch.KeepsTo .honest → launch.Agrees →
        launch.arguments.IsTyped launch.function.signature.parameters) ∧
      ∀ run earlier, run :: earlier <:+ session.state.history →
        ∃ (before : Session) (maxDepth : Nat) (launch : Launch before maxDepth),
          Reached .honest before ∧ Relation.ReflTransGen (Step .honest) before session ∧
          0 < launch.room ∧ launch.run = run ∧ launch.called.history = earlier ∧
          (launch.Agrees → run.arguments.IsTyped run.function.signature.parameters)) ∧
    ∀ watched, Reached (.typed watched) session → ∀ run ∈ session.state.history,
      watched run.function → run.arguments.IsTyped run.function.signature.parameters := by
  refine ⟨fun hreached => ⟨?_, ?_, ?_⟩, ?_⟩
  · intro maxDepth room f arguments called hmoment
    obtain ⟨launch, rfl, rfl, rfl, rfl, -⟩ := hmoment.under_free.exists_launch
    exact ⟨launch, rfl⟩
  · intro maxDepth launch hkeeps hagrees
    exact launch.isTyped hreached .honest hkeeps hagrees
  · intro run earlier hrun
    obtain ⟨before, maxDepth, launch, hbefore, hsteps, hkeeps, hroom, rfl, hhistory⟩ :=
      hreached.exists_launch hrun
    exact ⟨before, maxDepth, launch, hbefore, hsteps, hroom, rfl, hhistory,
      launch.isTyped hbefore .honest hkeeps⟩
  · intro watched hreached run hrun hwatched
    obtain ⟨later, earlier, hhistory⟩ := List.append_of_mem hrun
    obtain ⟨before, maxDepth, launch, hbefore, -, hkeeps, -, rfl, -⟩ :=
      hreached.exists_launch ⟨later, hhistory.symm⟩
    exact launch.isTyped hbefore (.typed watched) hkeeps (hkeeps.2 _ launch.callee hwatched)

/-- While `f(g())` is executed, functions are run on arguments of their types as long as nobody
replaces `g`: so it is at the launch of `f`, and in the history afterwards. -/
theorem arguments_typed_nestedSession :
    Reached .honest nestedSession ∧
    (∃ launch : Launch nestedSession 256, launch.KeepsTo .honest ∧ launch.Agrees ∧
      launch.arguments.get "x" = [.boolean true] ∧
      ∀ v ∈ launch.arguments.get "x", v.ty = .boolean) ∧
    ∃ session, Reached (.typed fun _ => True) session ∧ ∃ run ∈ session.state.history,
      run.arguments.get "x" = [.boolean true] ∧ ∀ v ∈ run.arguments.get "x", v.ty = .boolean := by
  obtain ⟨launch, hkeeps, hagrees, hfunction, hvalue⟩ := exists_launch_nestedSession
  obtain ⟨session, hreached, hrun⟩ := exists_run_nestedSession
  have hparameter : (⟨"x", .boolean, true, false⟩ : Parameter) ∈
    (Function.sink "f").signature.parameters := List.mem_singleton_self _
  obtain ⟨-, hlaunches, -⟩ := (arguments_typed nestedSession).1 (reached_nestedSession _)
  have hlaunch := hlaunches 256 launch hkeeps hagrees
  rw [hfunction] at hlaunch
  have htyped := (arguments_typed session).2 _ hreached _ hrun trivial
  exact ⟨reached_nestedSession _,
    ⟨launch, hkeeps, hagrees, hvalue, hlaunch.get (by decide) _ hparameter (by decide)⟩,
    session, hreached, _, hrun, rfl, htyped.get (by decide) _ hparameter (by decide)⟩

/-- A text gets to a parameter for truth values if `f(g())` is prepared while `g` returns a truth
value, and executed when `g` was replaced by a function that returns a text. -/
theorem wrong_type_after_replacement :
    ∃ session, Reached .honest session ∧ ∃ run ∈ session.state.history,
      (run.function.signature.parameters.map Parameter.name).Nodup ∧
      ∃ p ∈ run.function.signature.parameters, p.ty ≠ .any ∧
        ∃ v ∈ run.arguments.get p.name, v.ty ≠ p.ty := by
  obtain ⟨bound, hpure, hbound⟩ := exists_prepare_nestedSession
  obtain ⟨prepared, hprepared, hpin⟩ := exists_prepared_nestedSession .honest
  have hreplaced := hprepared.tail
    (.register (f := .constant "g" (.text "a")) fun x hx => (not_mem_shared x _ hx).elim)
  obtain ⟨after, hran, hrun⟩ : ∃ after, Derives
      (nestedSession.registry.register (.constant "g" (.text "a"))) 256 .honest
      (.execute (255 + 1) Scope.empty "" ⟨0, []⟩ nestedCall) prepared (.ok none) after ∧
      ⟨.sink "f", ⟨[("x", [.text "a"])]⟩, 256 - 255⟩ ∈ after.history := by
    refine exists_derives_nestedCall ?_ hbound ?_ rfl (honest_constant _ _) (honest_sink _)
      (fun _ => trivial) fun _ _ => trivial
    · rw [hpin.pins_self]
      exact Pin.prepare_again _ hpure
    · rw [hpin.pins_of_ne (by decide)]
      exact Pins.get_empty _
  refine ⟨_, hreplaced.tail (@Step.execute _ _ _ _ (.top 256) _ _ (List.mem_singleton_self _) hran),
    _, hrun, by decide, ⟨"x", .boolean, true, false⟩, List.mem_singleton_self _, by decide,
    .text "a", List.mem_singleton_self _, by decide⟩

end Session

end CallScript

import CallScript.Proofs.StaticTypes
import CallScript.Proofs.Twins

/-!
# Outcomes that are the same everywhere

As long as no function is registered, and if what functions end with depends on their arguments and
their context alone, an expression ends alike wherever and whenever it is evaluated with the same
variables and as much room: at every place at which it is laid out, in every state that conforms.
So its outcome can be stated without a place and a state. `Gives` does that for everything that can
be evaluated, and for the run of a function as well.

Two ways lead there. What was derived in one state is given everywhere (`Derives.gives_eval`,
`Derives.gives_invoke`). And what is given for the parts makes up what is given for the whole, by
one rule for each kind of expression and each way in which a call can go; so an outcome can be
worked out for an expression that was never evaluated.
-/

namespace CallScript

/-! ## Ends that conform -/

/-- Whether a task ends with an outcome in a state, and leaves a state that conforms to the layout
and to what was read on the way. -/
def Task.Ends (registry : Registry) (maxDepth : Nat) (layout : Layout) (state : State) {α : Type}
    (task : Task α) (outcome : Except Fault α) : Prop :=
  ∃ newer after, layout.Extends newer ∧ after.Conforms registry newer ∧
    Derives registry maxDepth .free task state outcome after

/-- Whether a task ends with an outcome at every place at which it is laid out, in every state that
conforms. -/
def Gives (registry : Registry) (maxDepth : Nat) {α : Type} (task : Place → Task α)
    (outcome : Except Fault α) : Prop :=
  ∀ (place : Place) ⦃layout : Layout⦄ ⦃state : State⦄, state.Conforms registry layout →
    (task place).IsLaidOut registry layout →
    (task place).Ends registry maxDepth layout state outcome

section

variable {registry : Registry} {maxDepth room : Nat} {layout : Layout} {state after : State}
  {scope : Scope} {space : String} {place : Place} {site : CallSite}

namespace Task.Ends

variable {α β : Type} {task : Task α} {other : Task β} {outcome : Except Fault α}
  {outcome' : Except Fault β} {start : State}

/-- A task that ends as it begins. -/
theorem refl (hconforms : state.Conforms registry layout)
    (hran : Derives registry maxDepth .free task state outcome state) :
    task.Ends registry maxDepth layout state outcome :=
  ⟨layout, state, .refl _, hconforms, hran⟩

/-- A task that ends as another one does. -/
theorem imp (h : task.Ends registry maxDepth layout state outcome)
    (hran : ∀ {after}, Derives registry maxDepth .free task state outcome after →
      Derives registry maxDepth .free other start outcome' after) :
    other.Ends registry maxDepth layout start outcome' := by
  obtain ⟨newer, after, hextends, hafter, htask⟩ := h
  exact ⟨newer, after, hextends, hafter, hran htask⟩

/-- A task that goes on after another one. -/
theorem bind (h : task.Ends registry maxDepth layout state outcome)
    (hrest : ∀ {newer after}, layout.Extends newer → after.Conforms registry newer →
      Derives registry maxDepth .free task state outcome after →
      other.Ends registry maxDepth newer start outcome') :
    other.Ends registry maxDepth layout start outcome' := by
  obtain ⟨newer, middle, hextends, hmiddle, htask⟩ := h
  obtain ⟨last, after, hgrows, hafter, hother⟩ := hrest hextends hmiddle htask
  exact ⟨last, after, hextends.trans hgrows, hafter, hother⟩

end Task.Ends

/-- A state conforms after a call was prepared that is laid out, which ends as at a call site that
remembers nothing. -/
theorem State.Conforms.prepare (h : state.Conforms registry layout)
    (hplace : layout place = some (space, site)) :
    ∃ after, (site.prepare registry space place).runIn state =
        ((({} : Pin).prepare registry space site).1.mapError
          (fun cause => .own (.call site.name cause)), after) ∧
      after.Conforms registry layout := by
  obtain ⟨houtcome, -⟩ := h.agrees.prepare hplace
  obtain ⟨-, hpin⟩ := runIn_prepare registry space place site state
  exact ⟨_, Prod.ext houtcome rfl,
    h.repinned hplace hpin (h.agrees place space site hplace).prepare_snd⟩

theorem State.Conforms.of_prepare (h : state.Conforms registry layout)
    (hplace : layout place = some (space, site)) {found : Except Fault (Function × Bound site)}
    (hrun : (site.prepare registry space place).runIn state = (found, after)) :
    found = (({} : Pin).prepare registry space site).1.mapError
        (fun cause => .own (.call site.name cause)) ∧
      after.Conforms registry layout := by
  obtain ⟨_, hprepared, hafter⟩ := h.prepare hplace
  rw [hrun] at hprepared
  cases hprepared
  exact ⟨rfl, hafter⟩

/-- A state conforms after a task was done that is laid out. -/
theorem Derives.conforms {α : Type} {task : Task α} {outcome : Except Fault α}
    (h : Derives registry maxDepth .free task state outcome after)
    (hconforms : state.Conforms registry layout)
    (htask : task.Twin registry True layout layout task) :
    ∃ newer, layout.Extends newer ∧ after.Conforms registry newer := by
  have hafter : ∃ newer, layout.Extends newer ∧
      ((task.run registry maxDepth).runIn state).2.Conforms registry newer := hconforms.run htask
  rwa [h.runIn_eq] at hafter

/-! ## From one state to all others -/

/-- What an expression ends with in one state it ends with everywhere. -/
theorem Derives.gives_eval {e : Expr} {outcome : Except Fault (List Value)}
    (h : Derives registry maxDepth .free (.eval room scope place e) state outcome after)
    (hruns : registry.RepeatsRuns maxDepth False) (hconforms : state.Conforms registry layout)
    (hlaid : layout.Covers place (registry.callAt e)) :
    Gives registry maxDepth (.eval room scope · e) outcome := by
  intro place' layout' state' hconforms' hlaid'
  obtain ⟨_, newer, after', -, hextends, hafter, hran⟩ :=
    h.repeats (.inr (.inr hruns)) ⟨hconforms, hconforms', False.elim⟩ ⟨place', hlaid, hlaid', rfl⟩
  exact ⟨newer, after', hextends, hafter.right, hran⟩

/-- What the run of a registered function ends with in one state it ends with everywhere. -/
theorem Derives.gives_invoke {f : Function} {arguments : Bundle}
    {outcome : Except Fault (List Value)}
    (h : Derives registry maxDepth .free (.invoke room f arguments) state outcome after)
    (hruns : registry.RepeatsRuns maxDepth False) (hf : f ∈ registry.functions)
    (hconforms : state.Conforms registry layout) :
    Gives registry maxDepth (fun _ => .invoke room f arguments) outcome := by
  intro _ layout' state' hconforms' _
  obtain ⟨_, newer, after', -, hextends, hafter, hran⟩ :=
    hruns f hf _ _ _ _ _ _ _ _ ⟨hconforms, hconforms', False.elim⟩ h
  exact ⟨newer, after', hextends, hafter.right, hran⟩

/-- A call that ends with some values has run a function, and these are of the values that this run
ends with everywhere. -/
theorem Derives.exists_gives_invoke {ty : Ty} {single : Bool} {values : List Value}
    (h : Derives registry maxDepth .free (.eval room scope place (.call site ty single)) state
      (.ok values) after) (hruns : registry.RepeatsRuns maxDepth False)
    (hconforms : state.Conforms registry layout)
    (hlaid : layout.Covers place (registry.callAt (.call site ty single))) :
    ∃ f arguments result, registry.lookup site.name site.space = some f ∧
      Gives registry maxDepth (fun _ => .invoke room f arguments) (.ok result) ∧
      values = ((f.signature.shape result).map Returned.values).getD [] := by
  obtain ⟨_, hexecuted, hvalues⟩ := h.isEvaluated
  obtain ⟨returned, rfl, rfl⟩ := exists_of_map_eq_ok hvalues.symm
  obtain ⟨_, -, hfails⟩ | ⟨f, bound, middle, hprepared, hrun⟩ := hexecuted.isDerived
  · cases hfails
  obtain ⟨_, -, hfails⟩ | ⟨arguments, called, _, harguments, -, hinvoked, hreturned⟩ := hrun
  · cases hfails
  obtain ⟨result, rfl, rfl⟩ := exists_of_map_eq_ok hreturned.symm
  have hplace := hlaid.call.here
  obtain ⟨hfresh, hfound⟩ := hconforms.agrees.prepared hplace hprepared
  obtain ⟨-, hmiddle⟩ := hconforms.of_prepare hplace hprepared
  have hcovers := hlaid.call.arguments hfresh
  obtain ⟨_, -, hcalled⟩ := harguments.conforms hmiddle ⟨place, hcovers, hcovers, rfl⟩
  exact ⟨f, _, result, hfound,
    hinvoked.gives_invoke hruns (Registry.mem_of_lookup hfound) hcalled, rfl⟩

/-! ## From parts to the whole -/

namespace Gives

theorem reference (target : Reference) :
    Gives registry maxDepth (.eval room scope · (.reference target)) (.ok (scope.resolve target)) :=
  fun _ _ _ hconforms _ => .refl hconforms .reference

theorem list {items : List Expr} {ty : Ty} {outcome : Except Fault (List (List Value))}
    (h : Gives registry maxDepth (.evalEach room scope · 0 items) outcome) :
    Gives registry maxDepth (.eval room scope · (.list items ty)) (outcome.map List.flatten) :=
  fun place _ _ hconforms hlaid => (h place hconforms (Layout.Covers.items hlaid)).imp .list

theorem converted {inner : Expr} {target : Ty} {outcome : Except Fault (List Value)}
    (h : Gives registry maxDepth (.eval room scope · inner) outcome) :
    Gives registry maxDepth (.eval room scope · (.converted inner target))
      (outcome.bind (convertAll target)) :=
  fun place _ _ hconforms hlaid =>
    (h place hconforms (Layout.Covers.converted hlaid)).imp .converted

section

variable {index : Nat} {item : Expr} {items : List Expr}

theorem evalNil : Gives registry maxDepth (.evalEach room scope · index []) (.ok []) :=
  fun _ _ _ hconforms _ => .refl hconforms .evalNil

theorem evalFails {fault : Fault}
    (h : Gives registry maxDepth (.eval room scope · item) (.error fault)) :
    Gives registry maxDepth (.evalEach room scope · index (item :: items)) (.error fault) :=
  fun place _ _ hconforms hlaid =>
    (h (place.child index) hconforms (Layout.CoversEach.head hlaid)).imp .evalFails

theorem evalCons {values : List Value} {outcome : Except Fault (List (List Value))}
    (h : Gives registry maxDepth (.eval room scope · item) (.ok values))
    (hrest : Gives registry maxDepth (.evalEach room scope · (index + 1) items) outcome) :
    Gives registry maxDepth (.evalEach room scope · index (item :: items))
      (outcome.map (values :: ·)) := by
  intro place layout state hconforms hlaid
  refine (h (place.child index) hconforms (Layout.CoversEach.head hlaid)).bind ?_
  intro newer middle hextends hmiddle hran
  exact (hrest place hmiddle ((Layout.CoversEach.tail hlaid).mono hextends)).imp (.evalCons hran)

end

theorem unprepared {cause : BindError}
    (h : (({} : Pin).prepare registry space site).1 = .error cause) :
    Gives registry maxDepth (.execute room scope space · site)
      (.error (.own (.call site.name cause))) := by
  intro place layout state hconforms hlaid
  obtain ⟨after, hprepared, hafter⟩ := hconforms.prepare (Layout.Covers.here hlaid)
  rw [h] at hprepared
  exact ⟨layout, after, .refl _, hafter, .unprepared hprepared⟩

section

variable {f : Function} {bound : Bound site}
  (h : (({} : Pin).prepare registry space site).1 = .ok (f, bound))

include h

theorem argumentFails {fault : Fault}
    (harguments : Gives registry maxDepth (.evalEach room scope · 0 (bound.1.map Binding.expr))
      (.error fault)) :
    Gives registry maxDepth (.execute room scope space · site) (.error fault) := by
  intro place layout state hconforms hlaid
  obtain ⟨middle, hprepared, hmiddle⟩ := hconforms.prepare (Layout.Covers.here hlaid)
  rw [h] at hprepared
  exact (harguments place hmiddle (Layout.Covers.arguments hlaid h)).imp (.argumentFails hprepared)

theorem executed {values : List (List Value)} {outcome : Except Fault (List Value)}
    (harguments : Gives registry maxDepth (.evalEach room scope · 0 (bound.1.map Binding.expr))
      (.ok values))
    (hinvoked : Gives registry maxDepth
      (fun _ => .invoke room f (Bundle.ofBindings bound.1 values)) outcome) :
    Gives registry maxDepth (.execute room scope space · site)
      (outcome.map f.signature.shape) := by
  intro place layout state hconforms hlaid
  obtain ⟨middle, hprepared, hmiddle⟩ := hconforms.prepare (Layout.Covers.here hlaid)
  rw [h] at hprepared
  refine (harguments place hmiddle (Layout.Covers.arguments hlaid h)).bind ?_
  intro newer called _ hcalled hran
  exact (hinvoked place hcalled trivial).imp (.executed hprepared hran trivial)

end

end Gives

/-! ## Functions that can be relied on -/

/-- Whether the registered functions return values of the types that they declare. What call sites
remember is that of a given state. -/
def Registry.IsHonest (registry : Registry) (state : State) : Prop :=
  ∀ f ∈ registry.functions, ∀ maxDepth room arguments values,
    ((registry.invoke maxDepth room f arguments).runIn state).1 = .ok values →
      Law.honest.returns f values

/-- Whether the registered functions end alike in all states that are alike, and return values of
the types that they declare. -/
structure Registry.IsReliable (registry : Registry) (maxDepth : Nat) : Prop where
  repeats : registry.RepeatsRuns maxDepth False
  honest : ∀ f ∈ registry.functions, ∀ room arguments values,
    Gives registry maxDepth (fun _ => .invoke room f arguments) (.ok values) →
      Law.honest.returns f values

theorem Registry.IsDeterministic.isReliable (h : registry.IsDeterministic state)
    (hhonest : registry.IsHonest state) (hconforms : state.Conforms registry layout)
    (maxDepth : Nat) : registry.IsReliable maxDepth where
  repeats := h.repeatsRuns hconforms maxDepth
  honest f hf room arguments values hvalues := by
    obtain ⟨_, _, -, -, hran⟩ := hvalues ⟨0, []⟩ hconforms trivial
    exact hhonest f hf maxDepth room arguments values (congrArg Prod.fst hran.runIn_eq)

end

end CallScript

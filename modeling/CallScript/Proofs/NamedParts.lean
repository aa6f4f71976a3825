import CallScript.Proofs.ConvertedOutcomes
import CallScript.Proofs.Lookups
import CallScript.Proofs.ReplacedArguments
import CallScript.Proofs.Transparency

/-!
# Parts that are given a name

An argument of a call can be evaluated beforehand. A variable that has its values can then stand in
its place, and the call ends as before, with the same result or the same fault
(`naming_a_part_does_not_show`).

The two calls get there in different ways. The text is read for the type of the parameter, with
conversions wherever they are needed in it; the variable has all the values, and they are converted
at once. Both come to the same (`Expr.Aims.givesConverted`, `Gives.referenceExpr`). Where one value
is wanted, the variable gives its first one; then it has no more than one, since the text was bound
to this parameter and stands for one value (`Expr.IsNoted.length_le_one`).

The other arguments are evaluated with one variable more. They end as before if they do not look it
up (`Derives.inScope`). What is looked up for them depends on how far their evaluation gets, so
`LooksUpBeside` asks what the execution of the call leads to; `LooksUpBeside.exists_binding` brings
it down to their expressions.
-/

namespace CallScript

/-! ## A variable for a part -/

/-- A variable gives the values it has, converted for the parameter that it is the argument for. -/
theorem Gives.referenceExpr {registry : Registry} {maxDepth room : Nat} {p : Parameter}
    {us : List Value} (h : p.single = true → us.length ≤ 1) (scope : Scope) (name : String) :
    Gives registry maxDepth (.eval room (scope.set name us) · (p.referenceExpr name))
      (convertAll p.ty us) := by
  have hresolve : (scope.set name us).resolve ⟨name, !p.single⟩ = us := by
    rw [Scope.resolve, Scope.get_set, if_pos rfl]
    cases hsingle : p.single with
    | false => rfl
    | true => exact List.take_of_length_le (h hsingle)
  have hreference := @Gives.reference registry maxDepth room (scope.set name us) ⟨name, !p.single⟩
  rw [hresolve] at hreference
  unfold Parameter.referenceExpr
  split
  · next hany =>
    have hall : HasTy p.ty us := fun htarget => absurd hany htarget
    rw [hall.convertAll_eq]
    exact hreference
  · exact hreference.converted

/-! ## What is looked up for the other arguments -/

/-- Whether the expression at a place is about to be evaluated. -/
def Moment.IsAt (place : Place) : Moment → Prop
  | ⟨.eval _ _ there _, _⟩ => there = place
  | _ => False

/-- Whether a variable is looked up from a moment on for an argument of the call at a place, other
than the one at a position. -/
def Moment.LooksUpBeside (registry : Registry) (maxDepth : Nat) (moment : Moment) (place : Place)
    (i : Nat) (name : String) : Prop :=
  ∃ j argument, j ≠ i ∧ moment.LeadsWithin registry maxDepth argument ∧
    argument.IsAt (place.child j) ∧ argument.LooksUp registry maxDepth name

/-- What can come next where parts are evaluated one after the other, and where a call is
executed. -/
def Moment.ComesNext (registry : Registry) (next : Moment) : Moment → Prop
  | ⟨.evalEach room scope place index items, state⟩ => ∃ item rest, items = item :: rest ∧
    (next = ⟨.eval room scope (place.child index) item, state⟩ ∨
      ∃ middle, next = ⟨.evalEach room scope place (index + 1) rest, middle⟩)
  | ⟨.execute room scope space place site, state⟩ => next.IsRun ∨ ∃ f bound middle,
    (site.prepare registry space place).runIn state = (.ok (f, bound), middle) ∧
      next = ⟨.evalEach room scope place 0 (bound.1.map Binding.expr), middle⟩
  | _ => True

section

variable {registry : Registry} {maxDepth room : Nat} {state : State} {scope : Scope}
  {space name : String} {place : Place} {site : CallSite} {first second : Moment}

theorem Moment.Next.comesNext (h : Next registry maxDepth first second) :
    second.ComesNext registry first := by
  cases h with
  | head => exact ⟨_, _, rfl, .inl rfl⟩
  | tail => exact ⟨_, _, rfl, .inr ⟨_, rfl⟩⟩
  | arguments prepared => exact .inr ⟨_, _, _, prepared, rfl⟩
  | run => exact .inl trivial
  | _ => trivial

theorem Moment.Next.region (h : Next registry maxDepth first second) (hrun : ¬second.IsRun)
    (hfirst : first.task.SeesVariables) :
    second.task.SeesVariables ∧ ∀ {other}, second.task.Region other → first.task.Region other := by
  cases h with
  | items | arguments =>
    refine ⟨trivial, ?_⟩
    rintro other ⟨i, -, hin⟩
    exact Place.contains_of_child hin
  | inner | call => exact ⟨trivial, id⟩
  | head => exact ⟨trivial, fun hother => ⟨_, Nat.le_refl _, hother⟩⟩
  | tail =>
    refine ⟨trivial, ?_⟩
    rintro other ⟨i, hi, hin⟩
    exact ⟨i, Nat.le_of_succ_le hi, hin⟩
  | run => exact absurd trivial hrun
  | body | exchange | answer => exact hfirst.elim

/-- An evaluation stays in the expression that it is of, until a function is run. -/
theorem Moment.LeadsWithin.region (h : first.LeadsWithin registry maxDepth second)
    (hfirst : first.task.SeesVariables) :
    second.task.SeesVariables ∧ ∀ {other}, second.task.Region other → first.task.Region other := by
  induction h with
  | refl => exact ⟨hfirst, id⟩
  | tail _ hnext ih =>
    obtain ⟨hmiddle, hregion⟩ := ih
    obtain ⟨hsecond, hnarrows⟩ := hnext.1.region hnext.2 hmiddle
    exact ⟨hsecond, fun hother => hregion (hnarrows hother)⟩

theorem Moment.IsAt.region (h : second.IsAt place) : second.task.Region place := by
  obtain ⟨task, state⟩ := second
  cases task with
  | eval room scope there e =>
    obtain rfl : there = place := h
    exact Place.contains_self there
  | _ => exact h.elim

/-- What is evaluated for a part is evaluated once it is the part's turn. -/
theorem Moment.LeadsWithin.exists_item {items : List Expr} {index j : Nat}
    (h : LeadsWithin registry maxDepth ⟨.evalEach room scope place index items, state⟩ second)
    (hsecond : second.IsAt (place.child j)) :
    ∃ k item middle, j = index + k ∧ items[k]? = some item ∧
      LeadsWithin registry maxDepth ⟨.eval room scope (place.child j) item, middle⟩ second := by
  induction items generalizing index state with
  | nil =>
    obtain rfl | ⟨_, ⟨hnext, -⟩, -⟩ := h.cases_head
    · exact hsecond.elim
    · obtain ⟨_, _, hnil, -⟩ := hnext.comesNext
      cases hnil
  | cons item items ih =>
    obtain rfl | ⟨_, ⟨hnext, -⟩, hrest⟩ := h.cases_head
    · exact hsecond.elim
    obtain ⟨_, _, hcons, rfl | ⟨middle, rfl⟩⟩ := hnext.comesNext
    · cases hcons
      obtain ⟨-, hregion⟩ := Moment.LeadsWithin.region hrest trivial
      obtain rfl : index = j :=
        Place.index_eq_of_contains (hregion hsecond.region) (Place.contains_self _)
      exact ⟨0, item, state, rfl, rfl, hrest⟩
    · cases hcons
      obtain ⟨k, part, middle, rfl, hpart, hleads⟩ := ih hrest
      exact ⟨k + 1, part, middle, by omega, hpart, hleads⟩

/-- What is looked up for another argument of a call is looked up when its expression is
evaluated. -/
theorem Moment.LooksUpBeside.exists_binding {i : Nat}
    (h : LooksUpBeside registry maxDepth ⟨.execute room scope space place site, state⟩ place i
      name) :
    ∃ f bound after j b before,
      (site.prepare registry space place).runIn state = (.ok (f, bound), after) ∧
      j ≠ i ∧ bound.1[j]? = some b ∧
      LooksUp registry maxDepth ⟨.eval room scope (place.child j) b.expr, before⟩ name := by
  obtain ⟨j, argument, hj, hleads, hat, later, hlater, hname⟩ := h
  obtain rfl | ⟨_, ⟨hnext, hrun⟩, hrest⟩ := hleads.cases_head
  · exact hat.elim
  obtain hruns | ⟨f, bound, after, hprepared, rfl⟩ := hnext.comesNext
  · exact absurd hruns hrun
  obtain ⟨k, item, before, rfl, hitem, hevaluates⟩ := Moment.LeadsWithin.exists_item hrest hat
  rw [List.getElem?_map] at hitem
  obtain ⟨b, hb, rfl⟩ := Option.map_eq_some_iff.mp hitem
  exact ⟨f, bound, after, _, b, before, hprepared, hj, by rwa [Nat.zero_add], later,
    hevaluates.trans hlater, hname⟩

end

/-- Whether a variable of the context is looked up for an argument of a call, other than the one at
a position, when the call is executed in a state. -/
def Evaluator.LooksUpBeside (evaluator : Evaluator) (site : Rooted CallSite) (state : State)
    (i : Nat) (name : String) : Prop :=
  Moment.LooksUpBeside evaluator.registry evaluator.context.maxDepth
    ⟨.execute (evaluator.context.maxDepth - evaluator.context.depth) evaluator.context.scope
      evaluator.space ⟨site.root, []⟩ site.item, state⟩ ⟨site.root, []⟩ i name

/-! ## The arguments of two calls -/

/-- Whether an expression ends, whenever it is evaluated from a moment on, with what another one
gives with other variables. -/
def Moment.Matches (registry : Registry) (maxDepth room : Nat) (scope other : Scope)
    (moment : Moment) (place : Place) (item item' : Expr) : Prop :=
  ∀ {layout : Layout} {before after : State} {outcome : Except Fault (List Value)},
    before.Conforms registry layout → layout.Covers place (registry.callAt item) →
    moment.LeadsWithin registry maxDepth ⟨.eval room scope place item, before⟩ →
    Derives registry maxDepth .free (.eval room scope place item) before outcome after →
    Gives registry maxDepth (.eval room other · item') outcome

section

variable {registry : Registry} {maxDepth room : Nat} {layout : Layout} {state after : State}
  {scope other : Scope} {space : String} {place : Place} {site : CallSite}

/-- Parts give what the parts end with that they match, one after the other. -/
theorem gives_evalEach_of_matches {items items' : List Expr} {index : Nat}
    {outcome : Except Fault (List (List Value))} (hlength : items'.length = items.length)
    (hparts : ∀ (i : Nat) (item item' : Expr), items[i]? = some item → items'[i]? = some item' →
      Moment.Matches registry maxDepth room scope other
        ⟨.evalEach room scope place index items, state⟩ (place.child (index + i)) item item')
    (hconforms : state.Conforms registry layout)
    (hlaid : layout.CoversEach registry place index items)
    (hran : Derives registry maxDepth .free (.evalEach room scope place index items) state outcome
      after) :
    Gives registry maxDepth (.evalEach room other · index items') outcome := by
  induction items generalizing items' index layout state outcome with
  | nil =>
    obtain rfl := List.eq_nil_of_length_eq_zero hlength
    obtain ⟨rfl, -⟩ := hran.isEvaluated
    exact .evalNil
  | cons item items ih =>
    cases items' with
    | nil => cases hlength
    | cons item' items' =>
      have hhead {first : Except Fault (List Value)} {middle : State}
          (hfirst : Derives registry maxDepth .free (.eval room scope (place.child index) item)
            state first middle) : Gives registry maxDepth (.eval room other · item') first :=
        hparts 0 item item' rfl rfl hconforms hlaid.head (.single ⟨.head, id⟩) hfirst
      obtain ⟨_, hfirst, rfl⟩ | ⟨values, middle, rest, hfirst, hrest, rfl⟩ := hran.isEvaluated
      · exact (hhead hfirst).evalFails
      · obtain ⟨newer, hextends, hmiddle⟩ :=
          hfirst.conforms hconforms ⟨_, hlaid.head, hlaid.head, rfl⟩
        refine (hhead hfirst).evalCons
          (ih (Nat.succ.inj hlength) ?_ hmiddle (hlaid.tail.mono hextends) hrest)
        intro i part part' hpart hpart' layout before later ending hbefore hcovers hleads hended
        rw [Nat.add_right_comm, Nat.add_assoc] at hcovers hleads hended
        exact hparts (i + 1) part part' hpart hpart' hbefore hcovers
          (.head ⟨.tail hfirst, id⟩ hleads) hended

/-- One part may be another expression, if the two give the same, and the others may be evaluated
with other variables that agree on what is looked up for them. -/
theorem gives_evalEach_set {items : List Expr} {i : Nat} {e e' : Expr}
    {values : Except Fault (List Value)} {outcome : Except Fault (List (List Value))}
    (hreliable : registry.IsReliable maxDepth) (hi : items[i]? = some e)
    (hgives : Gives registry maxDepth (.eval room scope · e) values)
    (hgives' : Gives registry maxDepth (.eval room other · e') values)
    (hothers : ∀ j item before, j ≠ i →
      Moment.LeadsWithin registry maxDepth ⟨.evalEach room scope place 0 items, state⟩
        ⟨.eval room scope (place.child j) item, before⟩ →
      Moment.AgreesOnLookups registry maxDepth ⟨.eval room scope (place.child j) item, before⟩ other)
    (hconforms : state.Conforms registry layout)
    (hlaid : layout.CoversEach registry place 0 items)
    (hran : Derives registry maxDepth .free (.evalEach room scope place 0 items) state outcome
      after) :
    Gives registry maxDepth (.evalEach room other · 0 (items.set i e')) outcome := by
  refine gives_evalEach_of_matches List.length_set ?_ hconforms hlaid hran
  intro j item item' hitem hitem' layout' before later ending hbefore hcovers hleads hended
  by_cases hj : j = i
  · subst hj
    rw [List.getElem?_set_self (List.getElem?_eq_some_iff.mp hi).1] at hitem'
    obtain rfl : e = item := Option.some.inj (hi.symm.trans hitem)
    obtain rfl : e' = item' := Option.some.inj hitem'
    have hlaid' : (Task.eval room scope (place.child (0 + j)) e).IsLaidOut registry layout' :=
      hcovers
    obtain ⟨_, _, -, -, hsame⟩ := hgives _ hbefore hlaid'
    rwa [(hended.unique hsame).1]
  · rw [List.getElem?_set_ne (Ne.symm hj), hitem] at hitem'
    obtain rfl : item = item' := Option.some.inj hitem'
    rw [Nat.zero_add] at hcovers hleads hended
    have hagrees := hothers j item before hj hleads
    exact (hended.inScope trivial hagrees).gives_eval hreliable.repeats hbefore hcovers

/-- The bundle that a function is run on does not depend on the expressions of its arguments. -/
theorem Bundle.ofBindings_set {bindings : List Binding} {i : Nat} {p : Parameter} {e : Expr}
    (h : bindings[i]? = some ⟨p, e⟩) (e' : Expr) (values : List (List Value)) :
    ofBindings (bindings.set i ⟨p, e'⟩) values = ofBindings bindings values := by
  have hof (bindings : List Binding) : ofBindings bindings values =
      ((bindings.map Binding.parameter).zip values).foldl
        (fun bundle (p, vs) => bundle.insert p.name (if p.single then vs.take 1 else vs)) {} := by
    rw [List.zip_map_left, List.foldl_map]
    rfl
  have hparameters : (bindings.set i ⟨p, e'⟩).map Binding.parameter =
      bindings.map Binding.parameter := by
    have hp : (bindings.map Binding.parameter)[i]? = some p := by
      rw [List.getElem?_map, h]
      rfl
    obtain ⟨hlt, rfl⟩ := List.getElem?_eq_some_iff.mp hp
    rw [List.map_set]
    exact List.set_getElem_self hlt
  rw [hof, hof, hparameters]

/-- A call gives what it ends with, with other variables and with another text for one of its
arguments, if the expressions of the two texts give the same and the variables agree on what is
looked up for the other arguments. -/
theorem Accepts.gives_setText {f : Function} {i : Nat} {p : Parameter} {argument : RawArgument}
    {text : String} {e e' : Expr} {values : Except Fault (List Value)}
    {outcome : Except Fault (Option Returned)}
    (h : Accepts (registry.reader space).parse f.signature.parameters site.arguments i p)
    (hreliable : registry.IsReliable maxDepth)
    (hfound : registry.lookup site.name site.space = some f)
    (hi : site.arguments[i]? = some argument)
    (hfit : fit (registry.reader space).parse p argument = .ok e)
    (hfit' : fit (registry.reader space).parse p { argument with text } = .ok e')
    (hgives : Gives registry maxDepth (.eval room scope · e) values)
    (hgives' : Gives registry maxDepth (.eval room other · e') values)
    (hothers : ∀ name, Moment.LooksUpBeside registry maxDepth
      ⟨.execute room scope space place site, state⟩ place i name → other.get name = scope.get name)
    (hconforms : state.Conforms registry layout)
    (hlaid : layout.Covers place (registry.siteAt space site))
    (hran : Derives registry maxDepth .free (.execute room scope space place site) state outcome
      after) :
    Gives registry maxDepth (.execute room other space · (site.setText i text)) outcome := by
  obtain ⟨hunprepared, hprepare⟩ := h.prepare_setText hfound hi hfit hfit'
  obtain ⟨fault, hprepared, rfl⟩ | ⟨g, bound, middle, hprepared, hrun⟩ := hran.isDerived
  · -- The call cannot be prepared, and for the same reason not with the other text.
    obtain ⟨hfault, -⟩ := hconforms.of_prepare hlaid.here hprepared
    obtain ⟨cause, hcause, rfl⟩ := exists_of_mapError_eq_error hfault.symm
    exact .unprepared (hunprepared cause hcause)
  obtain ⟨hfresh, hg⟩ := hconforms.agrees.prepared hlaid.here hprepared
  obtain ⟨-, hmiddle⟩ := hconforms.of_prepare hlaid.here hprepared
  obtain rfl : f = g := Option.some.inj (hfound.symm.trans hg)
  obtain ⟨hat, bound', hfresh', hbound'⟩ := hprepare bound hfresh
  have hcovers := hlaid.arguments hfresh
  have harguments {values : Except Fault (List (List Value))} {called : State}
      (hvalues : Derives registry maxDepth .free
        (.evalEach room scope place 0 (bound.1.map Binding.expr)) middle values called) :
      Gives registry maxDepth (.evalEach room other · 0 (bound'.1.map Binding.expr)) values := by
    have hexpr : (bound.1.map Binding.expr)[i]? = some e := by
      rw [List.getElem?_map, hat]
      rfl
    rw [hbound', List.map_set]
    refine gives_evalEach_set hreliable hexpr hgives hgives' ?_ hmiddle hcovers hvalues
    intro j item before hj hleads name hname
    exact hothers name ⟨j, _, hj, .head ⟨.arguments hprepared, id⟩ hleads, rfl, hname⟩
  obtain ⟨_, hfails, rfl⟩ | ⟨values, called, result, hvalues, -, hinvoked, rfl⟩ := hrun
  · exact .argumentFails hfresh' (harguments hfails)
  · obtain ⟨_, -, hcalled⟩ := hvalues.conforms hmiddle ⟨_, hcovers, hcovers, rfl⟩
    rw [← Bundle.ofBindings_set hat e', ← hbound'] at hinvoked
    exact .executed hfresh' (harguments hvalues)
      (hinvoked.gives_invoke hreliable.repeats (Registry.mem_of_lookup hfound) hcalled)

end

/-! ## The two calls -/

namespace Session

/-- In a session that can be reached once everything is registered, the state conforms to a layout
of the calls that were made. -/
theorem IsLoaded.exists_layout {space : String} {start session : Session} (h : start.IsLoaded space)
    (hturns : Relation.ReflTransGen (Turn space) start session) :
    ∃ layout, session.state.Conforms start.registry layout ∧ ∀ site ∈ session.sites,
      layout.Covers ⟨site.root, []⟩ (start.registry.siteAt space site.item) := by
  obtain ⟨hregistry, layout, -, hlaid⟩ := h.isLaidOut.turns hturns
  rw [← hregistry]
  exact ⟨layout, hlaid.conforms, hlaid.sites⟩

/-- An argument of a call can be evaluated beforehand and handed on by a variable. Everything is
registered, and functions are deterministic and honour the types that they declare. A call was made;
one of its arguments fits its parameter, whatever becomes of the others. Read where every value is
welcome, the text of this argument ends with the values `us`. Then the call ends as the one does in
which the variable `name` stands for this text, in a context in which it has the values `us`: with
the same result, or the same fault. The variable must not be looked up for the other arguments.

These things may happen at different times: the call is executed in `first`, the one with the
variable in `second`, and the text is evaluated in `third`. -/
theorem naming_a_part_does_not_show (space : String) (start first second third : Session)
    (hstart : start.IsLoaded space) (hfirst : Relation.ReflTransGen (Turn space) start first)
    (hsecond : Relation.ReflTransGen (Turn space) start second)
    (hthird : Relation.ReflTransGen (Turn space) start third)
    (hdeterministic : start.registry.IsDeterministic start.state)
    (hhonest : start.registry.IsHonest start.state) (context : Context)
    (site : Rooted CallSite) (hsite : site ∈ first.sites) (f : Function) (i : Nat)
    (argument : RawArgument) (p : Parameter) (name : String) (us : List Value) (root : Nat)
    (hfound : start.registry.lookup site.item.name site.item.space = some f)
    (hi : site.item.arguments[i]? = some argument)
    (haccepts : Accepts (start.registry.reader space).parse f.signature.parameters
      site.item.arguments i p)
    (hname : Text.isIdentifier name.toList = true)
    (hnamed : ⟨root, site.item.setText i (p.reference name)⟩ ∈ second.sites)
    (hvalues : ((Evaluator.evaluate ⟨start.registry, space, context⟩ argument.text).runIn
      third.state).1 = .ok us)
    (hunread : ¬Evaluator.LooksUpBeside ⟨start.registry, space, context⟩ site first.state i name) :
    ((Evaluator.execute ⟨start.registry, space, context.set name us⟩
      ⟨root, site.item.setText i (p.reference name)⟩).runIn second.state).1 =
        ((Evaluator.execute ⟨start.registry, space, context⟩ site).runIn first.state).1 := by
  obtain ⟨_, hconforms, hcovers⟩ := hstart.exists_layout hfirst
  obtain ⟨_, hconforms', hcovers'⟩ := hstart.exists_layout hsecond
  obtain ⟨_, hconforms'', -⟩ := hstart.exists_layout hthird
  have hreliable := hdeterministic.isReliable hhonest hstart.isLaidOut.conforms context.maxDepth
  -- The text is read in two ways: for the parameter, and where every value is welcome.
  obtain ⟨aimed, haimed⟩ := haccepts.exists_fit hi
  obtain ⟨plain, hplain, haims⟩ :=
    (Reader.parse_any argument.text p.ty).1 aimed (parse_of_fit haimed)
  obtain ⟨-, hthere⟩ := hconforms''.freshRoot (start.registry.callAt plain)
  rw [Evaluator.evaluate, Attempt.runIn_bind_of_ok (Evaluator.runIn_read_of_ok hplain),
    eval_eq_run] at hvalues
  have hus := derives start.registry context.maxDepth
    (.eval (context.maxDepth - context.depth) context.scope ⟨third.state.nextRoot, []⟩ plain)
    { third.state with nextRoot := third.state.nextRoot + 1 }
  rw [hvalues] at hus
  have hone (hsingle : p.single = true) : us.length ≤ 1 :=
    (Reader.isNoted_of_parse hplain).length_le_one
      (haims.single_eq.trans (single_of_fit haimed hsingle)) hreliable hthere Layout.covers_add hus
  -- Both texts give the values, converted for the parameter.
  have hgives := haims.givesConverted hreliable hthere Layout.covers_add hus
  have hgives' := @Gives.referenceExpr start.registry context.maxDepth
    (context.maxDepth - context.depth) p us hone context.scope name
  have hfit' := fit_reference hname (start.registry.reader space) p argument
  -- So the first call is given by the second one, once the other variables are seen to agree.
  have hran := derives start.registry context.maxDepth
    (.execute (context.maxDepth - context.depth) context.scope space ⟨site.root, []⟩ site.item)
    first.state
  have hothers : ∀ other, Evaluator.LooksUpBeside ⟨start.registry, space, context⟩ site first.state
      i other → (context.scope.set name us).get other = context.scope.get other := by
    intro other hlooks
    rw [Scope.get_set, if_neg]
    rintro rfl
    exact hunread hlooks
  have hnew := haccepts.gives_setText hreliable hfound hi haimed hfit' hgives hgives' hothers
    hconforms (hcovers site hsite) hran
  obtain ⟨_, _, -, -, hran'⟩ := hnew ⟨root, []⟩ hconforms' (hcovers' _ hnamed)
  rw [execute_eq_run, execute_eq_run]
  exact (congrArg Prod.fst hran'.runIn_eq).trans rfl

end Session

/-! ## An argument that is given a name -/

/-- A function of a truth value and a list of values, which returns all that it was given. -/
def Function.gather : Function :=
  .ofPure ⟨"", "f", [⟨"x", .boolean, true, false⟩, ⟨"y", .any, false, false⟩], some .any, false⟩
    fun arguments => .ok (arguments.get "x" ++ arguments.get "y")

/-- The call that is written `f(g(), {y::*})`. -/
def gatherCall : CallSite := ⟨"", "f", [⟨none, "g()"⟩, ⟨none, "\x7by::*\x7d"⟩]⟩

/-- How its second argument is bound: with no conversion. -/
def gatherBinding : Binding := ⟨⟨"y", .any, false, false⟩, .reference ⟨"y", true⟩⟩

namespace Session

/-- A session in which `f` and `g` were registered and `f(g(), {y::*})` was made. -/
def gatherSession : Session where
  registry := (({} : Registry).register .gather).register (.constant "g" (.boolean true))
  state := { nextRoot := 1 }
  sites := [⟨0, gatherCall⟩]

theorem isLoaded_gatherSession : gatherSession.IsLoaded "" where
  reached := by
    have hstart : Reached .free {} := .refl
    have hgather := hstart.tail
      (.register (f := .gather) fun x hx => (not_mem_shared x _ hx).elim)
    have hconstant := hgather.tail
      (.register (f := .constant "g" (.boolean true)) fun x hx => (not_mem_shared x _ hx).elim)
    exact hconstant.tail (.make gatherCall)
  unused place := Pins.get_empty place
  shared f hf site hsite single _ := by
    rw [List.mem_singleton.mp hsite]
    rfl

theorem functions_gatherSession :
    gatherSession.registry.functions = [.constant "g" (.boolean true), .gather] := rfl

theorem isDeterministic_gatherSession (state : State) :
    gatherSession.registry.IsDeterministic state := by
  intro f hf maxDepth room arguments random
  rw [functions_gatherSession] at hf
  have hends : f.EndsAtOnce := by
    rcases List.mem_pair.mp hf with rfl | rfl
    · exact fun _ _ => ⟨_, rfl⟩
    · exact Function.endsAtOnce_ofPure _ _
  exact hends.runIn_eq ..

theorem isHonest_gatherSession (state : State) : gatherSession.registry.IsHonest state := by
  intro f hf maxDepth room arguments values hvalues
  rw [functions_gatherSession] at hf
  rcases List.mem_pair.mp hf with rfl | rfl
  · exact honest_of_runIn_constant hvalues
  · intro ty hty
    cases hty
    exact fun hany => absurd rfl hany

theorem fit_plainCall : fit (gatherSession.registry.reader "").parse nestedBinding.parameter
    ⟨none, "g()"⟩ = .ok nestedBinding.expr := by
  have hparse : (gatherSession.registry.reader "").parse "g()" .boolean =
      .ok nestedBinding.expr := by
    rw [Reader.parse, Form.read_nested]
    rfl
  rw [fit, show nestedBinding.parameter.ty = .boolean from rfl, hparse]
  rfl

theorem accepts_gatherCall : Accepts (gatherSession.registry.reader "").parse
    Function.gather.signature.parameters gatherCall.arguments 0 nestedBinding.parameter :=
  .here rfl fit_plainCall

/-- In this session the call can be prepared, and neither argument needs a conversion. -/
theorem exists_prepare_gatherSession : ∃ bound,
    (({} : Pin).prepare gatherSession.registry "" gatherCall).1 = .ok (.gather, bound) ∧
      bound.1 = [nestedBinding, gatherBinding] := by
  have hfit : fit (gatherSession.registry.reader "").parse gatherBinding.parameter
      ⟨none, "\x7by::*\x7d"⟩ = .ok gatherBinding.expr := by
    have hname : Text.isIdentifier "y".toList = true := by decide
    exact fit_reference hname (gatherSession.registry.reader "") gatherBinding.parameter ⟨none, ""⟩
  have hbind : bindArguments (gatherSession.registry.reader "").parse Function.gather.signature
      gatherCall.arguments = .ok [nestedBinding, gatherBinding] := by
    show (fit (gatherSession.registry.reader "").parse nestedBinding.parameter
      ⟨none, "g()"⟩).bind _ = _
    rw [fit_plainCall]
    show ((fit (gatherSession.registry.reader "").parse gatherBinding.parameter
      ⟨none, "\x7by::*\x7d"⟩).bind _).bind _ = _
    rw [hfit]
    rfl
  exact ⟨_, Pin.prepare_eq_ok.mpr ⟨rfl, Edition.bind_of_ok hbind⟩, rfl⟩

/-- The variables with a list to hand on. -/
def gatherContext : Context := (Context.top 256).set "y" [.text "a", .text "b"]

/-- For the second argument only the list is looked up. -/
theorem not_looksUpBeside_gatherCall : ¬Evaluator.LooksUpBeside
    ⟨gatherSession.registry, "", gatherContext⟩ ⟨0, gatherCall⟩ gatherSession.state 0 "x" := by
  intro hlooks
  obtain ⟨f, bound, after, j, b, before, hprepared, hj, hb, hname⟩ := hlooks.exists_binding
  obtain ⟨bound', hfresh, hbound⟩ := exists_prepare_gatherSession
  have hbindings : bound.1 = [nestedBinding, gatherBinding] := by
    obtain ⟨houtcome, -⟩ := runIn_prepare gatherSession.registry "" ⟨0, []⟩ gatherCall
      gatherSession.state
    have hpins : gatherSession.state.pins.get ⟨0, []⟩ = {} := Pins.get_empty _
    rw [hprepared, hpins, hfresh] at houtcome
    cases houtcome
    exact hbound
  rw [hbindings] at hb
  match j, hj, hb with
  | 1, _, hb =>
    obtain rfl : gatherBinding = b := Option.some.inj hb
    have hleaf : Moment.IsLeaf
        ⟨.eval 256 gatherContext.scope ⟨0, [1]⟩ gatherBinding.expr, before⟩ := trivial
    have hread : "x" ∈ ["y"] := (Moment.looksUp_iff_of_isLeaf hleaf _).mp hname
    exact absurd hread (by decide)
  | j + 2, _, hb => cases hb

/-- Executing the call. -/
theorem exists_derives_gatherCall : ∃ after, Derives gatherSession.registry 256 .free
    (.execute (255 + 1) gatherContext.scope "" ⟨0, []⟩ gatherCall) gatherSession.state
    (.ok (some (.list [.boolean true, .text "a", .text "b"]))) after := by
  obtain ⟨bound, hfresh, hbound⟩ := exists_prepare_gatherSession
  have hpins : gatherSession.state.pins.get ⟨0, []⟩ = {} := Pins.get_empty _
  rw [← hpins] at hfresh
  obtain ⟨middle, hprepared, hpin⟩ := exists_runIn_prepare hfresh
  have hunused : middle.pins.get ⟨0, [0]⟩ = {} := by
    rw [hpin.pins_of_ne (by decide)]
    exact Pins.get_empty _
  obtain ⟨called, hcall, -⟩ : ∃ called, Derives gatherSession.registry 256 .free
      (.execute (255 + 1) gatherContext.scope "" ⟨0, [0]⟩ ⟨"", "g", []⟩) middle
        (.ok (some (.single (.boolean true)))) called ∧ _ :=
    exists_derives_constant hunused rfl trivial fun _ => trivial
  have hargument : Derives gatherSession.registry 256 .free
      (.eval (255 + 1) gatherContext.scope ⟨0, [0]⟩ nestedBinding.expr) middle
        ((Except.ok (some (.single (.boolean true)))).map fun r =>
          (r.map Returned.values).getD []) called := .call hcall
  have harguments : Derives gatherSession.registry 256 .free
      (.evalEach (255 + 1) gatherContext.scope ⟨0, []⟩ 0 (bound.1.map Binding.expr)) middle
        (.ok [[.boolean true], [.text "a", .text "b"]]) called := by
    rw [hbound]
    exact .evalCons hargument (.evalCons .reference .evalNil)
  obtain ⟨after, hinvoked⟩ : ∃ after, Derives gatherSession.registry 256 .free
      (.invoke (255 + 1) .gather
        (Bundle.ofBindings bound.1 [[.boolean true], [.text "a", .text "b"]])) called
      (.ok [.boolean true, .text "a", .text "b"]) after := by
    rw [hbound]
    exact ⟨_, .invoked .done fun _ _ => trivial⟩
  exact ⟨_, .executed hprepared harguments trivial hinvoked⟩

/-- The argument `g()` is given the name `x`: the call `f({x}, {y::*})` hands back what
`f(g(), {y::*})` does, the truth value and the list. -/
theorem naming_a_part_does_not_show_gather :
    let first : Evaluator := ⟨gatherSession.registry, "", gatherContext⟩
    let second : Evaluator := ⟨gatherSession.registry, "", gatherContext.set "x" [.boolean true]⟩
    let site : Rooted CallSite := ⟨0, gatherCall⟩
    let named : Rooted CallSite :=
      ⟨1, ⟨"", "f", [⟨none, "\x7bx\x7d"⟩, ⟨none, "\x7by::*\x7d"⟩]⟩⟩
    gatherSession.IsLoaded "" ∧ gatherSession.registry.IsDeterministic gatherSession.state ∧
      gatherSession.registry.IsHonest gatherSession.state ∧
      Accepts (gatherSession.registry.reader "").parse Function.gather.signature.parameters
        gatherCall.arguments 0 ⟨"x", .boolean, true, false⟩ ∧
      ((first.evaluate "g()").runIn gatherSession.state).1 = .ok [.boolean true] ∧
      ¬first.LooksUpBeside site gatherSession.state 0 "x" ∧
      ((first.execute site).runIn gatherSession.state).1 =
        .ok (some (.list [.boolean true, .text "a", .text "b"])) ∧
      ∃ session, Relation.ReflTransGen (Turn "") gatherSession session ∧ named ∈ session.sites ∧
        ((second.execute named).runIn session.state).1 =
          .ok (some (.list [.boolean true, .text "a", .text "b"])) := by
  intro first second site named
  have hvalue : ((first.evaluate "g()").runIn gatherSession.state).1 = .ok [.boolean true] := by
    have hparse : (gatherSession.registry.reader "").parse "g()" .any =
        .ok (.call ⟨"", "g", []⟩ .boolean true) := by
      rw [Reader.parse, Form.read_nested]
      rfl
    obtain ⟨after, hran, -⟩ := @exists_derives_constant gatherSession.registry 256 255 .free
      gatherContext.scope ⟨1, []⟩ { nextRoot := 2 } (.boolean true) (Pins.get_empty _) rfl trivial
      fun _ => trivial
    have hcall := @Derives.call _ _ _ _ _ _ ⟨"", "g", []⟩ .boolean true _ _ _ hran
    rw [Evaluator.evaluate, Attempt.runIn_bind_of_ok (Evaluator.runIn_read_of_ok hparse)]
    exact congrArg Prod.fst hcall.runIn_eq
  obtain ⟨_, hran⟩ := exists_derives_gatherCall
  have hresult : ((first.execute site).runIn gatherSession.state).1 =
      .ok (some (.list [.boolean true, .text "a", .text "b"])) := congrArg Prod.fst hran.runIn_eq
  have hmade : Turn "" gatherSession _ := .make named.item
  have hnamed := naming_a_part_does_not_show "" gatherSession gatherSession _ gatherSession
    isLoaded_gatherSession .refl (.single hmade) .refl (isDeterministic_gatherSession _)
    (isHonest_gatherSession _) gatherContext site (List.mem_singleton_self _) .gather 0
    ⟨none, "g()"⟩ nestedBinding.parameter "x" [.boolean true] 1 rfl rfl accepts_gatherCall
    (by decide) (List.mem_cons_self ..) hvalue not_looksUpBeside_gatherCall
  exact ⟨isLoaded_gatherSession, isDeterministic_gatherSession _, isHonest_gatherSession _,
    accepts_gatherCall, hvalue, not_looksUpBeside_gatherCall, hresult, _, .single hmade,
    List.mem_cons_self .., hnamed.trans hresult⟩

end Session

end CallScript

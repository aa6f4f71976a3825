import CallScript.Proofs.Moments
import CallScript.Proofs.Pool
import CallScript.Proofs.WriteOnce

/-!
# What a function is given

The arguments of a call are bound once. Afterwards functions may be registered and replaced, and a
call that was unknown when it was read, and so was taken for one value, may come to return many.
All the same, whenever a function is about to be run it is given what its own signature asks for and
what the call writes (`Session.arguments_well_formed`):

* each written argument supplies one parameter, in the order in which they are written, and these
  are different ones;
* a parameter for one value gets the first value of its expression, any other gets all of them;
* every required parameter is there, and no optional one that no argument claims.

`Bundle.Supplies` says this of a bundle. Two things are behind it. A call site remembers how its
arguments were bound only together with the function they were bound for, at every moment of every
evaluation (`Session.ComesTo.isTyped`); and names tell bound parameters apart, so that each setting
of a parameter in `Bundle.ofBindings` adds one at the end (`Bundle.entries_ofBindings`).
-/

namespace CallScript

/-! ## From bindings to bundles -/

/-- What is given to a function for a bound argument with these values. -/
def Binding.entry (b : Binding) (values : List Value) : String × List Value :=
  (b.parameter.name, if b.parameter.single then values.take 1 else values)

namespace Bundle

/-- A parameter that is not there yet is added at the end. -/
theorem entries_insert {bundle : Bundle} {name : String} (h : name ∉ bundle.names)
    (values : List Value) :
    (bundle.insert name values).entries = bundle.entries ++ [(name, values)] := by
  have hnone : ¬(bundle.entries.any fun entry => entry.1 = name) = true :=
    fun hany => h (contains_iff.mp hany)
  rw [insert, if_neg hnone]

/-- Arguments for different parameters are set in order, and none takes the place of another. -/
theorem entries_ofBindings {bindings : List Binding} {values : List (List Value)}
    (distinct : (bindings.map fun b => b.parameter.name).Nodup) :
    (ofBindings bindings values).entries = List.zipWith Binding.entry bindings values := by
  -- What is set later has names that are not there yet.
  have hfold (bundle : Bundle) (hfresh : ∀ b ∈ bindings, b.parameter.name ∉ bundle.names) :
      ((bindings.zip values).foldl (fun bundle part => bundle.insert part.1.parameter.name
        (if part.1.parameter.single then part.2.take 1 else part.2)) bundle).entries =
          bundle.entries ++ List.zipWith Binding.entry bindings values := by
    induction bindings generalizing values bundle with
    | nil => simp
    | cons b bindings ih =>
      cases values with
      | nil => simp
      | cons vs values =>
        obtain ⟨hnot, hrest⟩ := List.nodup_cons.mp distinct
        have hfirst := hfresh b (List.mem_cons_self ..)
        rw [List.zip_cons_cons, List.foldl_cons, ih hrest, entries_insert hfirst,
          List.append_assoc, List.zipWith_cons_cons, List.singleton_append, Binding.entry]
        intro other hother hin
        rw [names_insert, if_neg hfirst] at hin
        rcases List.mem_append.mp hin with hin | hin
        · exact hfresh other (List.mem_cons_of_mem _ hother) hin
        · exact hnot (List.mem_map.mpr ⟨other, hother, List.mem_singleton.mp hin⟩)
  exact hfold {} fun _ _ => List.not_mem_nil

/-- Whether a bundle is what the arguments that a call writes come to, for a function with these
parameters. `yields i e values` says that the expression of the argument at position `i` was
evaluated to these values. -/
structure Supplies (parse : String → Ty → Except ParseFailure Expr) (parameters : List Parameter)
    (written : List RawArgument) (yields : Nat → Expr → List Value → Prop) (bundle : Bundle) :
    Prop where
  distinct : bundle.names.Nodup
  declared : ∀ name ∈ bundle.names, ∃ p ∈ parameters, p.name = name
  required : ∀ p ∈ parameters, p.optional = false → p.name ∈ bundle.names
  /-- A parameter is there exactly if an argument claims it. -/
  claimed : ∀ p ∈ parameters,
    (p.name ∈ bundle.names ↔ ∃ i < written.length, Claims parameters written i p)
  size : bundle.size = written.length
  /-- The entries are those of the arguments, in the order in which these are written. -/
  entry : ∀ i argument, written[i]? = some argument → ∃ p e values,
    Claims parameters written i p ∧ parse argument.text p.ty = .ok e ∧ yields i e values ∧
    bundle.entries[i]? = some (p.name, if p.single then values.take 1 else values) ∧
    bundle.get p.name = if p.single then values.take 1 else values
  single : ∀ p ∈ parameters, p.single = true → (bundle.get p.name).length ≤ 1

/-- Names tell the entries of a bundle apart. -/
theorem get_eq_of_mem {bundle : Bundle} (distinct : bundle.names.Nodup)
    {entry : String × List Value} (h : entry ∈ bundle.entries) : bundle.get entry.1 = entry.2 := by
  rw [get]
  split
  · next other hother =>
    have hname : other.1 = entry.1 := by simpa using List.find?_some hother
    rw [List.inj_on_of_nodup_map distinct (List.mem_of_find?_eq_some hother) h hname]
  · next hnone => exact absurd (List.find?_eq_none.mp hnone entry h) (by simp)

theorem get_eq_nil {bundle : Bundle} {name : String} (h : name ∉ bundle.names) :
    bundle.get name = [] := by
  rw [get]
  split
  · next entry hentry =>
    have hname : entry.1 = name := by simpa using List.find?_some hentry
    exact absurd (List.mem_map.mpr ⟨entry, List.mem_of_find?_eq_some hentry, hname⟩) h
  · rfl

section

variable {parse : String → Ty → Except ParseFailure Expr} {parameters : List Parameter}
  {written : List RawArgument} {yields : Nat → Expr → List Value → Prop} {bindings : List Binding}
  {values : List (List Value)}

/-- Every bound argument has an entry, under the name of its parameter. -/
theorem names_ofBindings (distinct : (bindings.map fun b => b.parameter.name).Nodup)
    (hlength : values.length = bindings.length) :
    (ofBindings bindings values).names = bindings.map fun b => b.parameter.name := by
  let name (b : Binding) := b.parameter.name
  calc (ofBindings bindings values).names
    _ = List.zipWith (fun b vs => (b.entry vs).1) bindings values := by
      rw [names, entries_ofBindings distinct, List.map_zipWith]
    _ = (bindings.zip values).map (name ∘ Prod.fst) := by
      rw [List.map_zip_eq_zipWith]
      rfl
    _ = ((bindings.zip values).map Prod.fst).map name := List.map_map.symm
    _ = bindings.map name := by rw [List.map_fst_zip (Nat.le_of_eq hlength.symm)]

/-- Bound arguments and their values supply what the call writes. -/
theorem supplies_ofBindings (distinct : (parameters.map Parameter.name).Nodup)
    (hbind : bindFrom parse parameters written = .ok bindings)
    (hlength : values.length = bindings.length)
    (hyields : ∀ (i : Nat) (b : Binding) (vs : List Value), bindings[i]? = some b →
      values[i]? = some vs → yields i b.expr vs) :
    (ofBindings bindings values).Supplies parse parameters written yields := by
  obtain ⟨hwritten, hfits, hmissing⟩ := (bindFrom_eq_ok_iff distinct).mp hbind
  have hnodup := nodup_of_fits distinct hfits
  have hentries : (ofBindings bindings values).entries =
      List.zipWith Binding.entry bindings values := entries_ofBindings hnodup
  have hnames := names_ofBindings hnodup hlength
  have hdistinct : (ofBindings bindings values).names.Nodup := hnames ▸ hnodup
  have hentry (i : Nat) (argument : RawArgument) (hi : written[i]? = some argument) :
      ∃ p e vs, Claims parameters written i p ∧ parse argument.text p.ty = .ok e ∧ yields i e vs ∧
        (ofBindings bindings values).entries[i]? =
          some (p.name, if p.single then vs.take 1 else vs) ∧
        (ofBindings bindings values).get p.name = if p.single then vs.take 1 else vs := by
    have hlt : i < bindings.length := hwritten ▸ (List.getElem?_eq_some_iff.mp hi).1
    have hb := List.getElem?_eq_getElem hlt
    have hvs := List.getElem?_eq_getElem (hlength.symm ▸ hlt)
    obtain ⟨argument', hargument, hclaims, hparse, -⟩ := hfits i _ hb
    rw [hi] at hargument
    cases hargument
    have hat : (ofBindings bindings values).entries[i]? = some (bindings[i].entry values[i]) := by
      rw [hentries]
      exact List.getElem?_zipWith_eq_some.mpr ⟨_, _, hb, hvs, rfl⟩
    exact ⟨_, _, _, hclaims, hparse, hyields i _ _ hb hvs, hat,
      get_eq_of_mem hdistinct (List.mem_of_getElem? hat)⟩
  have hclaimed (p : Parameter) (hp : p ∈ parameters) :
      p.name ∈ (ofBindings bindings values).names ↔
        ∃ i < written.length, Claims parameters written i p := by
    rw [hnames]
    constructor
    · intro hname
      obtain ⟨b, hb, hname⟩ := List.mem_map.mp hname
      obtain ⟨i, hi⟩ := List.mem_iff_getElem?.mp hb
      obtain ⟨-, -, hclaims, -⟩ := hfits i b hi
      rw [eq_of_name distinct (mem_of_claimAt hclaims.1) hp hname] at hclaims
      exact ⟨i, hwritten ▸ (List.getElem?_eq_some_iff.mp hi).1, hclaims⟩
    · rintro ⟨i, hi, hclaims⟩
      have hlt : i < bindings.length := hwritten.symm ▸ hi
      obtain ⟨-, -, hclaims', -⟩ := hfits i _ (List.getElem?_eq_getElem hlt)
      rw [hclaims.unique hclaims']
      exact List.mem_map.mpr ⟨_, List.getElem_mem hlt, rfl⟩
  refine ⟨hdistinct, ?_, ?_, hclaimed, ?_, hentry, ?_⟩
  · intro name hname
    rw [hnames] at hname
    obtain ⟨b, hb, rfl⟩ := List.mem_map.mp hname
    exact ⟨b.parameter, mem_of_bindFrom hbind b hb, rfl⟩
  · intro p hp hrequired
    obtain ⟨b, hb, rfl⟩ := List.mem_map.mp (mem_of_required hwritten hfits hmissing hp hrequired)
    rw [hnames]
    exact List.mem_map.mpr ⟨b, hb, rfl⟩
  · rw [size, hentries, List.length_zipWith, hlength, Nat.min_self, hwritten]
  · intro p hp hsingle
    by_cases hname : p.name ∈ (ofBindings bindings values).names
    · obtain ⟨i, hi, hclaims⟩ := (hclaimed p hp).mp hname
      obtain ⟨q, _, vs, hclaims', -, -, -, hget⟩ := hentry i _ (List.getElem?_eq_getElem hi)
      rw [hclaims'.unique hclaims, hsingle, if_pos rfl] at hget
      rw [hget]
      exact List.length_take_le ..
    · rw [get_eq_nil hname]
      exact Nat.zero_le 1

end

end Bundle

/-! ## The arguments of runs -/

namespace Session

/-- Whenever a function is about to be run, its arguments are well formed. For any session that can
be reached, by registering and replacing functions, reading texts, making calls, and resolving,
preparing, checking, executing and evaluating them in any order:

* at every moment at which a function is about to be run, whose parameters have different names, a
  call is being executed that remembers this function, and that its arguments were bound for its
  signature; and the arguments supply what the call writes, with the values to which the expressions
  of its arguments were evaluated in the context of the call;
* every run in the history was begun at such a moment, in this session or an earlier one. -/
theorem arguments_well_formed (session : Session) (hreached : Reached .free session) :
    (∀ maxDepth room f arguments called,
      session.ComesTo maxDepth ⟨.invoke room f arguments, called⟩ →
      (f.signature.parameters.map Parameter.name).Nodup →
      ∃ (scope : Scope) (space : String) (place : Place) (site : CallSite) (state : State)
        (edition : Edition),
        let executed : Moment := ⟨.execute room scope space place site, state⟩
        session.ComesTo maxDepth executed ∧
        Moment.Next session.registry maxDepth executed ⟨.invoke room f arguments, called⟩ ∧
        called.pins.get place = ⟨some f, some edition⟩ ∧ edition.signature = f.signature ∧
        arguments.Supplies edition.reader.parse f.signature.parameters site.arguments
          fun i e values => ∃ before after,
            Moment.LeadsTo session.registry maxDepth executed
              ⟨.eval room scope (place.child i) e, before⟩ ∧
            Derives session.registry maxDepth .free (.eval room scope (place.child i) e) before
              (.ok values) after) ∧
    ∀ run earlier, run :: earlier <:+ session.state.history →
      ∃ before, Reached .free before ∧ Relation.ReflTransGen (Step .free) before session ∧
        before.ComesToRun run earlier := by
  refine ⟨?_, fun run earlier hrun => hreached.exists_moment hrun⟩
  intro maxDepth room f arguments called hmoment distinct
  obtain ⟨scope, space, place, site, state, bound, middle, values, hcomes, hprepared, harguments,
    rfl⟩ := hmoment.under_free.exists_execute
  have hmatched : (state.pins.get place).IsMatched :=
    (hcomes.comesTo.isTyped hreached).state.matched place
  obtain ⟨hpure, hpin⟩ := prepare_of_runIn_ok hprepared
  obtain ⟨edition, hedition, hsignature, hbind⟩ := hmatched.exists_edition hpure
  -- What the call site remembers when it is prepared it still remembers when the function is run.
  rw [← hpin.pins_self] at hedition
  have hremembered : middle.pins.get place = ⟨some f, some edition⟩ := by
    rw [← callee_of_prepare hprepared, ← hedition]
  have hbindings : bindFrom edition.reader.parse f.signature.parameters site.arguments =
      .ok bound.1 := hsignature ▸ Edition.bindArguments_of_bind hbind
  obtain ⟨hlength, heach⟩ := harguments.exists_eval
  rw [List.length_map] at hlength
  refine ⟨scope, space, place, site, state, edition, hcomes.comesTo, .run hprepared harguments,
    harguments.extends.pin_eq hremembered, hsignature,
    Bundle.supplies_ofBindings distinct hbindings hlength ?_⟩
  intro i b vs hb hvs
  obtain ⟨vs', before, after, hvs', hleads, hran⟩ := heach i b.expr (by simp [hb])
  rw [hvs] at hvs'
  cases hvs'
  rw [Nat.zero_add] at hleads hran
  exact ⟨before, after, .head (.arguments hprepared) hleads, hran⟩

end Session

/-! ## A call that turns out to return a list -/

/-- A function that returns a list of two truth values. -/
def Function.flags (name : String) : Function :=
  .simple ⟨"", name, [], some .boolean, false⟩ fun _ _ =>
    .done (.ok [.boolean true, .boolean false])

/-- How the argument of `f(g())` is bound while no function goes by the name `g`: the call is taken
for one value, and converted. -/
def unknownBinding : Binding :=
  ⟨⟨"x", .boolean, true, false⟩, .converted (.call ⟨"", "g", []⟩ .any true) .boolean⟩

theorem exists_prepare_unknown {registry : Registry}
    (hf : registry.lookup "f" "" = some (.sink "f")) (hg : registry.lookup "g" "" = none) : ∃ bound,
      (({} : Pin).prepare registry "" nestedCall).1 = .ok (.sink "f", bound) ∧
        bound.1 = [unknownBinding] := by
  have hparse : (registry.reader "").parse "g()" .boolean = .ok unknownBinding.expr := by
    have hnone : (registry.reader "").signature? "g" = none := Option.map_eq_none_iff.mpr hg
    rw [Reader.parse, Form.read_nested, Reader.type, Reader.typeCall, hnone]
    rfl
  have hfit : fit (registry.reader "").parse unknownBinding.parameter ⟨none, "g()"⟩ =
      .ok unknownBinding.expr := by
    rw [fit, show unknownBinding.parameter.ty = .boolean from rfl, hparse]
    rfl
  have hbind : bindArguments (registry.reader "").parse (Function.sink "f").signature
      nestedCall.arguments = .ok [unknownBinding] := by
    show (fit (registry.reader "").parse unknownBinding.parameter ⟨none, "g()"⟩).bind _ = _
    rw [hfit]
    rfl
  exact ⟨_, Pin.prepare_eq_ok.mpr ⟨hf, Edition.bind_of_ok hbind⟩, rfl⟩

namespace Session

/-- A session in which `f` was registered and `f(g())` was made. -/
def unknownSession : Session where
  registry := ({} : Registry).register (.sink "f")
  state := { nextRoot := 1 }
  sites := [⟨0, nestedCall⟩]

/-- The call may be prepared before anything else happens. -/
theorem exists_prepared_unknownSession : ∃ prepared,
    Reached .free (unknownSession.moved prepared) ∧ unknownSession.state.Repinned ⟨0, []⟩
      (({} : Pin).prepare unknownSession.registry "" nestedCall).2 prepared := by
  have hregistered : Reached .free _ := Relation.ReflTransGen.refl.tail
    (.register (f := .sink "f") fun x hx => (not_mem_shared x _ hx).elim)
  have hpin := of_runIn_prepare ⟨unknownSession.registry, "", .top 256⟩ ⟨0, nestedCall⟩
    unknownSession.state
  have hstep := @Step.prepare .free unknownSession ⟨0, nestedCall⟩ "" (.top 256)
    (List.mem_singleton_self _)
  rw [unknownSession, Pins.get_empty] at hpin
  exact ⟨_, (hregistered.tail (.make nestedCall)).tail hstep, hpin⟩

/-- The call `f(g())` is prepared before there is a function `g`, and executed when there is one
that returns two values: `f` is given the first of them. -/
theorem arguments_well_formed_truncated :
    ∃ session called, Reached .free session ∧
      session.ComesTo 256 ⟨.invoke 256 (.sink "f") ⟨[("x", [.boolean true])]⟩, called⟩ ∧
      ((Function.sink "f").signature.parameters.map Parameter.name).Nodup ∧
      ∃ parse written yields, Bundle.Supplies parse (Function.sink "f").signature.parameters written
        yields ⟨[("x", [.boolean true])]⟩ := by
  obtain ⟨bound, hpure, hbound⟩ : ∃ bound,
      (({} : Pin).prepare unknownSession.registry "" nestedCall).1 = .ok (.sink "f", bound) ∧
        bound.1 = [unknownBinding] := exists_prepare_unknown rfl rfl
  obtain ⟨prepared, hprepared, hpin⟩ := exists_prepared_unknownSession
  have hreached := hprepared.tail
    (.register (f := .flags "g") fun x hx => (not_mem_shared x _ hx).elim)
  let registry := unknownSession.registry.register (.flags "g")
  -- The call remembers how its argument was bound, and `g` is found now.
  obtain ⟨middle, hagain, hunused⟩ : ∃ middle,
      (nestedCall.prepare registry "" ⟨0, []⟩).runIn prepared = (.ok (.sink "f", bound), middle) ∧
        middle.pins.get ⟨0, [0]⟩ = {} := by
    have hsame : ((prepared.pins.get ⟨0, []⟩).prepare registry "" nestedCall).1 =
        .ok (.sink "f", bound) := hpin.pins_self ▸ Pin.prepare_again registry hpure
    obtain ⟨middle, hrun, hmiddle⟩ := exists_runIn_prepare hsame
    refine ⟨middle, hrun, ?_⟩
    rw [hmiddle.pins_of_ne (by decide), hpin.pins_of_ne (by decide)]
    exact Pins.get_empty _
  obtain ⟨called, hcall, -⟩ : ∃ called, Derives registry 256 .free
      (.execute (255 + 1) Scope.empty "" ⟨0, [0]⟩ ⟨"", "g", []⟩) middle
        (.ok (some (.list [.boolean true, .boolean false]))) called ∧
      (called.pins.get ⟨0, [0]⟩).callee = some (.flags "g") :=
    exists_derives_plainCall (f := .flags "g") [.boolean true, .boolean false] hunused rfl rfl
      (fun _ => trivial) fun _ _ => ⟨_, .invoked .done fun _ _ => trivial⟩
  have hargument := @Derives.converted _ _ _ _ _ _ _ .boolean _ _ _
    (@Derives.call _ _ _ _ _ _ ⟨"", "g", []⟩ .any true _ _ _ hcall)
  have harguments : Derives registry 256 .free
      (.evalEach 256 Scope.empty ⟨0, []⟩ 0 (bound.1.map Binding.expr)) middle
        (.ok [[.boolean true, .boolean false]]) called := by
    rw [hbound]
    exact .evalCons hargument .evalNil
  have hnext := Moment.Next.run hagain harguments
  rw [hbound] at hnext
  have hbegins := @Begins.execute
    { (unknownSession.moved prepared) with registry } ⟨0, nestedCall⟩ "" (.top 256)
    (List.mem_singleton_self _)
  have hcomes : ComesTo _ 256 _ := ⟨_, hbegins, .single hnext⟩
  obtain ⟨hruns, -⟩ := arguments_well_formed _ hreached
  obtain ⟨_, _, _, site, _, edition, -, -, -, -, hsupplies⟩ := hruns _ _ _ _ _ hcomes (by decide)
  exact ⟨_, called, hreached, hcomes, by decide, _, _, _, hsupplies⟩

end Session

end CallScript

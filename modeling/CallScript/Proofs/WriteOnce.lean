import CallScript.Proofs.ArgumentTypes

/-!
# A call site keeps what it finds first

A call site has two memories, one for the function it calls and one for the way its arguments were
bound. This module follows them through any sequence of actions at one call site: functions are
registered or replaced, the call is resolved, bound to a signature, prepared or executed, in any
order, in any space and context, and each time with the functions that are registered by then.

What the two memories hold afterwards is said without them. An action *searches* for the function
if it resolves, prepares or executes the call, and `foundAt` is what it finds among the functions of
its moment; an action *binds* the arguments to a signature that is given, or to that of the function
that is known by then, and `boundAt` is what this gives, if it succeeds. Then the function that is
remembered is the first one found, and the bindings that are remembered are the first ones that were
made; everything that comes later, registrations and failures included, leaves them as they are
(`call_site_keeps_first`).

One equation for all actions carries this: both memories are changed by filling what is empty
(`pin_perform`), so each holds the first value that was offered to it (`eq_findSome?_range`). What
an execution does after it has prepared the call changes neither, because both are filled by then
(`Derives.pin_execute`).
-/

namespace CallScript

/-- What may be done at one call site, or to the functions it may find. -/
inductive SiteAction where
  /-- A function is registered, or put in the place of one of its name. -/
  | register (f : Function)
  /-- The function of the call is searched for. -/
  | resolve
  /-- The arguments are bound to a signature, with their texts read in a space. -/
  | bind (space : String) (signature : Signature)
  /-- The call is prepared, with the texts of its arguments read in a space. -/
  | prepare (space : String)
  /-- The call is executed in a context. -/
  | execute (space : String) (context : Context)

/-- The functions and the state of evaluation at some moment. -/
structure Stage where
  registry : Registry
  state : State

namespace SiteAction

/-- The functions that are registered after an action. -/
def registered (registry : Registry) : SiteAction → Registry
  | register f => registry.register f
  | _ => registry

/-- The function that an action finds, if it searches for one: that of the space of the call, or
else the global one. -/
def found (registry : Registry) (site : CallSite) : SiteAction → Option Function
  | resolve | prepare _ | execute _ _ =>
    (registry.get? site.space site.name).or (registry.get? "" site.name)
  | _ => none

/-- What an action binds the arguments against, if it comes to that: a signature that is given, or
the one of the function that is known by then. -/
def edition (registry : Registry) (known : Option Function) : SiteAction → Option Edition
  | bind space signature => some ⟨signature, registry.reader space⟩
  | prepare space | execute space _ => known.map fun f => ⟨f.signature, registry.reader space⟩
  | _ => none

/-- What an action at a call site leads to. -/
def perform (place : Place) (site : CallSite) (stage : Stage) (action : SiteAction) : Stage where
  registry := action.registered stage.registry
  state :=
    match action with
    | register _ => stage.state
    | resolve => ((site.resolve stage.registry place).runIn stage.state).2
    | bind space signature =>
      ((site.bind ⟨signature, stage.registry.reader space⟩ place).runIn stage.state).2
    | prepare space => ((site.prepare stage.registry space place).runIn stage.state).2
    | execute space context =>
      (((stage.registry.host context).execute context.scope space place site).runIn stage.state).2

end SiteAction

/-- What the arguments of a call site are bound to in an edition, if they can be bound. -/
def Edition.bindings? (site : CallSite) (edition : Edition) : Option (List Binding) :=
  (bindArguments edition.reader.parse edition.signature site.arguments).toOption

/-- The bindings that a call site remembers. -/
def Pin.bindings? (site : CallSite) (pin : Pin) : Option (List Binding) :=
  pin.edition.bind (Edition.bindings? site)

/-! ## What the actions find and bind -/

section

variable (registry : Registry) (site : CallSite) (actions : List SiteAction) (i : Nat)

/-- The functions that are registered after the first `i` actions. -/
def registryAt : Registry := (actions.take i).foldl SiteAction.registered registry

/-- The function that the action at a position finds, if it searches for one. -/
def foundAt : Option Function :=
  actions[i]?.bind (SiteAction.found (registryAt registry actions i) site)

/-- The first function that one of the first `i` actions finds. -/
def knownAt : Option Function := (List.range i).findSome? (foundAt registry site actions)

/-- What the action at a position binds the arguments against, if it comes to that. -/
def editionAt : Option Edition :=
  actions[i]?.bind
    (SiteAction.edition (registryAt registry actions i) (knownAt registry site actions (i + 1)))

/-- What the action at a position binds the arguments to, if it comes to that and succeeds. -/
def boundAt : Option (List Binding) :=
  (editionAt registry site actions i).bind (Edition.bindings? site)

end

/-! ## Cells that are filled once -/

section

variable {α β : Type} {offer : Nat → Option α}

/-- A cell that is filled when it is empty holds the first value that was offered to it. -/
theorem eq_findSome?_range (cell : Nat → Option α) (hstart : cell 0 = none)
    (hstep : ∀ i, cell (i + 1) = (cell i).or (offer i)) (k : Nat) :
    cell k = (List.range k).findSome? offer := by
  induction k with
  | zero => exact hstart
  | succ k ih => rw [hstep, ih, List.range_succ, List.findSome?_append]; simp

/-- The first value that was offered is the one that no other came before. -/
theorem findSome?_range_eq_some {k : Nat} {a : α} :
    (List.range k).findSome? offer = some a ↔
      ∃ i < k, offer i = some a ∧ ∀ j < i, offer j = none := by
  induction k with
  | zero => simp
  | succ k ih =>
    rw [List.range_succ, List.findSome?_append]
    cases hfirst : (List.range k).findSome? offer with
    | some b =>
      rw [hfirst] at ih
      rw [Option.some_or, ih]
      constructor
      · rintro ⟨i, hi, hoffer⟩
        exact ⟨i, Nat.lt_succ_of_lt hi, hoffer⟩
      · rintro ⟨i, hi, hoffer, hbefore⟩
        refine ⟨i, Nat.lt_of_not_le fun hle => ?_, hoffer, hbefore⟩
        -- Otherwise all of the first `k` offers were empty.
        have hnone : (List.range k).findSome? offer = none :=
          List.findSome?_eq_none_iff.mpr fun j hj =>
            hbefore j (Nat.lt_of_lt_of_le (List.mem_range.mp hj) hle)
        rw [hnone] at hfirst
        cases hfirst
    | none =>
      rw [Option.none_or]
      have hempty : ∀ j < k, offer j = none := fun j hj =>
        List.findSome?_eq_none_iff.mp hfirst j (List.mem_range.mpr hj)
      constructor
      · intro h
        exact ⟨k, Nat.lt_succ_self k, by simpa using h, hempty⟩
      · rintro ⟨i, hi, hoffer, -⟩
        rcases Nat.lt_succ_iff_lt_or_eq.mp hi with hlt | rfl
        · rw [hempty i hlt] at hoffer
          cases hoffer
        · simpa using hoffer

/-- What is made of the first value that something can be made of. -/
theorem findSome?_filter_bind (make : α → Option β) (positions : List Nat) :
    (positions.findSome? fun i => (offer i).filter fun a => (make a).isSome).bind make =
      positions.findSome? fun i => (offer i).bind make := by
  induction positions with
  | nil => rfl
  | cons i positions ih =>
    rw [List.findSome?_cons, List.findSome?_cons]
    cases hoffer : offer i with
    | none => exact ih
    | some a =>
      rw [Option.filter_some, Option.bind_some]
      cases hmake : make a with
      | none => exact ih
      | some b => exact hmake

end

/-! ## What one action does to the two memories -/

theorem Registry.lookup_eq_or (registry : Registry) (name space : String) :
    registry.lookup name space = (registry.get? space name).or (registry.get? "" name) := by
  rw [lookup]
  cases registry.get? space name <;> rfl

theorem State.Extends.pin_eq {state after : State} {place : Place} {f : Function}
    {edition : Edition} (h : state.Extends after)
    (hpin : state.pins.get place = ⟨some f, some edition⟩) :
    after.pins.get place = ⟨some f, some edition⟩ := by
  have hcallee := h.callee place f (by rw [hpin])
  have hedition := h.edition place edition (by rw [hpin])
  cases hafter : after.pins.get place with
  | mk callee edition' =>
    rw [hafter] at hcallee hedition
    rw [show callee = some f from hcallee, show edition' = some edition from hedition]

variable {registry : Registry} {space : String} {place : Place} {site : CallSite}

/-- A call that was prepared has both memories filled. -/
theorem Pin.prepare_of_ok {pin : Pin} {f : Function} {bound : Bound site}
    (h : (pin.prepare registry space site).1 = .ok (f, bound)) :
    (pin.prepare registry space site).2 =
      ⟨some f, some (pin.edition.getD ⟨f.signature, registry.reader space⟩)⟩ := by
  obtain ⟨hfound, hbind⟩ := Pin.prepare_eq_ok.mp h
  rw [Pin.prepare, hfound]
  dsimp only
  rw [hbind]

/-- Whether a task executes a call, with the texts of its arguments read in a space. -/
def Task.Executes (space : String) (place : Place) (site : CallSite) : {α : Type} → Task α → Prop
  | _, execute _ _ space' place' site' => space' = space ∧ place' = place ∧ site' = site
  | _, _ => False

/-- An execution does nothing to the memory of its call site but what preparing the call does. -/
theorem Derives.pin_execute {maxDepth : Nat} {law : Law} {α : Type} {task : Task α}
    {state after : State} {outcome : Except Fault α}
    (h : Derives registry maxDepth law task state outcome after)
    (htask : task.Executes space place site) :
    after.pins.get place = ((state.pins.get place).prepare registry space site).2 := by
  cases h with
  | unprepared prepared =>
    obtain ⟨rfl, rfl, rfl⟩ := htask
    obtain ⟨-, -, -, hpin⟩ := prepare_of_runIn_error prepared
    exact hpin.pins_self
  | argumentFails prepared arguments =>
    obtain ⟨rfl, rfl, rfl⟩ := htask
    obtain ⟨hok, hpin⟩ := prepare_of_runIn_ok prepared
    rw [Pin.prepare_of_ok hok] at hpin ⊢
    exact arguments.extends.pin_eq hpin.pins_self
  | executed prepared arguments _ invoked =>
    obtain ⟨rfl, rfl, rfl⟩ := htask
    obtain ⟨hok, hpin⟩ := prepare_of_runIn_ok prepared
    rw [Pin.prepare_of_ok hok] at hpin ⊢
    exact (arguments.extends.trans invoked.extends).pin_eq hpin.pins_self
  | _ => exact htask.elim

theorem Edition.bindings?_eq (edition : Edition) (site : CallSite) :
    edition.bindings? site = (edition.bind site).toOption.map Subtype.val := by
  cases hbind : bindArguments edition.reader.parse edition.signature site.arguments with
  | error cause => rw [bindings?, hbind, Edition.bind_of_error hbind]; rfl
  | ok bindings => rw [bindings?, hbind, Edition.bind_of_ok hbind]; rfl

/-- What is in a memory stays there, and an empty one is filled with what can be bound. -/
theorem Edition.or_filter (known : Option Edition) (edition : Edition) :
    known.or ((some edition).filter fun e => (e.bindings? site).isSome) =
      match (known.getD edition).bind site with
      | .ok _ => some (known.getD edition)
      | .error _ => known := by
  cases known with
  | some known => cases h : known.bind site <;> simp [h]
  | none =>
    rw [Option.filter_some, bindings?_eq, Option.getD_none, Option.none_or]
    cases edition.bind site <;> rfl

/-- Preparing a call fills both memories, as far as something is found and bound. -/
theorem Pin.prepare_eq (pin : Pin) :
    (pin.prepare registry space site).2 =
      ⟨pin.callee.or (registry.lookup site.name site.space),
        pin.edition.or (((pin.callee.or (registry.lookup site.name site.space)).map fun f =>
          ⟨f.signature, registry.reader space⟩).filter fun e => (e.bindings? site).isSome)⟩ := by
  rw [Pin.prepare]
  cases hfound : pin.callee.or (registry.lookup site.name site.space) with
  | none =>
    obtain ⟨hcallee, -⟩ := Option.or_eq_none_iff.mp hfound
    cases pin
    simp_all
  | some f =>
    rw [Option.map_some, Edition.or_filter]
    dsimp only
    split <;> next hbind => simp only [hbind]

/-- What an action does to the two memories of its call site: what is empty is filled. -/
theorem pin_perform (stage : Stage) (action : SiteAction) :
    (action.perform place site stage).state.pins.get place =
      ⟨(stage.state.pins.get place).callee.or (action.found stage.registry site),
        (stage.state.pins.get place).edition.or
          ((action.edition stage.registry
            ((stage.state.pins.get place).callee.or (action.found stage.registry site))).filter
              fun e => (e.bindings? site).isSome)⟩ := by
  cases action with
  | register f => simp [SiteAction.perform, SiteAction.found, SiteAction.edition]
  | resolve =>
    have hresolve := runIn_resolve stage.registry place site stage.state
    simp only [SiteAction.perform, SiteAction.found, SiteAction.edition, Option.filter_none,
      Option.or_none, ← Registry.lookup_eq_or]
    cases hfound : (stage.state.pins.get place).callee.or
        (stage.registry.lookup site.name site.space) with
    | none =>
      rw [hfound] at hresolve
      rw [hresolve, ← (Option.or_eq_none_iff.mp hfound).1]
    | some f =>
      rw [hfound] at hresolve
      obtain ⟨after, hrun, hpin⟩ := hresolve
      rw [hrun, hpin.pins_self]
  | bind space signature =>
    have hbind := runIn_bind place site ⟨signature, stage.registry.reader space⟩ stage.state
    simp only [SiteAction.perform, SiteAction.found, SiteAction.edition, Option.or_none]
    rw [Edition.or_filter]
    split at hbind
    · next hnone =>
      rw [hbind, hnone]
    · next bound hbound =>
      obtain ⟨after, hrun, hpin⟩ := hbind
      rw [hrun, hpin.pins_self, hbound]
  | prepare space =>
    obtain ⟨-, hpin⟩ := runIn_prepare stage.registry space place site stage.state
    simp only [SiteAction.perform, SiteAction.found, SiteAction.edition, ← Registry.lookup_eq_or]
    rw [hpin.pins_self, Pin.prepare_eq]
  | execute space context =>
    have hderives := derives stage.registry context.maxDepth
      (.execute (context.maxDepth - context.depth) context.scope space place site) stage.state
    simp only [SiteAction.perform, SiteAction.found, SiteAction.edition, ← Registry.lookup_eq_or]
    rw [← Pin.prepare_eq]
    exact hderives.pin_execute ⟨rfl, rfl, rfl⟩

/-! ## What a sequence of actions does to them -/

/-- What the first `i` actions at a call site lead to. -/
def stageAt (place : Place) (site : CallSite) (start : Stage) (actions : List SiteAction) (i : Nat) :
    Stage :=
  (actions.take i).foldl (SiteAction.perform place site) start

section

variable (place site) {start : Stage} {actions : List SiteAction}

theorem stageAt_succ (i : Nat) :
    stageAt place site start actions (i + 1) =
      match actions[i]? with
      | some action => action.perform place site (stageAt place site start actions i)
      | none => stageAt place site start actions i := by
  rw [stageAt, List.take_add_one, List.foldl_append, ← stageAt]
  cases actions[i]? <;> rfl

/-- Only registrations change the functions there are. -/
theorem registry_stageAt (i : Nat) :
    (stageAt place site start actions i).registry = registryAt start.registry actions i := by
  rw [stageAt, registryAt]
  induction actions.take i generalizing start with
  | nil => rfl
  | cons action rest ih => exact ih

/-- The function that is remembered is the first one found. -/
theorem callee_stageAt (hfresh : start.state.pins.get place = {}) (i : Nat) :
    ((stageAt place site start actions i).state.pins.get place).callee =
      knownAt start.registry site actions i := by
  refine eq_findSome?_range
    (fun i => ((stageAt place site start actions i).state.pins.get place).callee) ?_ ?_ i
  · rw [stageAt, List.take_zero, List.foldl_nil, hfresh]
  · intro i
    rw [stageAt_succ, foundAt, ← registry_stageAt place site]
    cases actions[i]? with
    | none => rw [Option.bind_none, Option.or_none]
    | some action => rw [pin_perform, Option.bind_some]

/-- The edition that is remembered is the first one the arguments could be bound in. -/
theorem edition_stageAt (hfresh : start.state.pins.get place = {}) (i : Nat) :
    ((stageAt place site start actions i).state.pins.get place).edition =
      (List.range i).findSome? fun i =>
        (editionAt start.registry site actions i).filter fun e => (e.bindings? site).isSome := by
  refine eq_findSome?_range
    (fun i => ((stageAt place site start actions i).state.pins.get place).edition) ?_ ?_ i
  · rw [stageAt, List.take_zero, List.foldl_nil, hfresh]
  · intro i
    have hknown := @callee_stageAt place site _ actions hfresh (i + 1)
    rw [stageAt_succ] at hknown ⊢
    rw [editionAt, ← hknown, ← registry_stageAt place site]
    cases actions[i]? with
    | none => rw [Option.bind_none, Option.filter_none, Option.or_none]
    | some action => rw [pin_perform, Option.bind_some]

/-- The bindings that are remembered are the first ones that were made. -/
theorem bindings?_stageAt (hfresh : start.state.pins.get place = {}) (i : Nat) :
    ((stageAt place site start actions i).state.pins.get place).bindings? site =
      (List.range i).findSome? (boundAt start.registry site actions) := by
  rw [Pin.bindings?, edition_stageAt place site hfresh, findSome?_filter_bind]
  rfl

/-- An edition is remembered only with the bindings that were made in it. -/
theorem exists_bind_stageAt (hfresh : start.state.pins.get place = {}) {i : Nat} {edition : Edition}
    (h : ((stageAt place site start actions i).state.pins.get place).edition = some edition) :
    ∃ bound, edition.bind site = .ok bound := by
  rw [edition_stageAt place site hfresh] at h
  obtain ⟨j, -, hj⟩ := List.exists_of_findSome?_eq_some h
  have hbindings := (Option.filter_eq_some_iff.mp hj).2
  rw [Edition.bindings?_eq] at hbindings
  cases hbind : edition.bind site with
  | error cause => rw [hbind] at hbindings; cases hbindings
  | ok bound => exact ⟨bound, rfl⟩

end

/-! ## What a failed attempt leaves behind -/

/-- No way in which arguments do not fit is that the function is not there. -/
theorem bindFrom_ne_unknownCallee (parse : String → Ty → Except ParseFailure Expr)
    (pool : List Parameter) (arguments : List RawArgument) (name space : String) :
    bindFrom parse pool arguments ≠ .error (.unknownCallee name space) := by
  induction arguments generalizing pool with
  | nil =>
    rw [bindFrom]
    split <;> simp
  | cons argument arguments ih =>
    intro h
    rw [bindFrom] at h
    rcases error_of_bind_eq_error h with hclaim | ⟨⟨p, pool⟩, -, h⟩
    · unfold claim at hclaim
      split at hclaim <;> split at hclaim <;> cases hclaim
    · rcases error_of_bind_eq_error h with hfit | ⟨e, -, h⟩
      · unfold fit at hfit
        split at hfit
        · cases hfit
        · cases hfit
        · split at hfit <;> cases hfit
      · rcases error_of_bind_eq_error h with hrest | ⟨bindings, -, h⟩
        · exact ih pool hrest
        · cases h

theorem Edition.bind_ne_unknownCallee (edition : Edition) (name space : String) :
    edition.bind site ≠ .error (.unknownCallee name space) := by
  intro h
  cases hbind : bindArguments edition.reader.parse edition.signature site.arguments with
  | error cause =>
    rw [Edition.bind_of_error hbind] at h
    cases h
    exact bindFrom_ne_unknownCallee _ _ _ _ _ hbind
  | ok bindings =>
    rw [Edition.bind_of_ok hbind] at h
    cases h

/-- Arguments that are bound are bound as before, whatever they are to be bound against. -/
theorem runIn_bind_of_known {state : State} {known edition : Edition} {bound : Bound site}
    (hknown : (state.pins.get place).edition = some known) (hbind : known.bind site = .ok bound) :
    (site.bind edition place).runIn state = (.ok bound, state) := by
  rw [CallSite.bind, Attempt.runIn_bind, Attempt.runIn_get]
  simp only [hknown, hbind, Attempt.runIn_liftExcept]

/-- A search that fails changes nothing. -/
theorem state_of_resolve_error {state after : State} {cause : BindError}
    (h : (site.resolve registry place).runIn state = (.error cause, after)) : after = state := by
  have hresolve := runIn_resolve registry place site state
  split at hresolve
  · rw [hresolve] at h
    cases h
    rfl
  · obtain ⟨resolved, hrun, -⟩ := hresolve
    rw [hrun] at h
    cases h

/-- Arguments that cannot be bound change nothing. -/
theorem state_of_bind_error {state after : State} {edition : Edition} {cause : BindError}
    (h : (site.bind edition place).runIn state = (.error cause, after)) :
    after = state ∧ ∃ cause, ((state.pins.get place).edition.getD edition).bind site =
      .error cause := by
  have hbind := runIn_bind place site edition state
  split at hbind
  · next hrefused =>
    rw [hbind] at h
    cases h
    exact ⟨rfl, _, hrefused⟩
  · obtain ⟨bound, hrun, -⟩ := hbind
    rw [hrun] at h
    cases h

/-- A call that cannot be prepared: nothing is changed if there is no function to call, and no
bindings are remembered if the arguments do not fit. -/
theorem pin_of_prepare_error {state after : State} {cause : BindError}
    (h : (site.prepare registry space place).runIn state =
      (.error (.own (.call site.name cause)), after)) :
    ((∃ name space', cause = .unknownCallee name space') →
        after.pins.get place = state.pins.get place) ∧
      ((∀ name space', cause ≠ .unknownCallee name space') →
        (after.pins.get place).edition = (state.pins.get place).edition ∧
          ∃ edition, ((state.pins.get place).edition.getD edition).bind site = .error cause) := by
  obtain ⟨cause', hpure, hcause, hpin⟩ := prepare_of_runIn_error h
  obtain rfl : cause = cause' := by
    cases hcause
    rfl
  rw [hpin.pins_self]
  rw [Pin.prepare] at hpure ⊢
  split at hpure
  · exact ⟨fun _ => rfl, fun hother => by cases hpure; exact absurd rfl (hother _ _)⟩
  · dsimp only at hpure ⊢
    split at hpure
    · next hbind =>
      cases hpure
      refine ⟨?_, fun _ => ⟨rfl, _, hbind⟩⟩
      rintro ⟨name, space', rfl⟩
      exact absurd hbind (Edition.bind_ne_unknownCallee _ _ _)
    · cases hpure

/-! ## The two memories over any sequence of actions -/

/-- Over any sequence of actions at a call site that remembers nothing at first:

* the function it remembers is the first one that an action found;
* the bindings it remembers are the first ones that an action made, and every later binding gives
  them again, whatever it is given;
* neither memory is changed once it is filled;
* a search that fails, or arguments that cannot be bound, change nothing; in the latter case no
  bindings are remembered;
* a call that cannot be prepared fails its execution with the same error and no further change. If
  there is no function to call, neither memory is changed, and if the arguments do not fit, no
  bindings are remembered;
* an execution that gets past that leaves both memories as they were after the call was prepared,
  however it ends. -/
theorem call_site_keeps_first (start : Stage) (place : Place) (site : CallSite)
    (hfresh : start.state.pins.get place = {}) (actions : List SiteAction) :
    let stage := stageAt place site start actions
    let pin := fun i => (stage i).state.pins.get place
    let found := foundAt start.registry site actions
    let bound := boundAt start.registry site actions
    (∀ i f, (pin i).callee = some f ↔ ∃ j < i, found j = some f ∧ ∀ k < j, found k = none) ∧
    (∀ i bindings, (pin i).bindings? site = some bindings ↔
      ∃ j < i, bound j = some bindings ∧ ∀ k < j, bound k = none) ∧
    (∀ i bindings, (pin i).bindings? site = some bindings → ∀ edition, ∃ kept : Bound site,
      kept.1 = bindings ∧
        (site.bind edition place).runIn (stage i).state = (.ok kept, (stage i).state)) ∧
    (∀ i j, i ≤ j →
      (∀ f, (pin i).callee = some f → (pin j).callee = some f) ∧
      ∀ edition, (pin i).edition = some edition → (pin j).edition = some edition) ∧
    (∀ i cause after,
      (site.resolve (stage i).registry place).runIn (stage i).state = (.error cause, after) →
        after = (stage i).state) ∧
    (∀ i edition cause after,
      (site.bind edition place).runIn (stage i).state = (.error cause, after) →
        after = (stage i).state ∧ (pin i).edition = none) ∧
    (∀ i space context fault after,
      (site.prepare (stage i).registry space place).runIn (stage i).state = (.error fault, after) →
        (((stage i).registry.host context).execute context.scope space place site).runIn
            (stage i).state = (.error fault, after) ∧
          ∃ cause, fault = .own (.call site.name cause) ∧
            ((∃ name space', cause = .unknownCallee name space') → after.pins.get place = pin i) ∧
            ((∀ name space', cause ≠ .unknownCallee name space') →
              (after.pins.get place).edition = none)) ∧
    ∀ i space context,
      ((((stage i).registry.host context).execute context.scope space place site).runIn
          (stage i).state).2.pins.get place =
        ((site.prepare (stage i).registry space place).runIn (stage i).state).2.pins.get place := by
  intro stage pin found bound
  have hcallee (i : Nat) : (pin i).callee = (List.range i).findSome? found :=
    callee_stageAt place site hfresh i
  have hbindings (i : Nat) : (pin i).bindings? site = (List.range i).findSome? bound :=
    bindings?_stageAt place site hfresh i
  -- What is remembered could be bound, so arguments that cannot be are not remembered.
  have hnone (i : Nat) {edition : Edition} {cause : BindError}
      (h : ((pin i).edition.getD edition).bind site = .error cause) : (pin i).edition = none := by
    cases hedition : (pin i).edition with
    | none => rfl
    | some known =>
      obtain ⟨kept, hkept⟩ := exists_bind_stageAt place site hfresh hedition
      rw [hedition, Option.getD_some, hkept] at h
      cases h
  refine ⟨?_, ?_, ?_, ?_, ?_, ?_, ?_, ?_⟩
  · intro i f
    rw [hcallee, findSome?_range_eq_some]
  · intro i bindings
    rw [hbindings, findSome?_range_eq_some]
  · intro i bindings h edition
    obtain ⟨known, hknown, hmade⟩ := Option.bind_eq_some_iff.mp h
    obtain ⟨kept, hkept⟩ := exists_bind_stageAt place site hfresh hknown
    rw [Edition.bindings?_eq, hkept] at hmade
    exact ⟨kept, Option.some.inj hmade, runIn_bind_of_known hknown hkept⟩
  · intro i j hij
    -- The first of the earlier ones stays the first when later ones are added.
    refine ⟨fun f h => ?_, fun edition h => ?_⟩
    · rw [hcallee, findSome?_range_eq_some] at h ⊢
      obtain ⟨k, hk, hfirst⟩ := h
      exact ⟨k, Nat.lt_of_lt_of_le hk hij, hfirst⟩
    · rw [edition_stageAt place site hfresh, findSome?_range_eq_some] at h ⊢
      obtain ⟨k, hk, hfirst⟩ := h
      exact ⟨k, Nat.lt_of_lt_of_le hk hij, hfirst⟩
  · intro i cause after
    exact state_of_resolve_error
  · intro i edition cause after h
    obtain ⟨hafter, cause', hrefused⟩ := state_of_bind_error h
    exact ⟨hafter, hnone i hrefused⟩
  · intro i space context fault after h
    obtain ⟨cause, -, rfl, -⟩ := prepare_of_runIn_error h
    obtain ⟨hunknown, hrefused⟩ := pin_of_prepare_error h
    refine ⟨?_, cause, rfl, hunknown, fun hother => ?_⟩
    · rw [Host.execute]
      exact Attempt.runIn_bind_of_error h
    · obtain ⟨hsame, edition, hbind⟩ := hrefused hother
      exact hsame.trans (hnone i hbind)
  · intro i space context
    have hexecuted := derives (stage i).registry context.maxDepth
      (.execute (context.maxDepth - context.depth) context.scope space place site) (stage i).state
    obtain ⟨-, hprepared⟩ := runIn_prepare (stage i).registry space place site (stage i).state
    rw [hprepared.pins_self]
    exact hexecuted.pin_execute ⟨rfl, rfl, rfl⟩

/-- A call that fails to be bound to a signature before there is a function for it, and is then
resolved and executed, keeps the function it found first when that is replaced in between. -/
theorem call_site_keeps_first_replaced :
    let actions : List SiteAction :=
      [.bind "" (Function.sink "f").signature, .register (.constant "g" (.boolean true)), .resolve,
        .register (.constant "g" (.text "a")), .execute "" (.top 256)]
    let pin := fun i =>
      (stageAt ⟨0, []⟩ ⟨"", "g", []⟩ ⟨{}, {}⟩ actions i).state.pins.get ⟨0, []⟩
    ({} : State).pins.get ⟨0, []⟩ = {} ∧
      (pin 5).callee = some (.constant "g" (.boolean true)) ∧
      (pin 4).bindings? ⟨"", "g", []⟩ = none ∧ (pin 5).bindings? ⟨"", "g", []⟩ = some [] := by
  intro actions pin
  obtain ⟨hcallee, hbindings, -⟩ := call_site_keeps_first ⟨{}, {}⟩ ⟨0, []⟩ ⟨"", "g", []⟩
    (Pins.get_empty _) actions
  have hunbound : ∀ k < 4, boundAt {} ⟨"", "g", []⟩ actions k = none := by
    intro k hk
    match k, hk with
    | 0, _ | 1, _ | 2, _ | 3, _ => rfl
  refine ⟨Pins.get_empty _, (hcallee 5 _).mpr ⟨2, by omega, rfl, ?_⟩, ?_,
    (hbindings 5 _).mpr ⟨4, by omega, rfl, hunbound⟩⟩
  · intro k hk
    match k, hk with
    | 0, _ | 1, _ => rfl
  · rw [Option.eq_none_iff_forall_ne_some]
    intro bindings h
    obtain ⟨k, hk, hbound, -⟩ := (hbindings 4 bindings).mp h
    rw [hunbound k hk] at hbound
    cases hbound

end CallScript

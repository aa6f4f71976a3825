import CallScript.Invocation

/-!
# Computations in a state, and what preparing a call does

A computation of the evaluator is a function of the state; `Attempt.runIn` applies it, and one
lemma for each way of building a computation says what comes out.

All that evaluation does to the memory of call sites happens where a call is prepared. What is
found there depends on nothing but the pin of that call site and the registry, so it is a function
of the two: `Pin.prepare` gives the outcome and the new pin. `runIn_prepare` says that
`CallSite.prepare` is this function and changes no other pin, and nothing else in the state.
-/

namespace CallScript

/-! ## Outcomes -/

section

variable {ε ε' α β : Type}

theorem eq_error_of_map {x : Except ε α} {f : α → β} {e : ε} (h : x.map f = .error e) :
    x = .error e := by
  cases x with
  | error _ => cases h; rfl
  | ok _ => cases h

theorem exists_of_map_eq_ok {x : Except ε α} {f : α → β} {b : β} (h : x.map f = .ok b) :
    ∃ a, x = .ok a ∧ f a = b := by
  cases x with
  | error _ => cases h
  | ok a => cases h; exact ⟨a, rfl, rfl⟩

theorem exists_of_mapError_eq_error {x : Except ε α} {f : ε → ε'} {e : ε'}
    (h : x.mapError f = .error e) : ∃ e', x = .error e' ∧ f e' = e := by
  cases x with
  | error e' => cases h; exact ⟨e', rfl, rfl⟩
  | ok _ => cases h

theorem eq_ok_of_mapError {x : Except ε α} {f : ε → ε'} {a : α} (h : x.mapError f = .ok a) :
    x = .ok a := by
  cases x with
  | error _ => cases h
  | ok _ => cases h; rfl

theorem mapError_map_eq_error {x : Except ε α} {f : α → β} {g : ε → ε'} {e : ε'} :
    (x.map f).mapError g = .error e ↔ x.mapError g = .error e := by
  cases x with
  | error e' =>
    show Except.error (g e') = .error e ↔ Except.error (g e') = .error e
    rw [Except.error.injEq, Except.error.injEq]
  | ok _ => exact ⟨fun h => (by cases h), fun h => by cases h⟩

theorem exists_of_bind_eq_ok {x : Except ε α} {f : α → Except ε β} {b : β}
    (h : x.bind f = .ok b) : ∃ a, x = .ok a ∧ f a = .ok b := by
  cases x with
  | error _ => cases h
  | ok a => exact ⟨a, rfl, h⟩

theorem error_of_bind_eq_error {x : Except ε α} {f : α → Except ε β} {e : ε}
    (h : x.bind f = .error e) : x = .error e ∨ ∃ a, x = .ok a ∧ f a = .error e := by
  cases x with
  | error _ => cases h; exact .inl rfl
  | ok a => exact .inr ⟨a, rfl, h⟩

end

/-! ## Computations in a state -/

/-- The outcome of a computation that starts in a state, and the state it leaves. -/
def Attempt.runIn {ε α : Type} (x : Attempt ε α) (state : State) : Except ε α × State :=
  (ExceptT.run x).run state

namespace Attempt

variable {ε ε' α β : Type} (state : State)

@[simp] theorem runIn_pure (a : α) : (pure a : Attempt ε α).runIn state = (.ok a, state) := rfl

@[simp] theorem runIn_throw (e : ε) : (throw e : Attempt ε α).runIn state = (.error e, state) := rfl

theorem runIn_bind (x : Attempt ε α) (f : α → Attempt ε β) :
    (x >>= f).runIn state = match x.runIn state with
      | (.ok a, after) => (f a).runIn after
      | (.error e, after) => (.error e, after) := by
  unfold runIn
  rw [ExceptT.run_bind, StateT.run_bind]
  show (match (ExceptT.run x).run state with | (outcome, after) => _ : Except ε β × State) = _
  cases (ExceptT.run x).run state with
  | mk outcome after => cases outcome <;> rfl

@[simp] theorem runIn_liftExcept (x : Except ε α) :
    (liftExcept x : Attempt ε α).runIn state = (x, state) := by
  cases x <;> rfl

@[simp] theorem runIn_adapt (g : ε → ε') (x : Attempt ε α) :
    runIn (ExceptT.adapt g x : Attempt ε' α) state =
      ((x.runIn state).1.mapError g, (x.runIn state).2) := rfl

@[simp] theorem runIn_get : (get : Attempt ε State).runIn state = (.ok state, state) := rfl

@[simp] theorem runIn_modify (f : State → State) :
    (modify f : Attempt ε Unit).runIn state = (.ok (), f state) := rfl

end Attempt

/-! ## Preparing a call -/

/-- The bindings of a call site are what its arguments are bound to. -/
theorem Edition.bindArguments_of_bind {edition : Edition} {site : CallSite} {bound : Bound site}
    (h : edition.bind site = .ok bound) :
    bindArguments edition.reader.parse edition.signature site.arguments = .ok bound.1 := by
  cases hbind : bindArguments edition.reader.parse edition.signature site.arguments with
  | error cause =>
    rw [bind_of_error hbind] at h
    cases h
  | ok bindings =>
    rw [bind_of_ok hbind] at h
    cases h
    rfl

/-- What preparing a call finds at a call site that remembers `pin`, and what the call site
remembers from then on. -/
def Pin.prepare (registry : Registry) (space : String) (site : CallSite) (pin : Pin) :
    Except BindError (Function × Bound site) × Pin :=
  match pin.callee.or (registry.lookup site.name site.space) with
  | none => (.error (.unknownCallee site.name site.space), pin)
  | some f =>
    let edition := pin.edition.getD ⟨f.signature, registry.reader space⟩
    match edition.bind site with
    | .error cause => (.error cause, { pin with callee := some f })
    | .ok bound => (.ok (f, bound), ⟨some f, some edition⟩)

namespace Pin

variable {registry : Registry} {space : String} {site : CallSite} {pin : Pin}

/-- A call site remembers the function it calls, whether or not its arguments can be bound. -/
theorem callee_prepare :
    (pin.prepare registry space site).2.callee =
      pin.callee.or (registry.lookup site.name site.space) := by
  rw [prepare]
  split
  · next hnone =>
    rw [hnone]
    cases hcallee : pin.callee with
    | none => rfl
    | some f => simp [hcallee] at hnone
  · next f hsome =>
    rw [hsome]
    dsimp only
    split <;> rfl

/-- Preparing succeeds if a function is found and the arguments can be bound. -/
theorem prepare_eq_ok {f : Function} {bound : Bound site} :
    (pin.prepare registry space site).1 = .ok (f, bound) ↔
      pin.callee.or (registry.lookup site.name site.space) = some f ∧
        (pin.edition.getD ⟨f.signature, registry.reader space⟩).bind site = .ok bound := by
  rw [prepare]
  split
  · next hnone => simp [hnone]
  · next g hsome =>
    rw [hsome, Option.some.injEq]
    dsimp only
    split
    · next cause hbind =>
      constructor
      · intro h
        cases h
      · rintro ⟨rfl, hok⟩
        rw [hbind] at hok
        cases hok
    · next bound' hbind =>
      rw [Except.ok.injEq, Prod.mk.injEq]
      constructor
      · rintro ⟨rfl, rfl⟩
        exact ⟨rfl, hbind⟩
      · rintro ⟨rfl, hok⟩
        rw [hbind] at hok
        cases hok
        exact ⟨rfl, rfl⟩

/-- A call site remembers how its arguments were bound, if they were. -/
theorem edition_prepare_of_ok {f : Function} {bound : Bound site}
    (h : (pin.prepare registry space site).1 = .ok (f, bound)) :
    (pin.prepare registry space site).2.edition =
      some (pin.edition.getD ⟨f.signature, registry.reader space⟩) := by
  obtain ⟨hsome, hbind⟩ := prepare_eq_ok.mp h
  rw [prepare, hsome]
  dsimp only
  rw [hbind]

/-- A call that was prepared is prepared in the same way ever after, whatever is registered then. -/
theorem prepare_again (registry' : Registry) {space' : String} {f : Function} {bound : Bound site}
    (h : (pin.prepare registry space site).1 = .ok (f, bound)) :
    ((pin.prepare registry space site).2.prepare registry' space' site).1 = .ok (f, bound) := by
  obtain ⟨hfound, hbind⟩ := prepare_eq_ok.mp h
  refine prepare_eq_ok.mpr ⟨?_, ?_⟩
  · rw [callee_prepare, hfound, Option.some_or]
  · rw [edition_prepare_of_ok h, Option.getD_some]
    exact hbind

/-- Nothing is remembered of arguments that could not be bound. -/
theorem edition_prepare_of_error {cause : BindError}
    (h : (pin.prepare registry space site).1 = .error cause) :
    (pin.prepare registry space site).2.edition = pin.edition := by
  rw [prepare] at h ⊢
  split at h
  · rfl
  · dsimp only at h ⊢
    split at h
    · rfl
    · cases h

/-- Whether a call site remembers how its arguments were bound only together with the function that
they were bound for. -/
def IsMatched (pin : Pin) : Prop :=
  ∀ edition, pin.edition = some edition →
    ∃ f, pin.callee = some f ∧ edition.signature = f.signature

namespace IsMatched

theorem empty : ({} : Pin).IsMatched := fun _ h => by cases h

/-- The arguments of a call that can be prepared are bound for the function it calls. -/
theorem exists_edition (h : pin.IsMatched) {f : Function} {bound : Bound site}
    (hpure : (pin.prepare registry space site).1 = .ok (f, bound)) :
    ∃ edition, (pin.prepare registry space site).2.edition = some edition ∧
      edition.signature = f.signature ∧ edition.bind site = .ok bound := by
  obtain ⟨hfound, hbind⟩ := prepare_eq_ok.mp hpure
  refine ⟨_, edition_prepare_of_ok hpure, ?_, hbind⟩
  cases hedition : pin.edition with
  | none => rfl
  | some known =>
    obtain ⟨g, hg, hsignature⟩ := h known hedition
    rw [hg, Option.some_or] at hfound
    cases hfound
    exact hsignature

theorem prepare (h : pin.IsMatched) : (pin.prepare registry space site).2.IsMatched := by
  intro edition he
  rw [callee_prepare]
  cases hpure : (pin.prepare registry space site).1 with
  | ok prepared =>
    obtain ⟨edition', hedition, hsignature, -⟩ := h.exists_edition hpure
    rw [hedition] at he
    cases he
    exact ⟨prepared.1, (prepare_eq_ok.mp hpure).1, hsignature⟩
  | error cause =>
    -- Nothing was bound now, so it was bound before, when the function was remembered too.
    rw [edition_prepare_of_error hpure] at he
    obtain ⟨f, hf, hsignature⟩ := h edition he
    exact ⟨f, by rw [hf, Option.some_or], hsignature⟩

/-- If arguments were bound before, the function that is found is the one that was remembered. -/
theorem resolved (h : pin.IsMatched) {f : Function}
    (hf : pin.callee.or (registry.lookup site.name site.space) = some f) :
    IsMatched { pin with callee := some f } := by
  intro edition he
  obtain ⟨g, hg, hsignature⟩ := h edition he
  rw [hg, Option.some_or] at hf
  exact ⟨g, hf.symm, hsignature⟩

end IsMatched

end Pin

/-- `after` is the state in which the call site at `place` remembers `pin`, and nothing else is
changed. -/
structure State.Repinned (state : State) (place : Place) (pin : Pin) (after : State) : Prop where
  pins : ∀ other, after.pins.get other = if place = other then pin else state.pins.get other
  rest : after = { state with pins := after.pins }

namespace State.Repinned

variable {state middle after : State} {place : Place} {pin pin' : Pin}

theorem refl (h : state.pins.get place = pin) : state.Repinned place pin state where
  pins other := by
    split
    · next hother => rw [← hother, h]
    · rfl
  rest := rfl

theorem trans (h : state.Repinned place pin middle) (h' : middle.Repinned place pin' after) :
    state.Repinned place pin' after where
  pins other := by
    rw [h'.pins, h.pins]
    split <;> rfl
  rest := by
    rw [h'.rest, h.rest]

theorem set (state : State) (place : Place) (pin : Pin) :
    state.Repinned place pin { state with pins := state.pins.set place pin } where
  pins _ := Pins.get_set ..
  rest := rfl

@[simp] theorem pins_self (h : state.Repinned place pin after) : after.pins.get place = pin := by
  rw [h.pins, if_pos rfl]

theorem pins_of_ne (h : state.Repinned place pin after) {other : Place} (hne : place ≠ other) :
    after.pins.get other = state.pins.get other := by
  rw [h.pins, if_neg hne]

theorem nextRoot_eq (h : state.Repinned place pin after) : after.nextRoot = state.nextRoot := by
  rw [h.rest]

theorem history_eq (h : state.Repinned place pin after) : after.history = state.history := by
  rw [h.rest]

theorem random_eq (h : state.Repinned place pin after) : after.random = state.random := by
  rw [h.rest]

end State.Repinned

variable (registry : Registry) (space : String) (place : Place) (site : CallSite)

/-- Finding the function that a call site calls. -/
theorem runIn_resolve (state : State) :
    match (state.pins.get place).callee.or (registry.lookup site.name site.space) with
    | none => (site.resolve registry place).runIn state =
        (.error (.unknownCallee site.name site.space), state)
    | some f => ∃ after, (site.resolve registry place).runIn state = (.ok f, after) ∧
        state.Repinned place { state.pins.get place with callee := some f } after := by
  rw [CallSite.resolve, Attempt.runIn_bind, Attempt.runIn_get]
  cases hcallee : (state.pins.get place).callee with
  | some f =>
    -- The call site remembers the function, so there is nothing to change.
    refine ⟨state, by simp [hcallee], .refl ?_⟩
    rw [← hcallee]
  | none =>
    cases hlookup : registry.lookup site.name site.space with
    | none => simp [hcallee]
    | some f =>
      refine ⟨_, ?_, .set ..⟩
      simp only [hcallee, Attempt.runIn_bind, Attempt.runIn_modify, Attempt.runIn_pure]

/-- Binding the arguments of a call site. -/
theorem runIn_bind (edition : Edition) (state : State) :
    match ((state.pins.get place).edition.getD edition).bind site with
    | .error cause => (site.bind edition place).runIn state = (.error cause, state)
    | .ok bound => ∃ after, (site.bind edition place).runIn state = (.ok bound, after) ∧
        state.Repinned place { state.pins.get place with
          edition := some ((state.pins.get place).edition.getD edition) } after := by
  rw [CallSite.bind, Attempt.runIn_bind, Attempt.runIn_get]
  cases hedition : (state.pins.get place).edition with
  | some known =>
    -- The call site remembers what its arguments are bound against, whatever is given.
    simp only [hedition, Option.getD_some, Attempt.runIn_liftExcept]
    cases hbind : known.bind site with
    | error cause => rfl
    | ok bound =>
      refine ⟨state, rfl, .refl ?_⟩
      rw [← hedition]
  | none =>
    simp only [hedition, Option.getD_none, Attempt.runIn_bind, Attempt.runIn_liftExcept]
    cases hbind : edition.bind site with
    | error cause => rfl
    | ok bound => exact ⟨_, rfl, .set ..⟩

/-- Preparing a call is `Pin.prepare`, and changes nothing but the pin of the call site. -/
theorem runIn_prepare (state : State) :
    ((site.prepare registry space place).runIn state).1 =
        ((state.pins.get place).prepare registry space site).1.mapError
          (fun cause => .own (.call site.name cause)) ∧
      state.Repinned place ((state.pins.get place).prepare registry space site).2
        ((site.prepare registry space place).runIn state).2 := by
  have hresolve := runIn_resolve registry place site state
  unfold Pin.prepare CallSite.prepare
  simp only [Attempt.runIn_adapt, Attempt.runIn_bind]
  cases hcallee : (state.pins.get place).callee.or (registry.lookup site.name site.space) with
  | none =>
    rw [hcallee] at hresolve
    simp only [hresolve]
    exact ⟨trivial, .refl rfl⟩
  | some f =>
    rw [hcallee] at hresolve
    obtain ⟨resolved, hrun, hpin⟩ := hresolve
    have hbound := runIn_bind place site ⟨f.signature, registry.reader space⟩ resolved
    rw [hpin.pins_self] at hbound
    simp only [hrun]
    dsimp only at hbound
    cases hbind : ((state.pins.get place).edition.getD
        ⟨f.signature, registry.reader space⟩).bind site with
    | error cause =>
      rw [hbind] at hbound
      simp only [hbound]
      exact ⟨trivial, hpin⟩
    | ok bound =>
      rw [hbind] at hbound
      obtain ⟨after, hrun', hpin'⟩ := hbound
      simp only [hrun', Attempt.runIn_pure]
      exact ⟨trivial, hpin.trans hpin'⟩

variable {registry space place site}

/-- A call that was prepared. -/
theorem prepare_of_runIn_ok {state after : State} {f : Function} {bound : Bound site}
    (h : (site.prepare registry space place).runIn state = (.ok (f, bound), after)) :
    ((state.pins.get place).prepare registry space site).1 = .ok (f, bound) ∧
      state.Repinned place ((state.pins.get place).prepare registry space site).2 after := by
  obtain ⟨houtcome, hpin⟩ := runIn_prepare registry space place site state
  rw [h] at houtcome hpin
  refine ⟨?_, hpin⟩
  cases hpure : ((state.pins.get place).prepare registry space site).1 with
  | error cause => rw [hpure] at houtcome; cases houtcome
  | ok prepared => rw [hpure] at houtcome; cases houtcome; rfl

/-- A call that was prepared remembers its function. -/
theorem callee_of_prepare {state after : State} {f : Function} {bound : Bound site}
    (h : (site.prepare registry space place).runIn state = (.ok (f, bound), after)) :
    (after.pins.get place).callee = some f := by
  obtain ⟨hpure, hpin⟩ := prepare_of_runIn_ok h
  rw [hpin.pins_self, Pin.callee_prepare]
  exact (Pin.prepare_eq_ok.mp hpure).1

/-- A call can be prepared if its pin says so. -/
theorem exists_runIn_prepare {state : State} {prepared : Function × Bound site}
    (h : ((state.pins.get place).prepare registry space site).1 = .ok prepared) :
    ∃ after, (site.prepare registry space place).runIn state = (.ok prepared, after) ∧
      state.Repinned place ((state.pins.get place).prepare registry space site).2 after := by
  obtain ⟨houtcome, hpin⟩ := runIn_prepare registry space place site state
  rw [h] at houtcome
  exact ⟨_, Prod.ext houtcome rfl, hpin⟩

/-- A call that could not be prepared. -/
theorem prepare_of_runIn_error {state after : State} {fault : Fault}
    (h : (site.prepare registry space place).runIn state = (.error fault, after)) :
    ∃ cause, ((state.pins.get place).prepare registry space site).1 = .error cause ∧
      fault = .own (.call site.name cause) ∧
      state.Repinned place ((state.pins.get place).prepare registry space site).2 after := by
  obtain ⟨houtcome, hpin⟩ := runIn_prepare registry space place site state
  rw [h] at houtcome hpin
  cases hpure : ((state.pins.get place).prepare registry space site).1 with
  | error cause => rw [hpure] at houtcome; cases houtcome; exact ⟨cause, rfl, rfl, hpin⟩
  | ok prepared => rw [hpure] at houtcome; cases houtcome

/-- Preparing a call runs nothing. -/
theorem history_of_prepare {state after : State} {found : Except Fault (Function × Bound site)}
    (h : (site.prepare registry space place).runIn state = (found, after)) :
    after.history = state.history := by
  obtain ⟨-, hpin⟩ := runIn_prepare registry space place site state
  rw [h] at hpin
  exact hpin.history_eq

end CallScript

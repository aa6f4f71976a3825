import CallScript.Proofs.Task

/-!
# Evaluation as a derivation

The evaluator is spread over functions that call each other at ever smaller expressions, and with
ever less room: expressions and calls, functions and the dialogues with their bodies. What they do
is written down here once, as the rules of a relation. `Derives task state outcome after` says that
the `task`, begun in `state`, ends with `outcome` in the state `after`; a proof about evaluation is
then an induction with a case for each rule.

The relation is that of the evaluator: `derives` gives a derivation for every task and state, and
`Derives.runIn_eq` says that a derivation ends as the evaluator does.

A derivation may be held to a `Law`, which restricts what the bodies of functions return and in
which states a function may be run on bound arguments. `Law.free` asks for nothing, and it is the
law of `derives`; with another law, a derivation says that the run kept to it from beginning to end.
-/

namespace CallScript

/-- What a run is held to: which values a body may return for its function, and in which state the
call at a place may go on to run its function, once its bound arguments are evaluated. -/
structure Law where
  returns : Function → List Value → Prop
  passes : State → Place → List Binding → Prop

/-- The law that asks for nothing. -/
def Law.free : Law := ⟨fun _ _ => True, fun _ _ _ => True⟩

/-- How the evaluator gets from a task in one state to its outcome in another. -/
inductive Derives (registry : Registry) (maxDepth : Nat) (law : Law) :
    {α : Type} → Task α → State → Except Fault α → State → Prop where
  | literal {room scope place value state} :
      Derives registry maxDepth law (.eval room scope place (.literal value)) state
        (.ok [value]) state
  | template {room scope place text state} :
      Derives registry maxDepth law (.eval room scope place (.template text)) state
        (.ok [.text (String.ofList (scope.interpolate text.toList))]) state
  | reference {room scope place target state} :
      Derives registry maxDepth law (.eval room scope place (.reference target)) state
        (.ok (scope.resolve target)) state
  | list {room scope place items ty state outcome after}
      (parts : Derives registry maxDepth law (.evalEach room scope place 0 items) state outcome
        after) :
      Derives registry maxDepth law (.eval room scope place (.list items ty)) state
        (outcome.map List.flatten) after
  | converted {room scope place inner target state outcome after}
      (part : Derives registry maxDepth law (.eval room scope place inner) state outcome after) :
      Derives registry maxDepth law (.eval room scope place (.converted inner target)) state
        (outcome.bind (convertAll target)) after
  | call {room scope place site ty single state outcome after}
      (executed : Derives registry maxDepth law (.execute room scope site.space place site) state
        outcome after) :
      Derives registry maxDepth law (.eval room scope place (.call site ty single)) state
        (outcome.map fun returned => (returned.map Returned.values).getD []) after
  | evalNil {room scope place index state} :
      Derives registry maxDepth law (.evalEach room scope place index []) state (.ok []) state
  | evalFails {room scope place index item items state fault after}
      (head : Derives registry maxDepth law (.eval room scope (place.child index) item) state
        (.error fault) after) :
      Derives registry maxDepth law (.evalEach room scope place index (item :: items)) state
        (.error fault) after
  | evalCons {room scope place index item items state values middle outcome after}
      (head : Derives registry maxDepth law (.eval room scope (place.child index) item) state
        (.ok values) middle)
      (rest : Derives registry maxDepth law (.evalEach room scope place (index + 1) items) middle
        outcome after) :
      Derives registry maxDepth law (.evalEach room scope place index (item :: items)) state
        (outcome.map (values :: ·)) after
  | unprepared {room scope space place site state fault after}
      (prepared : (site.prepare registry space place).runIn state = (.error fault, after)) :
      Derives registry maxDepth law (.execute room scope space place site) state
        (.error fault) after
  | argumentFails {room scope space place site state f} {bound : Bound site} {middle fault after}
      (prepared : (site.prepare registry space place).runIn state = (.ok (f, bound), middle))
      (arguments : Derives registry maxDepth law
        (.evalEach room scope place 0 (bound.1.map Binding.expr)) middle (.error fault) after) :
      Derives registry maxDepth law (.execute room scope space place site) state
        (.error fault) after
  | executed {room scope space place site state f} {bound : Bound site}
      {middle values called outcome after}
      (prepared : (site.prepare registry space place).runIn state = (.ok (f, bound), middle))
      (arguments : Derives registry maxDepth law
        (.evalEach room scope place 0 (bound.1.map Binding.expr)) middle (.ok values) called)
      (kept : law.passes called place bound.1)
      (invoked : Derives registry maxDepth law
        (.invoke room f (Bundle.ofBindings bound.1 values)) called outcome after) :
      Derives registry maxDepth law (.execute room scope space place site) state
        (outcome.map f.signature.shape) after
  | noRoom {f arguments state} :
      Derives registry maxDepth law (.invoke 0 f arguments) state
        (.error (.own (.recursionLimit maxDepth))) state
  | invoked {room f arguments state outcome after}
      (body : Derives registry maxDepth law
        (.converse room (f.body arguments ⟨Scope.empty, maxDepth - room, maxDepth⟩) f.shared)
        { state with history := ⟨f, arguments, maxDepth - room⟩ :: state.history } outcome after)
      (kept : ∀ values, outcome = .ok values → law.returns f values) :
      Derives registry maxDepth law (.invoke (room + 1) f arguments) state outcome after
  | done {n room result state} {exprs : Vector (Rooted Expr) n} :
      Derives registry maxDepth law (.converse room (.done result) exprs) state
        (result.mapError Fault.ofBody) state
  | draw {n room least greatest state outcome after} {next : Int → Body n}
      {exprs : Vector (Rooted Expr) n}
      (rest : Derives registry maxDepth law
        (.converse room (next (state.drawn least greatest).1) exprs)
        (state.drawn least greatest).2 outcome after) :
      Derives registry maxDepth law (.converse room (.draw least greatest next) exprs) state
        outcome after
  | unread {n room space text target failure state outcome after}
      {failed : ParseFailure → Body n} {parsed : Body (n + 1)} {exprs : Vector (Rooted Expr) n}
      (refused : (registry.reader space).parse text target = .error failure)
      (rest : Derives registry maxDepth law (.converse room (failed failure) exprs) state outcome
        after) :
      Derives registry maxDepth law (.converse room (.parse space text target failed parsed) exprs)
        state outcome after
  | read {n room space text target e state outcome after}
      {failed : ParseFailure → Body n} {parsed : Body (n + 1)} {exprs : Vector (Rooted Expr) n}
      (accepted : (registry.reader space).parse text target = .ok e)
      (rest : Derives registry maxDepth law
        (.converse room parsed (exprs.push ⟨state.nextRoot, e⟩))
        { state with nextRoot := state.nextRoot + 1 } outcome after) :
      Derives registry maxDepth law (.converse room (.parse space text target failed parsed) exprs)
        state outcome after
  | tooDeep {n room state outcome after} {frame : Frame} {index : Fin n}
      {next : Except Error (List Value) → Body n} {exprs : Vector (Rooted Expr) n}
      (deep : room < frame.below)
      (rest : Derives registry maxDepth law
        (.converse room (next (.error (.recursionLimit maxDepth))) exprs) state outcome after) :
      Derives registry maxDepth law (.converse room (.evaluate frame index next) exprs) state
        outcome after
  | evaluated {n room state answer middle outcome after} {frame : Frame} {index : Fin n}
      {next : Except Error (List Value) → Body n} {exprs : Vector (Rooted Expr) n}
      (enough : frame.below ≤ room)
      (answered : Derives registry maxDepth law
        (.eval (room - frame.below) frame.scope ⟨exprs[index].root, []⟩ exprs[index].item) state
        answer middle)
      (rest : Derives registry maxDepth law
        (.converse room (next (answer.mapError Fault.error)) exprs) middle outcome after) :
      Derives registry maxDepth law (.converse room (.evaluate frame index next) exprs) state
        outcome after
  | validLiteral {place value state} :
      Derives registry maxDepth law (.validate place (.literal value)) state (.ok ()) state
  | validTemplate {place text state} :
      Derives registry maxDepth law (.validate place (.template text)) state (.ok ()) state
  | validReference {place target state} :
      Derives registry maxDepth law (.validate place (.reference target)) state (.ok ()) state
  | validList {place items ty state outcome after}
      (parts : Derives registry maxDepth law (.validateEach place 0 items) state outcome after) :
      Derives registry maxDepth law (.validate place (.list items ty)) state outcome after
  | validConverted {place inner target state outcome after}
      (part : Derives registry maxDepth law (.validate place inner) state outcome after) :
      Derives registry maxDepth law (.validate place (.converted inner target)) state outcome after
  | invalidCall {place site ty single state fault after}
      (prepared : (site.prepare registry site.space place).runIn state = (.error fault, after)) :
      Derives registry maxDepth law (.validate place (.call site ty single)) state
        (.error fault) after
  | validCall {place site ty single state f} {bound : Bound site} {middle outcome after}
      (prepared : (site.prepare registry site.space place).runIn state = (.ok (f, bound), middle))
      (arguments : Derives registry maxDepth law
        (.validateEach place 0 (bound.1.map Binding.expr)) middle outcome after) :
      Derives registry maxDepth law (.validate place (.call site ty single)) state outcome after
  | validNil {place index state} :
      Derives registry maxDepth law (.validateEach place index []) state (.ok ()) state
  | validFails {place index item items state fault after}
      (head : Derives registry maxDepth law (.validate (place.child index) item) state
        (.error fault) after) :
      Derives registry maxDepth law (.validateEach place index (item :: items)) state
        (.error fault) after
  | validCons {place index item items state middle outcome after}
      (head : Derives registry maxDepth law (.validate (place.child index) item) state
        (.ok ()) middle)
      (rest : Derives registry maxDepth law (.validateEach place (index + 1) items) middle outcome
        after) :
      Derives registry maxDepth law (.validateEach place index (item :: items)) state outcome after

/-- Conversion goes from left to right. -/
theorem convertAll_cons (target : Ty) (v : Value) (values : List Value) :
    convertAll target (v :: values) = match v.convert? target with
      | some w => (convertAll target values).map (w :: ·)
      | none => .error (.own (.conversion v target)) := by
  simp only [convertAll, List.mapM_cons]
  cases v.convert? target with
  | none => rfl
  | some w =>
    simp only [bind, Except.bind]
    split <;> next hrest => rw [hrest]; rfl

/-- Conversion fails at a value that has no counterpart. -/
theorem exists_of_convertAll_eq_error {target : Ty} {values : List Value} {fault : Fault}
    (h : convertAll target values = .error fault) :
    ∃ v ∈ values, v.convert? target = none ∧ fault = .own (.conversion v target) := by
  induction values with
  | nil => cases h
  | cons v values ih =>
    rw [convertAll_cons] at h
    split at h
    · obtain ⟨other, hother, hfault⟩ := ih (eq_error_of_map h)
      exact ⟨other, List.mem_cons_of_mem _ hother, hfault⟩
    · next hnone =>
      cases h
      exact ⟨v, List.mem_cons_self .., hnone, rfl⟩

/-! ## The evaluator follows the rules -/

theorem Attempt.runIn_bind_of_ok {ε α β : Type} {x : Attempt ε α} {f : α → Attempt ε β} {a : α}
    {state middle : State} (h : x.runIn state = (.ok a, middle)) :
    (x >>= f).runIn state = (f a).runIn middle := by
  rw [runIn_bind, h]

theorem Attempt.runIn_bind_of_error {ε α β : Type} {x : Attempt ε α} {f : α → Attempt ε β} {e : ε}
    {state middle : State} (h : x.runIn state = (.error e, middle)) :
    (x >>= f).runIn state = (.error e, middle) := by
  rw [runIn_bind, h]

theorem Attempt.runIn_bind_pure {ε α β : Type} (x : Attempt ε α) (f : α → β) (state : State) :
    (x >>= fun a => pure (f a)).runIn state =
      ((x.runIn state).1.map f, (x.runIn state).2) := by
  rw [runIn_bind]
  cases x.runIn state with
  | mk outcome after => cases outcome <;> rfl

theorem Attempt.runIn_bind_liftExcept {ε α β : Type} (x : Attempt ε α) (f : α → Except ε β)
    (state : State) :
    (x >>= fun a => liftExcept (f a)).runIn state =
      ((x.runIn state).1.bind f, (x.runIn state).2) := by
  rw [runIn_bind]
  cases x.runIn state with
  | mk outcome after => cases outcome <;> simp [Except.bind]

theorem runIn_outcome {α : Type} (run : Run α) (state : State) :
    (outcome run).runIn state =
      (.ok ((run.runIn state).1.mapError Fault.error), (run.runIn state).2) := rfl

theorem runIn_draw (least greatest : Int) (state : State) :
    (draw least greatest).runIn state =
      (.ok (state.drawn least greatest).1, (state.drawn least greatest).2) := rfl

section

variable {registry : Registry} {maxDepth : Nat}

/-- Whatever the state, the evaluator's way with a task can be derived. -/
def Task.Derivable (registry : Registry) (maxDepth : Nat) {α : Type} (task : Task α) : Prop :=
  ∀ state, Derives registry maxDepth .free task state
    ((task.run registry maxDepth).runIn state).1 ((task.run registry maxDepth).runIn state).2

/-- Whether the evaluator's way can be derived in all that a task begins. -/
def Task.IsBacked (registry : Registry) (maxDepth : Nat) {α : Type} (task : Task α) : Prop :=
  ∀ {β : Type} (later : Task β), task.Begins registry maxDepth later →
    later.Derivable registry maxDepth

/-! Each kind of task follows the rules if all that it begins does. -/

variable {room : Nat} {scope : Scope} {space : String} {place : Place} {site : CallSite}

theorem derivable_eval {e : Expr}
    (hbegun : (Task.eval room scope place e).IsBacked registry maxDepth) :
    (Task.eval room scope place e).Derivable registry maxDepth := by
  intro state
  cases e with
  | literal value =>
    simp only [Task.run, Host.eval, Attempt.runIn_pure]
    exact .literal
  | template text =>
    simp only [Task.run, Host.eval, Attempt.runIn_pure]
    exact .template
  | reference target =>
    simp only [Task.run, Host.eval, Attempt.runIn_pure]
    exact .reference
  | list items ty =>
    simp only [Task.run, Host.eval, Attempt.runIn_bind_pure]
    exact .list (hbegun _ .items state)
  | converted inner target =>
    simp only [Task.run, Host.eval, Attempt.runIn_bind_liftExcept]
    exact .converted (hbegun _ .inner state)
  | call site ty single =>
    simp only [Task.run, Host.eval, Attempt.runIn_bind_pure]
    exact .call (hbegun _ .call state)

theorem derivable_evalEach {index : Nat} {items : List Expr}
    (hbegun : (Task.evalEach room scope place index items).IsBacked registry maxDepth) :
    (Task.evalEach room scope place index items).Derivable registry maxDepth := by
  intro state
  cases items with
  | nil =>
    simp only [Task.run, Host.evalEach, Attempt.runIn_pure]
    exact .evalNil
  | cons item items =>
    have hhead := hbegun _ .head state
    simp only [Task.run, Host.evalEach] at hhead ⊢
    cases hrun : ((registry.hostAt maxDepth room).eval scope (place.child index) item).runIn state
      with | mk outcome middle
    rw [hrun] at hhead
    cases outcome with
    | error fault =>
      rw [Attempt.runIn_bind_of_error hrun]
      exact .evalFails hhead
    | ok values =>
      rw [Attempt.runIn_bind_of_ok hrun, Attempt.runIn_bind_pure]
      exact .evalCons hhead (hbegun _ .tail middle)

/-- The arguments of a prepared call were bound in some edition. -/
theorem exists_edition_of_prepare {f : Function} {bound : Bound site} {state middle : State}
    (h : (site.prepare registry space place).runIn state = (.ok (f, bound), middle)) :
    ∃ edition : Edition, edition.bind site = .ok bound := by
  obtain ⟨hpure, -⟩ := prepare_of_runIn_ok h
  exact ⟨_, (Pin.prepare_eq_ok.mp hpure).2⟩

theorem derivable_execute
    (hbegun : (Task.execute room scope space place site).IsBacked registry maxDepth) :
    (Task.execute room scope space place site).Derivable registry maxDepth := by
  intro state
  simp only [Task.run, Host.execute, Registry.registry_hostAt]
  cases hprepared : (site.prepare registry space place).runIn state with | mk outcome middle
  cases outcome with
  | error fault =>
    rw [Attempt.runIn_bind_of_error hprepared]
    exact .unprepared hprepared
  | ok prepared =>
    obtain ⟨f, bindings, hreach⟩ := prepared
    obtain ⟨edition, hbind⟩ := exists_edition_of_prepare hprepared
    rw [Attempt.runIn_bind_of_ok hprepared]
    have harguments := hbegun _ (.arguments hbind) middle
    simp only [Task.run] at harguments
    cases hrun : ((registry.hostAt maxDepth room).evalEach scope place 0
      (bindings.map Binding.expr)).runIn middle with | mk outcome called
    rw [hrun] at harguments
    cases outcome with
    | error fault =>
      simp only [Attempt.runIn_bind_of_error hrun]
      exact .argumentFails hprepared harguments
    | ok values =>
      simp only [Attempt.runIn_bind_of_ok hrun, Attempt.runIn_bind_pure]
      exact .executed hprepared harguments trivial (hbegun _ .run called)

theorem derivable_invoke {f : Function} {arguments : Bundle}
    (hbegun : (Task.invoke room f arguments).IsBacked registry maxDepth) :
    (Task.invoke room f arguments).Derivable registry maxDepth := by
  intro state
  cases room with
  | zero =>
    simp only [Task.run]
    rw [Registry.invoke]
    exact .noRoom
  | succ room =>
    simp only [Task.run]
    rw [Registry.invoke]
    have hbody := hbegun _ .body
      { state with history := ⟨f, arguments, maxDepth - room⟩ :: state.history }
    exact .invoked hbody fun _ _ => trivial

theorem derivable_converse {n : Nat} {body : Body n} {exprs : Vector (Rooted Expr) n}
    (hbegun : (Task.converse room body exprs).IsBacked registry maxDepth) :
    (Task.converse room body exprs).Derivable registry maxDepth := by
  intro state
  cases body with
  | done result =>
    simp only [Task.run, Body.run, Attempt.runIn_liftExcept]
    exact .done
  | draw least greatest next =>
    simp only [Task.run, Body.run]
    rw [Attempt.runIn_bind_of_ok (runIn_draw least greatest state)]
    exact .draw (hbegun _ (.next (.drawn _)) _)
  | parse space text target failed parsed =>
    simp only [Task.run, Body.run]
    cases hparse : (registry.reader space).parse text target with
    | error failure => exact .unread hparse (hbegun _ (.next (.unread failure)) state)
    | ok e =>
      exact .read hparse (hbegun (.converse room parsed (exprs.push ⟨state.nextRoot, e⟩))
        (.next .read) { state with nextRoot := state.nextRoot + 1 })
  | evaluate frame index next =>
    simp only [Task.run, Body.run]
    by_cases henough : frame.below ≤ room
    · -- Whatever the answer is, the body goes on with it.
      have hbelow : registry.hostBelow maxDepth room frame.below =
          .ok (registry.hostAt maxDepth (room - frame.below)) := if_pos henough
      have hheld : exprs[index] ∈ exprs := Vector.getElem_mem index.2
      have hanswer := hbegun _ (.evaluated hheld henough) state
      simp only [hbelow]
      rw [Attempt.runIn_bind_of_ok (runIn_outcome ..)]
      exact .evaluated henough hanswer (hbegun _ (.next (.answered _)) _)
    · have hbelow : registry.hostBelow maxDepth room frame.below =
          .error (.recursionLimit maxDepth) := if_neg henough
      simp only [hbelow]
      exact .tooDeep (Nat.lt_of_not_le henough) (hbegun _ (.next (.answered _)) state)

theorem derivable_validate {e : Expr}
    (hbegun : (Task.validate place e).IsBacked registry maxDepth) :
    (Task.validate place e).Derivable registry maxDepth := by
  intro state
  cases e with
  | literal value =>
    simp only [Task.run, Registry.validate, Attempt.runIn_pure]
    exact .validLiteral
  | template text =>
    simp only [Task.run, Registry.validate, Attempt.runIn_pure]
    exact .validTemplate
  | reference target =>
    simp only [Task.run, Registry.validate, Attempt.runIn_pure]
    exact .validReference
  | list items ty =>
    simp only [Task.run, Registry.validate]
    exact .validList (hbegun _ .validItems state)
  | converted inner target =>
    simp only [Task.run, Registry.validate]
    exact .validConverted (hbegun _ .validInner state)
  | call site ty single =>
    simp only [Task.run, Registry.validate]
    cases hprepared : (site.prepare registry site.space place).runIn state with | mk outcome middle
    cases outcome with
    | error fault =>
      rw [Attempt.runIn_bind_of_error hprepared]
      exact .invalidCall hprepared
    | ok prepared =>
      obtain ⟨f, bindings, hreach⟩ := prepared
      obtain ⟨edition, hbind⟩ := exists_edition_of_prepare hprepared
      rw [Attempt.runIn_bind_of_ok hprepared]
      exact .validCall hprepared (hbegun _ (.validArguments hbind) middle)

theorem derivable_validateEach {index : Nat} {items : List Expr}
    (hbegun : (Task.validateEach place index items).IsBacked registry maxDepth) :
    (Task.validateEach place index items).Derivable registry maxDepth := by
  intro state
  cases items with
  | nil =>
    simp only [Task.run, Registry.validateEach, Attempt.runIn_pure]
    exact .validNil
  | cons item items =>
    have hhead := hbegun _ .validHead state
    simp only [Task.run, Registry.validateEach] at hhead ⊢
    cases hrun : (registry.validate (place.child index) item).runIn state with | mk outcome middle
    rw [hrun] at hhead
    cases outcome with
    | error fault =>
      rw [Attempt.runIn_bind_of_error hrun]
      exact .validFails hhead
    | ok _ =>
      rw [Attempt.runIn_bind_of_ok hrun]
      exact .validCons hhead (hbegun _ .validTail middle)

/-- The evaluator follows the rules. -/
theorem derives (registry : Registry) (maxDepth : Nat) {α : Type} (task : Task α) :
    task.Derivable registry maxDepth := by
  -- The induction is over what tasks begin, which is well-founded.
  let derivable (task : Σ α, Task α) : Prop := task.2.Derivable registry maxDepth
  show derivable ⟨α, task⟩
  apply (Task.wellFounded_begins registry maxDepth).induction
  intro ⟨α, task⟩ ih
  have hbegun : task.IsBacked registry maxDepth := fun later h => ih ⟨_, later⟩ h
  cases task with
  | eval => exact derivable_eval hbegun
  | evalEach => exact derivable_evalEach hbegun
  | execute => exact derivable_execute hbegun
  | invoke => exact derivable_invoke hbegun
  | converse => exact derivable_converse hbegun
  | validate => exact derivable_validate hbegun
  | validateEach => exact derivable_validateEach hbegun

end

/-! ## The rules lead nowhere else -/

/-- A derivation ends as the evaluator does. -/
theorem Derives.runIn_eq {registry : Registry} {maxDepth : Nat} {law : Law} {α : Type}
    {task : Task α} {state after : State} {outcome : Except Fault α}
    (h : Derives registry maxDepth law task state outcome after) :
    (task.run registry maxDepth).runIn state = (outcome, after) := by
  induction h with
  | literal | template | reference => simp only [Task.run, Host.eval, Attempt.runIn_pure]
  | list parts ih =>
    simp only [Task.run, Host.eval, Attempt.runIn_bind_pure] at ih ⊢
    rw [ih]
  | converted part ih =>
    simp only [Task.run, Host.eval, Attempt.runIn_bind_liftExcept] at ih ⊢
    rw [ih]
  | call executed ih =>
    simp only [Task.run, Host.eval, Attempt.runIn_bind_pure] at ih ⊢
    rw [ih]
  | evalNil => simp only [Task.run, Host.evalEach, Attempt.runIn_pure]
  | evalFails head ih =>
    simp only [Task.run, Host.evalEach] at ih ⊢
    rw [Attempt.runIn_bind_of_error ih]
  | evalCons head rest ih ih' =>
    simp only [Task.run, Host.evalEach] at ih ih' ⊢
    rw [Attempt.runIn_bind_of_ok ih, Attempt.runIn_bind_pure, ih']
  | unprepared prepared =>
    simp only [Task.run, Host.execute, Registry.registry_hostAt]
    rw [Attempt.runIn_bind_of_error prepared]
  | argumentFails prepared arguments ih =>
    simp only [Task.run, Host.execute, Registry.registry_hostAt] at ih ⊢
    rw [Attempt.runIn_bind_of_ok prepared]
    exact Attempt.runIn_bind_of_error ih
  | executed prepared arguments kept invoked ih ih' =>
    simp only [Task.run, Host.execute, Registry.registry_hostAt] at ih ih' ⊢
    rw [Attempt.runIn_bind_of_ok prepared]
    show Attempt.runIn (_ >>= _) _ = _
    rw [Attempt.runIn_bind_of_ok ih, Attempt.runIn_bind_pure, Registry.invoke_hostAt, ih']
  | noRoom =>
    simp only [Task.run]
    rw [Registry.invoke]
    rfl
  | invoked body kept ih =>
    simp only [Task.run] at ih ⊢
    rw [Registry.invoke]
    exact ih
  | done => simp only [Task.run, Body.run, Attempt.runIn_liftExcept]
  | draw rest ih =>
    simp only [Task.run, Body.run] at ih ⊢
    rw [Attempt.runIn_bind_of_ok (runIn_draw ..), ih]
  | unread refused rest ih =>
    simp only [Task.run, Body.run, refused] at ih ⊢
    exact ih
  | read accepted rest ih =>
    simp only [Task.run, Body.run, accepted] at ih ⊢
    exact ih
  | tooDeep deep rest ih =>
    simp only [Task.run, Body.run, Registry.hostBelow, if_neg (Nat.not_le_of_lt deep)] at ih ⊢
    exact ih
  | evaluated enough answered rest ih ih' =>
    simp only [Task.run, Body.run, Registry.hostBelow, if_pos enough] at ih ih' ⊢
    rw [Attempt.runIn_bind_of_ok (runIn_outcome ..), ih]
    exact ih'
  | validLiteral | validTemplate | validReference =>
    simp only [Task.run, Registry.validate, Attempt.runIn_pure]
  | validList parts ih =>
    simp only [Task.run, Registry.validate] at ih ⊢
    exact ih
  | validConverted part ih =>
    simp only [Task.run, Registry.validate] at ih ⊢
    exact ih
  | invalidCall prepared =>
    simp only [Task.run, Registry.validate]
    rw [Attempt.runIn_bind_of_error prepared]
  | validCall prepared arguments ih =>
    simp only [Task.run, Registry.validate] at ih ⊢
    rw [Attempt.runIn_bind_of_ok prepared]
    exact ih
  | validNil => simp only [Task.run, Registry.validateEach, Attempt.runIn_pure]
  | validFails head ih =>
    simp only [Task.run, Registry.validateEach] at ih ⊢
    rw [Attempt.runIn_bind_of_error ih]
  | validCons head rest ih ih' =>
    simp only [Task.run, Registry.validateEach] at ih ih' ⊢
    rw [Attempt.runIn_bind_of_ok ih, ih']

/-- A task that is begun in a state ends in one way only. -/
theorem Derives.unique {registry : Registry} {maxDepth : Nat} {law : Law} {α : Type}
    {task : Task α} {state after after' : State} {outcome outcome' : Except Fault α}
    (h : Derives registry maxDepth law task state outcome after)
    (h' : Derives registry maxDepth law task state outcome' after') :
    outcome = outcome' ∧ after = after' := by
  have hsame := h.runIn_eq.symm.trans h'.runIn_eq
  exact ⟨congrArg Prod.fst hsame, congrArg Prod.snd hsame⟩

/-- What keeps to a law is an evaluation. -/
theorem Derives.free {registry : Registry} {maxDepth : Nat} {law : Law} {α : Type} {task : Task α}
    {state after : State} {outcome : Except Fault α}
    (h : Derives registry maxDepth law task state outcome after) :
    Derives registry maxDepth .free task state outcome after := by
  have hran := derives registry maxDepth task state
  rwa [h.runIn_eq] at hran

/-! ## How calls and runs are derived -/

/-- How the execution of a call, or the run of a function, can have been derived. -/
def Task.IsDerived (registry : Registry) (maxDepth : Nat) (law : Law) :
    {α : Type} → Task α → State → Except Fault α → State → Prop
  | _, execute room scope space place site, state, outcome, after =>
    (∃ fault, (site.prepare registry space place).runIn state = (.error fault, after) ∧
      outcome = .error fault) ∨
    ∃ (f : Function) (bound : Bound site) (middle : State),
      (site.prepare registry space place).runIn state = (.ok (f, bound), middle) ∧
      ((∃ fault, Derives registry maxDepth law
          (.evalEach room scope place 0 (bound.1.map Binding.expr)) middle (.error fault) after ∧
          outcome = .error fault) ∨
        ∃ values called result, Derives registry maxDepth law
            (.evalEach room scope place 0 (bound.1.map Binding.expr)) middle (.ok values) called ∧
          law.passes called place bound.1 ∧
          Derives registry maxDepth law (.invoke room f (Bundle.ofBindings bound.1 values)) called
            result after ∧ outcome = result.map f.signature.shape)
  | _, invoke 0 _ _, state, outcome, after =>
    outcome = .error (.own (.recursionLimit maxDepth)) ∧ after = state
  | _, invoke (room + 1) f arguments, state, outcome, after =>
    Derives registry maxDepth law
      (.converse room (f.body arguments ⟨Scope.empty, maxDepth - room, maxDepth⟩) f.shared)
      { state with history := ⟨f, arguments, maxDepth - room⟩ :: state.history } outcome after
  | _, _, _, _, _ => True

/-- A call or a run is derived by one of the rules for it. -/
theorem Derives.isDerived {registry : Registry} {maxDepth : Nat} {law : Law} {α : Type}
    {task : Task α} {state after : State} {outcome : Except Fault α}
    (h : Derives registry maxDepth law task state outcome after) :
    task.IsDerived registry maxDepth law state outcome after := by
  cases h with
  | unprepared prepared => exact .inl ⟨_, prepared, rfl⟩
  | argumentFails prepared arguments =>
    exact .inr ⟨_, _, _, prepared, .inl ⟨_, arguments, rfl⟩⟩
  | executed prepared arguments kept invoked =>
    exact .inr ⟨_, _, _, prepared, .inr ⟨_, _, _, arguments, kept, invoked, rfl⟩⟩
  | noRoom => exact ⟨rfl, rfl⟩
  | invoked body => exact body
  | _ => trivial

/-- How the evaluation of an expression or of its parts can have been derived. -/
def Task.IsEvaluated (registry : Registry) (maxDepth : Nat) (law : Law) :
    {α : Type} → Task α → State → Except Fault α → State → Prop
  | _, eval _ _ _ (.literal value), _, outcome, _ => outcome = .ok [value]
  | _, eval _ scope _ (.template text), _, outcome, _ =>
    outcome = .ok [.text (String.ofList (scope.interpolate text.toList))]
  | _, eval _ scope _ (.reference target), _, outcome, _ => outcome = .ok (scope.resolve target)
  | _, eval room scope place (.list items _), state, outcome, after =>
    ∃ parts, Derives registry maxDepth law (.evalEach room scope place 0 items) state parts after ∧
      outcome = parts.map List.flatten
  | _, eval room scope place (.converted inner target), state, outcome, after =>
    ∃ part, Derives registry maxDepth law (.eval room scope place inner) state part after ∧
      outcome = part.bind (convertAll target)
  | _, eval room scope place (.call site _ _), state, outcome, after =>
    ∃ executed, Derives registry maxDepth law (.execute room scope site.space place site) state
        executed after ∧
      outcome = executed.map fun returned => (returned.map Returned.values).getD []
  | _, evalEach _ _ _ _ [], state, outcome, after => outcome = .ok [] ∧ after = state
  | _, evalEach room scope place index (item :: items), state, outcome, after =>
    (∃ fault, Derives registry maxDepth law (.eval room scope (place.child index) item) state
        (.error fault) after ∧ outcome = .error fault) ∨
      ∃ values middle rest,
        Derives registry maxDepth law (.eval room scope (place.child index) item) state
          (.ok values) middle ∧
        Derives registry maxDepth law (.evalEach room scope place (index + 1) items) middle rest
          after ∧
        outcome = rest.map (values :: ·)
  | _, _, _, _, _ => True

/-- An expression and its parts are evaluated by one of the rules for them. -/
theorem Derives.isEvaluated {registry : Registry} {maxDepth : Nat} {law : Law} {α : Type}
    {task : Task α} {state after : State} {outcome : Except Fault α}
    (h : Derives registry maxDepth law task state outcome after) :
    task.IsEvaluated registry maxDepth law state outcome after := by
  cases h with
  | literal | template | reference => rfl
  | list parts => exact ⟨_, parts, rfl⟩
  | converted part => exact ⟨_, part, rfl⟩
  | call executed => exact ⟨_, executed, rfl⟩
  | evalNil => exact ⟨rfl, rfl⟩
  | evalFails head => exact .inl ⟨_, head, rfl⟩
  | evalCons head rest => exact .inr ⟨_, _, _, head, rest, rfl⟩
  | _ => trivial

/-- How the dialogue with a body can have gone on. -/
def Task.GoesOn (registry : Registry) (maxDepth : Nat) (law : Law) :
    {α : Type} → Task α → State → Except Fault α → State → Prop
  | _, converse room (.draw least greatest next) exprs, state, outcome, after =>
    Derives registry maxDepth law (.converse room (next (state.drawn least greatest).1) exprs)
      (state.drawn least greatest).2 outcome after
  | _, converse room (.parse space text target failed parsed) exprs, state, outcome, after =>
    (∃ failure, (registry.reader space).parse text target = .error failure ∧
      Derives registry maxDepth law (.converse room (failed failure) exprs) state outcome after) ∨
    ∃ e, (registry.reader space).parse text target = .ok e ∧
      Derives registry maxDepth law (.converse room parsed (exprs.push ⟨state.nextRoot, e⟩))
        { state with nextRoot := state.nextRoot + 1 } outcome after
  | _, converse room (.evaluate frame ⟨index, _⟩ next) exprs, state, outcome, after =>
    (room < frame.below ∧ Derives registry maxDepth law
      (.converse room (next (.error (.recursionLimit maxDepth))) exprs) state outcome after) ∨
    ∃ answer middle, frame.below ≤ room ∧
      Derives registry maxDepth law
        (.eval (room - frame.below) frame.scope ⟨exprs[index].root, []⟩ exprs[index].item) state
        answer middle ∧
      Derives registry maxDepth law (.converse room (next (answer.mapError Fault.error)) exprs)
        middle outcome after
  | _, _, _, _, _ => True

/-- The dialogue with a body goes on by one of the rules for it. -/
theorem Derives.goesOn {registry : Registry} {maxDepth : Nat} {law : Law} {α : Type}
    {task : Task α} {state after : State} {outcome : Except Fault α}
    (h : Derives registry maxDepth law task state outcome after) :
    task.GoesOn registry maxDepth law state outcome after := by
  cases h with
  | draw rest => exact rest
  | unread refused rest => exact .inl ⟨_, refused, rest⟩
  | read accepted rest => exact .inr ⟨_, accepted, rest⟩
  | tooDeep deep rest => exact .inl ⟨deep, rest⟩
  | evaluated enough answered rest => exact .inr ⟨_, _, enough, answered, rest⟩
  | _ => trivial

end CallScript

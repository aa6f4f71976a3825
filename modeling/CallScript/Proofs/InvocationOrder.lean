import CallScript.Proofs.CallTree
import CallScript.Proofs.RecursionLimit
import CallScript.Proofs.StaticTypes
import CallScript.Proofs.Twins

/-!
# In what order functions are run

Evaluating an expression runs the functions of its calls, and these may run others. How an
evaluation gets on is told by the points of its call tree that it has passed, and by the runs that
it has made for calls of the tree, in order (`Progress`). The runs that a body brings about are left
out: they lie between the state before the run and the one after it.

An evaluation that succeeds passes all points, and has made one run for each call, in postorder. One
that fails has passed the points up to the one where it fails, and made the runs that belong to
these; if a function fails, its run is the last one, and the error is handed on as the body returned
it (`Traced`). This holds in every state, whatever call sites remember and whatever functions do,
also if they evaluate the same expression again while it is being evaluated (`Derives.traced`).
-/

namespace CallScript

/-! ## How a dialogue ends -/

/-- Whether the dialogue with a body gets to its end, and the result there is the outcome. -/
def Task.Concludes (registry : Registry) (maxDepth : Nat) :
    {α : Type} → Task α → State → Except Fault α → State → Prop
  | _, @converse n room body exprs, state, outcome, after =>
    ∃ (m : Nat) (result : Except Error (List Value)) (exprs' : Vector (Rooted Expr) m),
      Relation.ReflTransGen (Exchange.Step registry maxDepth room) ⟨n, body, exprs, state⟩
        ⟨m, .done result, exprs', after⟩ ∧
      outcome = result.mapError Fault.ofBody
  | _, _, _, _, _ => True

/-- Every dialogue gets to its end. -/
theorem Derives.concludes {registry : Registry} {maxDepth : Nat} {α : Type} {task : Task α}
    {state after : State} {outcome : Except Fault α}
    (h : Derives registry maxDepth .free task state outcome after) :
    task.Concludes registry maxDepth state outcome after := by
  induction h with
  | done => exact ⟨_, _, _, .refl, rfl⟩
  | draw _ ih =>
    obtain ⟨m, result, exprs', hsteps, houtcome⟩ := ih
    exact ⟨m, result, exprs', .head .draw hsteps, houtcome⟩
  | unread refused _ ih =>
    obtain ⟨m, result, exprs', hsteps, houtcome⟩ := ih
    exact ⟨m, result, exprs', .head (.unread refused) hsteps, houtcome⟩
  | read accepted _ ih =>
    obtain ⟨m, result, exprs', hsteps, houtcome⟩ := ih
    exact ⟨m, result, exprs', .head (.read accepted) hsteps, houtcome⟩
  | tooDeep deep _ ih =>
    obtain ⟨m, result, exprs', hsteps, houtcome⟩ := ih
    exact ⟨m, result, exprs', .head (.tooDeep deep) hsteps, houtcome⟩
  | evaluated enough answered _ _ ih =>
    obtain ⟨m, result, exprs', hsteps, houtcome⟩ := ih
    exact ⟨m, result, exprs', .head (.evaluated enough answered) hsteps, houtcome⟩
  | _ => trivial

/-! ## Runs -/

/-- A run of a function for a call of an expression: the call, the function with its arguments, the
state in which it was begun, what its body returned, and the state that it left. -/
structure CallRun where
  call : CallNode
  function : Function
  arguments : Bundle
  before : State
  result : Except Error (List Value)
  after : State

/-- How a run made in a context is noted in the history. -/
def CallRun.invocation (context : Context) (run : CallRun) : Invocation :=
  ⟨run.function, run.arguments, context.depth + 1⟩

/-- Whether a function was run as said, for a call that is made in a context. It is the function of
the call, and the arguments are values of the bound ones; `final` is the state that tells these. The
result is the one with which the dialogue with the body ended, one level deeper. -/
structure CallRun.IsMade (registry : Registry) (context : Context) (final : State)
    (run : CallRun) : Prop where
  found : ∃ (bound : Bound run.call.site) (values : List (List Value)),
    run.call.found registry final.pins = .ok (run.function, bound) ∧
      run.arguments = Bundle.ofBindings bound.1 values
  ran : ((registry.host context).invoke run.function run.arguments).runIn run.before =
    (run.result.mapError Fault.ofBody, run.after)
  returned : ∃ (child : Context) (n : Nat) (exprs : Vector (Rooted Expr) n),
    context.child = .ok child ∧
      Relation.ReflTransGen
        (Exchange.Step registry child.maxDepth (child.maxDepth - child.depth))
        ⟨run.function.sharedCount, run.function.body run.arguments child, run.function.shared,
          { run.before with
            history := ⟨run.function, run.arguments, child.depth⟩ :: run.before.history }⟩
        ⟨n, .done run.result, exprs, run.after⟩

/-- One run after the other leads from a state to another one, and nothing is run in between. -/
inductive CallRun.Chain (registry : Registry) (context : Context) (final : State) :
    State → List CallRun → State → Prop where
  | none {state after} (same : after.history = state.history) :
      Chain registry context final state [] after
  | next {state run runs after} (same : run.before.history = state.history)
      (made : run.IsMade registry context final)
      (rest : Chain registry context final run.after runs after) :
      Chain registry context final state (run :: runs) after

variable {registry : Registry} {context : Context} {final state middle after : State}

namespace CallRun

theorem Chain.of_history_eq {start : State} {runs : List CallRun}
    (h : Chain registry context final middle runs after)
    (hsame : middle.history = start.history) : Chain registry context final start runs after := by
  cases h with
  | none same => exact .none (same.trans hsame)
  | next same made rest => exact .next (same.trans hsame) made rest

theorem Chain.append {runs runs' : List CallRun} (h : Chain registry context final state runs middle)
    (h' : Chain registry context final middle runs' after) :
    Chain registry context final state (runs ++ runs') after := by
  induction h with
  | none same => exact h'.of_history_eq same
  | next same made _ ih => exact .next same made (ih h')

/-- A function that is called fails at the depth check, or is run. -/
theorem exists_isMade {call : CallNode} {f : Function} {bound : Bound call.site}
    {values : List (List Value)} {outcome : Except Fault (List Value)}
    (h : Derives registry context.maxDepth .free
      (.invoke (context.maxDepth - context.depth) f (Bundle.ofBindings bound.1 values)) state outcome
      after)
    (hfound : call.found registry final.pins = .ok (f, bound)) :
    (∃ e, context.child = .error e ∧ outcome = .error (.own e) ∧ after = state) ∨
      ∃ result, outcome = result.mapError Fault.ofBody ∧
        IsMade registry context final
          ⟨call, f, Bundle.ofBindings bound.1 values, state, result, after⟩ := by
  have hran := h.runIn_eq
  have hchild := h.invoke_child
  cases hcontext : context.child with
  | error e =>
    rw [hcontext] at hchild
    exact .inl ⟨e, rfl, hchild⟩
  | ok child =>
    rw [hcontext] at hchild
    obtain ⟨n, result, exprs, hsteps, rfl⟩ := hchild.concludes
    exact .inr ⟨result, rfl, ⟨bound, values, hfound, rfl⟩, hran, child, n, exprs, hcontext, hsteps⟩

/-- What a run adds to the history: itself, and runs that are deeper. -/
theorem IsMade.noted {run : CallRun} (h : run.IsMade registry context final) :
    ∃ new, run.after.history = new ++ run.before.history ∧
      (∀ other ∈ new, context.depth < other.depth) ∧
      new.filter (fun other => other.depth = context.depth + 1) = [run.invocation context] := by
  obtain ⟨child, n, exprs, hchild, hsteps⟩ := h.returned
  unfold Context.child at hchild
  split at hchild
  · next hless =>
    cases hchild
    have hdone := @Derives.done registry context.maxDepth .free n
      (context.maxDepth - (context.depth + 1)) run.result run.after exprs
    have hbody := Exchange.derives_of_steps hsteps hdone
    obtain ⟨inside, hinside, hnested⟩ := hbody.nested (Nat.sub_le _ _)
    -- What the body brings about lies below the body.
    have hdeeper : ∀ other ∈ inside, context.depth + 1 < other.depth := by
      intro other hother
      have hdepth := (IsNested.depth_of_mem hnested hother).1
      show context.depth + 1 < other.depth
      replace hdepth : context.maxDepth - (context.maxDepth - (context.depth + 1)) < other.depth :=
        hdepth
      omega
    refine ⟨inside ++ [run.invocation context], ?_, ?_, ?_⟩
    · rw [hinside, List.append_assoc, List.singleton_append]
      rfl
    · intro other hother
      rcases List.mem_append.mp hother with hother | hother
      · exact Nat.lt_of_succ_lt (hdeeper other hother)
      · rw [List.mem_singleton.mp hother]
        exact Nat.lt_succ_self _
    · have hnone : inside.filter (fun other => other.depth = context.depth + 1) = [] := by
        apply List.filter_eq_nil_iff.mpr
        intro other hother
        have hdepth := hdeeper other hother
        simp only [decide_eq_true_eq]
        omega
      rw [List.filter_append, hnone, List.nil_append]
      exact List.filter_cons_of_pos (decide_eq_true rfl)
  · cases hchild

end CallRun

/-! ## Progress -/

/-- How far an evaluation in a context has got: it has passed the points `done`, and made the runs
`passed`, which succeeded, and then `last`, if there is one.

* The runs are those of the calls that were entered, in the same order.
* The calls that were prepared could be.
* In the history, where the last run comes first, the runs are those just below the context; all
  others lie deeper. -/
structure Progress (registry : Registry) (context : Context) (final state : State)
    (passed : List CallRun) (last : Option CallRun) (done : List Point) (after : State) :
    Prop where
  chain : CallRun.Chain registry context final state (passed ++ last.toList) after
  entered : (passed ++ last.toList).map CallRun.call = done.filterMap Point.entered
  succeeded : ∀ run ∈ passed, ∃ values, run.result = .ok values
  prepared : ∀ call, .prepare call ∈ done → ∃ found, call.found registry final.pins = .ok found
  history : ∃ new, after.history = new ++ state.history ∧
    (∀ run ∈ new, context.depth < run.depth) ∧
    new.filter (fun run => run.depth = context.depth + 1) =
      ((passed ++ last.toList).map (CallRun.invocation context)).reverse

/-- Whether an evaluation fails at a point with a fault, after the run `last` if that has failed. -/
def Point.Fails (registry : Registry) (context : Context) (final : State) (fault : Fault)
    (last : Option CallRun) : Point → Prop
  | prepare call => last = none ∧ ∃ cause, call.found registry final.pins = .error cause ∧
      fault = .own (.call call.site.name cause)
  | convert _ target => last = none ∧ ∃ v, v.convert? target = none ∧
      fault = .own (.conversion v target)
  | enter _ => last = none ∧ ∃ e, context.child = .error e ∧ fault = .own e
  | leave call => ∃ run e, last = some run ∧ run.call = call ∧ run.result = .error e ∧
      fault = .ofBody e ∧ run.after = final

/-- How an evaluation goes through its call tree. If it succeeds, it has passed all points, and made
one run for each call, in postorder. If it fails, it has passed all points before the one at which it
fails. -/
structure Traced (registry : Registry) (context : Context) (final : State) (tree : CallTree)
    {α : Type} (state : State) (outcome : Except Fault α) (after : State) : Prop where
  succeeds : ∀ a, outcome = .ok a → ∃ passed,
    Progress registry context final state passed none tree.points after ∧
      passed.map CallRun.call = tree.postorder
  fails : ∀ fault, outcome = .error fault → ∃ passed last done failing later,
    Progress registry context final state passed last done after ∧
      tree.points = done ++ failing :: later ∧ failing.Fails registry context final fault last

namespace Progress

variable {passed passed' : List CallRun} {last : Option CallRun} {done done' : List Point}

theorem nil (hsame : after.history = state.history) :
    Progress registry context final state [] none [] after where
  chain := .none hsame
  entered := rfl
  succeeded _ h := absurd h List.not_mem_nil
  prepared _ h := absurd h List.not_mem_nil
  history := ⟨[], hsame, fun _ h => absurd h List.not_mem_nil, rfl⟩

theorem append (h : Progress registry context final state passed none done middle)
    (h' : Progress registry context final middle passed' last done' after) :
    Progress registry context final state (passed ++ passed') last (done ++ done') after := by
  obtain ⟨hchain, hentered, hsucceeded, hprepared, new, hnew, hdeeper, hfilter⟩ := h
  obtain ⟨hchain', hentered', hsucceeded', hprepared', new', hnew', hdeeper', hfilter'⟩ := h'
  rw [Option.toList_none, List.append_nil] at hchain hentered hfilter
  refine ⟨?_, ?_, ?_, ?_, new' ++ new, ?_, ?_, ?_⟩
  · rw [List.append_assoc]
    exact hchain.append hchain'
  · rw [List.append_assoc, List.map_append, hentered, hentered', List.filterMap_append]
  · intro run hrun
    rcases List.mem_append.mp hrun with hrun | hrun
    · exact hsucceeded run hrun
    · exact hsucceeded' run hrun
  · intro call hcall
    rcases List.mem_append.mp hcall with hcall | hcall
    · exact hprepared call hcall
    · exact hprepared' call hcall
  · rw [hnew', hnew, List.append_assoc]
  · intro run hrun
    rcases List.mem_append.mp hrun with hrun | hrun
    · exact hdeeper' run hrun
    · exact hdeeper run hrun
  · rw [List.filter_append, hfilter, hfilter', ← List.reverse_append, ← List.map_append,
      List.append_assoc]

/-- A point is passed at which nothing is run. -/
theorem pass {point : Point} (hquiet : point.entered = none)
    (hprepared : ∀ call, point = .prepare call →
      ∃ found, call.found registry final.pins = .ok found)
    (hsame : after.history = state.history) :
    Progress registry context final state [] none [point] after where
  chain := .none hsame
  entered := by
    rw [List.filterMap_cons_none hquiet]
    rfl
  succeeded _ h := absurd h List.not_mem_nil
  prepared call hcall := hprepared call (List.mem_singleton.mp hcall).symm
  history := ⟨[], hsame, fun _ h => absurd h List.not_mem_nil, rfl⟩

/-- A call is prepared. -/
theorem prepare {call : CallNode} {found : Function × Bound call.site}
    (hfound : call.found registry final.pins = .ok found) (hsame : after.history = state.history) :
    Progress registry context final state [] none [.prepare call] after := by
  refine pass rfl ?_ hsame
  intro other hother
  cases hother
  exact ⟨found, hfound⟩

/-- Values are converted. -/
theorem convert (place : Place) (target : Ty) :
    Progress registry context final state [] none [.convert place target] state := by
  refine pass rfl ?_ rfl
  intro call hcall
  cases hcall

/-- A function is run and fails. -/
theorem enter {run : CallRun} (h : run.IsMade registry context final) :
    Progress registry context final run.before [] (some run) [.enter run.call] run.after where
  chain := .next rfl h (.none rfl)
  entered := rfl
  succeeded _ h := absurd h List.not_mem_nil
  prepared call hcall := by cases List.mem_singleton.mp hcall
  history := h.noted

/-- A function is run and succeeds. -/
theorem leave {run : CallRun} (h : run.IsMade registry context final)
    {values : List Value} (hresult : run.result = .ok values) :
    Progress registry context final run.before [run] none [.enter run.call, .leave run.call]
      run.after where
  chain := .next rfl h (.none rfl)
  entered := rfl
  succeeded other hother := by
    rw [List.mem_singleton.mp hother]
    exact ⟨values, hresult⟩
  prepared call hcall := by
    rcases List.mem_cons.mp hcall with hcall | hcall
    · cases hcall
    · cases List.mem_singleton.mp hcall
  history := h.noted

end Progress

/-! ## Evaluations are traced -/

namespace Traced

variable {α β : Type} {tree first rest inner arguments : CallTree} {outcome : Except Fault α}

/-- Where there is no call, nothing is run. -/
theorem leaf (a : α) : Traced registry context final .leaf state (.ok a) state where
  succeeds _ _ := ⟨[], .nil rfl, rfl⟩
  fails fault h := by cases h

theorem map (h : Traced registry context final tree state outcome after) (f : α → β) :
    Traced registry context final tree state (outcome.map f) after where
  succeeds b hb := by
    obtain ⟨a, ha, -⟩ := exists_of_map_eq_ok hb
    exact h.succeeds a ha
  fails fault hfault := h.fails fault (eq_error_of_map hfault)

/-- An evaluation that fails in the first part does not come to the later ones. -/
theorem parts_of_error {fault : Fault}
    (h : Traced registry context final first state (.error fault : Except Fault α) after) :
    Traced registry context final (.parts first rest) state (.error fault : Except Fault β)
      after where
  succeeds b hb := by cases hb
  fails other hother := by
    cases hother
    obtain ⟨passed, last, done, failing, later, hprogress, hpoints, hfails⟩ := h.fails fault rfl
    refine ⟨passed, last, done, failing, later ++ rest.points, hprogress, ?_, hfails⟩
    rw [CallTree.points, hpoints, List.append_assoc, List.cons_append]

/-- An evaluation that gets through the first part goes on with the later ones. -/
theorem parts {a : α} {outcome : Except Fault β}
    (h : Traced registry context final first state (.ok a) middle)
    (h' : Traced registry context final rest middle outcome after) :
    Traced registry context final (.parts first rest) state outcome after := by
  obtain ⟨passed, hprogress, hcalls⟩ := h.succeeds a rfl
  constructor
  · intro b hb
    obtain ⟨passed', hprogress', hcalls'⟩ := h'.succeeds b hb
    refine ⟨passed ++ passed', hprogress.append hprogress', ?_⟩
    rw [List.map_append, hcalls, hcalls', CallTree.postorder]
  · intro fault hfault
    obtain ⟨passed', last, done, failing, later, hprogress', hpoints, hfails⟩ :=
      h'.fails fault hfault
    refine ⟨passed ++ passed', last, first.points ++ done, failing, later,
      hprogress.append hprogress', ?_, hfails⟩
    rw [CallTree.points, hpoints, List.append_assoc]

/-- Values are converted after the part that they come from was evaluated. -/
theorem converted {values : Except Fault (List Value)} {place : Place} {target : Ty}
    (h : Traced registry context final inner state values after) :
    Traced registry context final (.converted place target inner) state
      (values.bind (convertAll target)) after where
  succeeds b hb := by
    obtain ⟨a, ha, -⟩ := exists_of_bind_eq_ok hb
    obtain ⟨passed, hprogress, hcalls⟩ := h.succeeds a ha
    have hconvert := hprogress.append (.convert place target)
    rw [List.append_nil] at hconvert
    exact ⟨passed, hconvert, hcalls⟩
  fails fault hfault := by
    rcases error_of_bind_eq_error hfault with hfault | ⟨a, ha, hconvert⟩
    · obtain ⟨passed, last, done, failing, later, hprogress, hpoints, hfails⟩ :=
        h.fails fault hfault
      refine ⟨passed, last, done, failing, later ++ [.convert place target], hprogress, ?_, hfails⟩
      rw [CallTree.points, hpoints, List.append_assoc, List.cons_append]
    · obtain ⟨passed, hprogress, -⟩ := h.succeeds a ha
      obtain ⟨v, -, hnone, rfl⟩ := exists_of_convertAll_eq_error hconvert
      exact ⟨passed, none, inner.points, .convert place target, [], hprogress, rfl, rfl, v, hnone,
        rfl⟩

/-- Nothing is run for a call that cannot be prepared. -/
theorem lost {call : CallNode} {cause : BindError}
    (hfound : call.found registry final.pins = .error cause)
    (hsame : after.history = state.history) :
    Traced registry context final (.lost call) state
      (.error (.own (.call call.site.name cause)) : Except Fault α) after where
  succeeds b hb := by cases hb
  fails fault hfault := by
    cases hfault
    exact ⟨[], none, [], .prepare call, [], .nil hsame, rfl, rfl, cause, hfound, rfl⟩

section

variable {node : CallNode} {f : Function} {bound : Bound node.site}
  (hfound : node.found registry final.pins = .ok (f, bound))
  (hsame : middle.history = state.history)

include hfound hsame

/-- A call one of whose arguments fails is not run. -/
theorem call_of_error {fault : Fault}
    (h : Traced registry context final arguments middle (.error fault : Except Fault α) after) :
    Traced registry context final (.call node arguments) state (.error fault : Except Fault β)
      after where
  succeeds b hb := by cases hb
  fails other hother := by
    cases hother
    obtain ⟨passed, last, done, failing, later, hprogress, hpoints, hfails⟩ := h.fails fault rfl
    refine ⟨passed, last, .prepare node :: done, failing, later ++ [.enter node, .leave node],
      (Progress.prepare hfound hsame).append hprogress, ?_, hfails⟩
    rw [CallTree.points, hpoints, List.cons_append, List.cons_append, List.append_assoc,
      List.cons_append]

/-- A call whose arguments are evaluated fails at the depth check, or its function is run. -/
theorem call {values : List (List Value)} {called : State} {outcome : Except Fault (List Value)}
    (h : Traced registry context final arguments middle (.ok values) called)
    (hran : Derives registry context.maxDepth .free
      (.invoke (context.maxDepth - context.depth) f (Bundle.ofBindings bound.1 values)) called
      outcome after)
    (hend : ∀ fault, outcome = .error fault → final = after) :
    Traced registry context final (.call node arguments) state outcome after := by
  obtain ⟨passed, harguments, hcalls⟩ := h.succeeds values rfl
  have hprogress := (Progress.prepare hfound hsame).append harguments
  rcases CallRun.exists_isMade hran hfound with ⟨e, hchild, rfl, rfl⟩ | ⟨result, rfl, hmade⟩
  · constructor
    · intro a ha
      cases ha
    · intro fault hfault
      cases hfault
      exact ⟨passed, none, _, .enter node, [.leave node], hprogress, rfl, rfl, e, hchild, rfl⟩
  · cases result with
    | ok values =>
      constructor
      · intro a _
        refine ⟨_, hprogress.append (.leave hmade rfl), ?_⟩
        rw [List.nil_append, List.map_append, hcalls, CallTree.postorder]
        rfl
      · intro fault hfault
        cases hfault
    | error e =>
      constructor
      · intro a ha
        cases ha
      · intro fault hfault
        cases hfault
        refine ⟨_, _, _, .leave node, [], hprogress.append (.enter hmade), ?_, _, e, rfl, rfl, rfl,
          rfl, (hend _ rfl).symm⟩
        rw [CallTree.points, List.append_assoc]
        rfl

end

end Traced

/-- How a task that is done in a context goes through its call tree, as `final` tells it. -/
def Task.IsTraced (registry : Registry) (context : Context) (final : State) :
    {α : Type} → Task α → State → Except Fault α → State → Prop
  | _, eval room _ place e, state, outcome, after =>
    room = context.maxDepth - context.depth →
      Traced registry context final (registry.tree final.pins place e) state outcome after
  | _, evalEach room _ place index items, state, outcome, after =>
    room = context.maxDepth - context.depth →
      Traced registry context final (registry.treeEach final.pins place index items) state outcome
        after
  | _, execute room _ space place site, state, outcome, after =>
    room = context.maxDepth - context.depth →
      Traced registry context final (registry.treeOf final.pins ⟨place, space, site⟩) state outcome
        after
  | _, _, _, _, _ => True

/-- Whatever is evaluated in a context, the call tree that it is traced in is the one that is there
at any time afterwards, or at its end if it fails. -/
theorem Derives.traced {α : Type} {task : Task α} {outcome : Except Fault α}
    (h : Derives registry context.maxDepth .free task state outcome after)
    (hkept : after.Extends final) (hend : ∀ fault, outcome = .error fault → final = after) :
    task.IsTraced registry context final state outcome after := by
  induction h with
  | literal | template | reference =>
    intro _
    rw [Registry.tree]
    exact .leaf _
  | evalNil =>
    intro _
    rw [Registry.treeEach]
    exact .leaf _
  | list _ ih =>
    intro hroom
    rw [Registry.tree]
    exact (ih hkept (fun fault h => hend fault (congrArg _ h)) hroom).map _
  | converted _ ih =>
    intro hroom
    rw [Registry.tree]
    exact (ih hkept (fun fault h => hend fault (by rw [h]; rfl)) hroom).converted
  | call _ ih =>
    intro hroom
    rw [Registry.tree]
    exact (ih hkept (fun fault h => hend fault (congrArg _ h)) hroom).map _
  | evalFails _ ih =>
    intro hroom
    rw [Registry.treeEach]
    exact (ih hkept (fun _ _ => hend _ rfl) hroom).parts_of_error
  | evalCons head rest ih ih' =>
    intro hroom
    rw [Registry.treeEach]
    have hhead := ih (rest.extends.trans hkept) (fun _ h => by cases h) hroom
    have hrest := ih' hkept (fun fault h => hend fault (congrArg _ h)) hroom
    exact (hhead.parts hrest).map _
  | unprepared prepared =>
    intro hroom
    obtain ⟨cause, hfound, rfl⟩ := CallNode.found_of_unprepared prepared
    obtain rfl := hend _ rfl
    rw [registry.treeOf_of_error hfound]
    exact .lost hfound (history_of_prepare prepared)
  | argumentFails prepared arguments ih =>
    intro hroom
    have hfound := CallNode.found_of_prepare prepared (arguments.extends.trans hkept)
    rw [registry.treeOf_of_ok hfound]
    exact (ih hkept (fun _ _ => hend _ rfl) hroom).call_of_error hfound
      (history_of_prepare prepared)
  | executed prepared arguments _ invoked ih =>
    intro hroom
    have hcalled := invoked.extends.trans hkept
    have hfound := CallNode.found_of_prepare prepared (arguments.extends.trans hcalled)
    rw [registry.treeOf_of_ok hfound]
    subst hroom
    exact ((ih hcalled (fun _ h => by cases h) rfl).call hfound (history_of_prepare prepared)
      invoked fun fault h => hend fault (congrArg _ h)).map _
  | _ => trivial

/-! ## Functions are run in postorder -/

/-- The functions of the calls in an expression are run in postorder, each once, up to the first
point that fails.

* The calls of an expression are at different places, and the arguments of a call that can be
  prepared are those that are written, in that order.
* An expression that is evaluated in a context is traced in the call tree that is left behind: if
  it succeeds, one function was run for each call, in postorder; if it fails, those were run whose
  calls are entered before the point where it fails, nothing is run after that, and an error that a
  body returned is handed on as it is. So is a call that is executed.
* While call sites remember nothing but what would be found now, the tree is the one that would be
  found now. If no function gets at the expression, as is so once it was read, this is asked of its
  own call sites only. -/
theorem calls_run_in_postorder (registry : Registry) (context : Context) :
    (∀ pins,
      (∀ place e, ((registry.tree pins place e).postorder.map CallNode.place).Nodup) ∧
      (∀ call, ((registry.treeOf pins call).postorder.map CallNode.place).Nodup) ∧
      ∀ (call : CallNode) f (bound : Bound call.site),
        call.found registry pins = .ok (f, bound) →
        registry.treeOf pins call =
            .call call (registry.treeEach pins call.place 0 (bound.1.map Binding.expr)) ∧
          ∃ reader : Reader, List.Forall₂ (fun argument binding =>
            reader.parse argument.text binding.parameter.ty = .ok binding.expr)
              call.site.arguments bound.1) ∧
    (∀ place e state,
      let ran := ((registry.host context).eval context.scope place e).runIn state
      Traced registry context ran.2 (registry.tree ran.2.pins place e) state ran.1 ran.2 ∧
        ∀ layout, state.Conforms registry layout → layout.Covers place (registry.callAt e) →
          registry.tree ran.2.pins place e = registry.tree {} place e) ∧
    (∀ space place site state,
      let ran := ((registry.host context).execute context.scope space place site).runIn state
      let call : CallNode := ⟨place, space, site⟩
      Traced registry context ran.2 (registry.treeOf ran.2.pins call) state ran.1 ran.2 ∧
        ∀ layout, state.Conforms registry layout →
          layout.Covers place (registry.siteAt space site) →
          registry.treeOf ran.2.pins call = registry.treeOf {} call) ∧
    (∀ root e state, state.Keeps registry root →
      state.AgreesWith registry (registry.layoutOf ⟨root, e⟩) →
      let ran := ((registry.host context).eval context.scope ⟨root, []⟩ e).runIn state
      registry.tree ran.2.pins ⟨root, []⟩ e = registry.tree {} ⟨root, []⟩ e) := by
  refine ⟨?_, ?_, ?_, ?_⟩
  · intro pins
    refine ⟨?_, ?_, ?_⟩
    · intro place e
      exact (registry.postorder_tree pins place e).2
    · intro call
      exact (registry.postorder_treeOf pins call).2
    · intro call f bound hfound
      exact ⟨registry.treeOf_of_ok hfound, CallNode.arguments_of_found hfound⟩
  · intro place e state ran
    let task : Task (List Value) :=
      .eval (context.maxDepth - context.depth) context.scope place e
    have hran := derives registry context.maxDepth task state
    refine ⟨hran.traced (.refl _) (fun _ _ => rfl) rfl, ?_⟩
    intro layout hconforms hcovers
    have htwin : task.Twin registry True layout layout task := ⟨place, hcovers, hcovers, rfl⟩
    obtain ⟨newer, hextends, hafter⟩ := hconforms.run htwin
    exact Registry.tree_eq_of_agrees hafter.agrees place e (hcovers.mono hextends)
  · intro space place site state ran call
    let task : Task (Option Returned) :=
      .execute (context.maxDepth - context.depth) context.scope space place site
    have hran := derives registry context.maxDepth task state
    refine ⟨hran.traced (.refl _) (fun _ _ => rfl) rfl, ?_⟩
    intro layout hconforms hcovers
    have htwin : task.Twin registry True layout layout task := ⟨place, hcovers, hcovers, rfl⟩
    obtain ⟨newer, hextends, hafter⟩ := hconforms.run htwin
    exact Registry.treeOf_eq_of_agrees hafter.agrees call (hcovers.mono hextends)
  · intro root e state hkeeps hagrees ran
    have hran := derives registry context.maxDepth
      (.eval (context.maxDepth - context.depth) context.scope ⟨root, []⟩ e) state
    obtain ⟨hafter, -⟩ := hran.promised (fun _ _ => Registry.root_of_layoutOf) hkeeps hagrees rfl
      Layout.covers_add
    exact Registry.tree_eq_of_agrees hafter _ e Layout.covers_add

namespace Session

/-- In this session no function gets at the expression that is read first. -/
theorem keeps_nestedSession : nestedSession.state.Keeps nestedSession.registry 0 := by
  have hsink := State.Settled.start.register
    (f := .sink "f") fun x hx => (not_mem_shared x _ hx).elim
  have hconstant := hsink.register
    (f := .constant "g" (.boolean true)) fun x hx => (not_mem_shared x _ hx).elim
  exact hconstant.keeps

theorem agrees_nestedSession (layout : Layout) :
    nestedSession.state.AgreesWith nestedSession.registry layout := by
  intro place space site _
  rw [nestedSession, Pins.get_empty]
  exact .empty ..

/-- The call `g()` as an item of a list, or as the argument of a call. -/
def plainNode : CallNode := ⟨⟨0, [0]⟩, "", ⟨"", "g", []⟩⟩

/-- The call `f(g())`. -/
def nestedNode : CallNode := ⟨⟨0, []⟩, "", nestedCall⟩

/-- The call `h()`, where no function goes by that name. -/
def lostNode : CallNode := ⟨⟨0, [1]⟩, "", ⟨"", "h", []⟩⟩

/-- The list `(g(), h())`. -/
def brokenList : Expr :=
  .list [.call plainNode.site .boolean true, .call lostNode.site .any true] .any

theorem treeOf_plainNode :
    nestedSession.registry.treeOf {} plainNode = .call plainNode .leaf := by
  obtain ⟨bound, hpure, hnil⟩ : ∃ bound : Bound ⟨"", "g", []⟩,
      (({} : Pin).prepare nestedSession.registry "" ⟨"", "g", []⟩).1 =
        .ok (.constant "g" (.boolean true), bound) ∧ bound.1 = [] :=
    exists_prepare_plainCall rfl rfl
  have hfound : plainNode.found nestedSession.registry {} =
      .ok (.constant "g" (.boolean true), bound) := by
    rw [CallNode.found, Pins.get_empty]
    exact hpure
  rw [Registry.treeOf_of_ok _ hfound, hnil, List.map_nil, Registry.treeEach]

theorem treeOf_nestedNode : nestedSession.registry.treeOf {} nestedNode =
    .call nestedNode (.parts (.call plainNode .leaf) .leaf) := by
  obtain ⟨bound, hpure, hbound⟩ := exists_prepare_nestedSession
  have hfound : nestedNode.found nestedSession.registry {} = .ok (.sink "f", bound) := by
    rw [CallNode.found, Pins.get_empty]
    exact hpure
  rw [Registry.treeOf_of_ok _ hfound, hbound, List.map_singleton, nestedBinding, Registry.treeEach,
    Registry.treeEach, Registry.tree]
  show CallTree.call nestedNode (.parts (nestedSession.registry.treeOf {} plainNode) .leaf) = _
  rw [treeOf_plainNode]

theorem tree_brokenList : nestedSession.registry.tree {} ⟨0, []⟩ brokenList =
    .parts (.call plainNode .leaf) (.parts (.lost lostNode) .leaf) := by
  have hlost : lostNode.found nestedSession.registry {} = .error (.unknownCallee "h" "") := by
    rw [CallNode.found, Pins.get_empty]
    rfl
  rw [brokenList, Registry.tree, Registry.treeEach, Registry.treeEach, Registry.treeEach,
    Registry.tree, Registry.tree]
  show CallTree.parts (nestedSession.registry.treeOf {} plainNode)
    (.parts (nestedSession.registry.treeOf {} lostNode) .leaf) = _
  rw [treeOf_plainNode, Registry.treeOf_of_error _ hlost]

/-- The list is evaluated up to `h()`, which is not found. -/
theorem exists_derives_brokenList : ∃ after, Derives nestedSession.registry 256 .free
    (.eval 256 Scope.empty ⟨0, []⟩ brokenList) nestedSession.state
      (.error (.own (.call "h" (.unknownCallee "h" "")))) after := by
  obtain ⟨middle, hfirst, -⟩ : ∃ middle, Derives nestedSession.registry 256 .free
      (.execute (255 + 1) Scope.empty "" plainNode.place plainNode.site) nestedSession.state
        (.ok (some (.single (.boolean true)))) middle ∧
      (middle.pins.get plainNode.place).callee = some (.constant "g" (.boolean true)) :=
    exists_derives_constant (Pins.get_empty _) rfl trivial fun _ => trivial
  -- Executing `g()` leaves the memory of the other item alone.
  obtain ⟨_, -, hbinds⟩ := hfirst.follows keeps_nestedSession ⟨rfl, rfl⟩ fun _ _ => Pins.get_empty _
  have hunused : middle.pins.get lostNode.place = {} := by
    rw [hbinds.outside lostNode.place rfl]
    · exact Pins.get_empty _
    · rintro ⟨-, hsuffix⟩
      exact absurd hsuffix (by decide)
  obtain ⟨hsecond, -⟩ := runIn_prepare nestedSession.registry "" lostNode.place lostNode.site middle
  rw [hunused] at hsecond
  have hunprepared : (lostNode.site.prepare nestedSession.registry "" lostNode.place).runIn middle =
      (.error (.own (.call "h" (.unknownCallee "h" ""))), _) := Prod.ext hsecond rfl
  let handed (returned : Option Returned) := (returned.map Returned.values).getD []
  have hhead : Derives nestedSession.registry 256 .free
      (.eval 256 Scope.empty (Place.child ⟨0, []⟩ 0) (.call plainNode.site .boolean true))
      nestedSession.state ((Except.ok (some (.single (.boolean true)))).map handed) middle :=
    .call hfirst
  have hitem : Derives nestedSession.registry 256 .free
      (.eval 256 Scope.empty (Place.child ⟨0, []⟩ 1) (.call lostNode.site .any true)) middle
      ((Except.error (.own (.call "h" (.unknownCallee "h" "")))).map handed) _ :=
    .call (.unprepared hunprepared)
  have hrest : Derives nestedSession.registry 256 .free
      (.evalEach 256 Scope.empty ⟨0, []⟩ 1 [.call lostNode.site .any true]) middle
      (.error (.own (.call "h" (.unknownCallee "h" "")))) _ := .evalFails hitem
  have hlist := @Derives.list _ _ _ _ _ _ _ .any _ _ _ (.evalCons hhead hrest)
  exact ⟨_, hlist⟩

/-- For `f(g())`, `g` is run and then `f`. For `(g(), h())`, where no function goes by the name `h`,
`g` is run, and nothing after it. -/
theorem calls_run_in_postorder_nested :
    let evaluate (e : Expr) := ((nestedSession.registry.host (.top 256)).eval Scope.empty ⟨0, []⟩
      e).runIn nestedSession.state
    let nested := evaluate (.call nestedCall .any true)
    let broken := evaluate brokenList
    (∃ passed, Progress nestedSession.registry (.top 256) nested.2 nestedSession.state passed none
        [.prepare nestedNode, .prepare plainNode, .enter plainNode, .leave plainNode,
          .enter nestedNode, .leave nestedNode] nested.2 ∧
      passed.map CallRun.call = [plainNode, nestedNode]) ∧
    ∃ passed, Progress nestedSession.registry (.top 256) broken.2 nestedSession.state passed none
        [.prepare plainNode, .enter plainNode, .leave plainNode] broken.2 ∧
      passed.map CallRun.call = [plainNode] ∧
      broken.1 = .error (.own (.call "h" (.unknownCallee "h" ""))) := by
  intro evaluate nested broken
  obtain ⟨-, htraced, -, htree⟩ := calls_run_in_postorder nestedSession.registry (.top 256)
  constructor
  · obtain ⟨htraced, -⟩ := htraced ⟨0, []⟩ (.call nestedCall .any true) nestedSession.state
    rw [htree _ _ _ keeps_nestedSession (agrees_nestedSession _), Registry.tree] at htraced
    replace htraced : Traced _ _ _ (nestedSession.registry.treeOf {} nestedNode) _ _ _ := htraced
    rw [treeOf_nestedNode] at htraced
    obtain ⟨bound, hpure, hbound⟩ := exists_prepare_nestedSession
    obtain ⟨after, hran, -⟩ : ∃ after, Derives nestedSession.registry 256 .free
        (.execute (255 + 1) Scope.empty "" ⟨0, []⟩ nestedCall) nestedSession.state (.ok none) after ∧
        ⟨.sink "f", ⟨[("x", [.boolean true])]⟩, 256 - 255⟩ ∈ after.history := by
      refine exists_derives_nestedCall ?_ hbound (Pins.get_empty _) rfl trivial trivial
        (fun _ => trivial) fun _ _ => trivial
      rw [nestedSession, Pins.get_empty]
      exact hpure
    have hvalues : nested.1 = .ok [] :=
      congrArg Prod.fst (@Derives.call _ _ _ _ _ _ nestedCall .any true _ _ _ hran).runIn_eq
    exact htraced.succeeds [] hvalues
  · obtain ⟨htraced, -⟩ := htraced ⟨0, []⟩ brokenList nestedSession.state
    rw [htree _ _ _ keeps_nestedSession (agrees_nestedSession _), tree_brokenList] at htraced
    obtain ⟨after, hran⟩ := exists_derives_brokenList
    have hfault : broken.1 = _ := congrArg Prod.fst hran.runIn_eq
    obtain ⟨passed, last, done, failing, later, hprogress, hpoints, hfails⟩ :=
      htraced.fails _ hfault
    -- Only a call that cannot be prepared fails like this, and this is `h()`.
    cases failing with
    | enter =>
      obtain ⟨-, e, hchild, -⟩ := hfails
      cases hchild
    | leave =>
      obtain ⟨_, _, -, -, -, hsame, -⟩ := hfails
      cases hsame
    | convert =>
      obtain ⟨-, _, -, hsame⟩ := hfails
      cases hsame
    | prepare call =>
      obtain ⟨rfl, cause, -, hsame⟩ := hfails
      have hname : "h" = call.site.name := (Error.call.inj (Fault.own.inj hsame)).1
      rcases done with _ | ⟨a, _ | ⟨b, _ | ⟨c, _ | ⟨d, done⟩⟩⟩⟩
      · cases hpoints
        exact absurd hname (by decide)
      · cases hpoints
      · cases hpoints
      · cases hpoints
        have hcalls := hprogress.entered
        rw [Option.toList_none, List.append_nil] at hcalls
        exact ⟨passed, hprogress, hcalls, hfault⟩
      · have hlength := congrArg List.length hpoints
        simp [CallTree.points] at hlength

end Session

end CallScript

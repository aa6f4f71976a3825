import CallScript.Proofs.CallDepth
import CallScript.Proofs.Termination

/-!
# The recursion limit bounds chains of calls

A function that calls itself does so through an expression that its runs share, evaluated in the
context that the run is given. `Function.Unwinds` says that a call of it leads to a chain of so many
such *re-entries*, in which nothing fails but what the limit makes fail: each run but the last gets
to a point where it has the shared call evaluated, and hands its outcome on. Each link of the chain
is one level deeper than the one before, so the chain comes to its end if it fits between the caller
and the limit, and otherwise fails with the error of the limit (`Function.Unwinds.outcome`).

This is the last part of `recursion_limit_bounds_call_chains`; the others say that runs are nested,
and where the error of the limit can come from.
-/

namespace CallScript

/-! ## Where a dialogue stands -/

/-- Where the dialogue with a body stands: how the body goes on, the expressions at hand, and the
state. -/
structure Exchange where
  count : Nat
  body : Body count
  exprs : Vector (Rooted Expr) count
  state : State

/-- How a dialogue goes on that has `room` levels below it. -/
inductive Exchange.Step (registry : Registry) (maxDepth room : Nat) : Exchange → Exchange → Prop where
  | draw {n least greatest next exprs state} :
      Step registry maxDepth room ⟨n, .draw least greatest next, exprs, state⟩
        ⟨n, next (state.drawn least greatest).1, exprs, (state.drawn least greatest).2⟩
  | unread {n space text target failed parsed exprs state failure}
      (refused : (registry.reader space).parse text target = .error failure) :
      Step registry maxDepth room ⟨n, .parse space text target failed parsed, exprs, state⟩
        ⟨n, failed failure, exprs, state⟩
  | read {n space text target failed parsed exprs state e}
      (accepted : (registry.reader space).parse text target = .ok e) :
      Step registry maxDepth room ⟨n, .parse space text target failed parsed, exprs, state⟩
        ⟨n + 1, parsed, exprs.push ⟨state.nextRoot, e⟩,
          { state with nextRoot := state.nextRoot + 1 }⟩
  | tooDeep {n frame index next exprs state} (deep : room < frame.below) :
      Step registry maxDepth room ⟨n, .evaluate frame index next, exprs, state⟩
        ⟨n, next (.error (.recursionLimit maxDepth)), exprs, state⟩
  | evaluated {n frame} {index : Fin n} {next exprs state answer middle}
      (enough : frame.below ≤ room)
      (answered : Derives registry maxDepth .free
        (.eval (room - frame.below) frame.scope ⟨exprs[index].root, []⟩ exprs[index].item) state
        answer middle) :
      Step registry maxDepth room ⟨n, .evaluate frame index next, exprs, state⟩
        ⟨n, next (answer.mapError Fault.error), exprs, middle⟩

/-- A dialogue ends as it does from any point that it gets to. -/
theorem Exchange.derives_of_steps {registry : Registry} {maxDepth room : Nat}
    {start point : Exchange}
    (h : Relation.ReflTransGen (Exchange.Step registry maxDepth room) start point)
    {outcome : Except Fault (List Value)} {after : State}
    (hrest : Derives registry maxDepth .free (.converse room point.body point.exprs) point.state
      outcome after) :
    Derives registry maxDepth .free (.converse room start.body start.exprs) start.state outcome
      after := by
  induction h using Relation.ReflTransGen.head_induction_on with
  | refl => exact hrest
  | head hstep _ ih =>
    cases hstep with
    | draw => exact .draw ih
    | unread refused => exact .unread refused ih
    | read accepted => exact .read accepted ih
    | tooDeep deep => exact .tooDeep deep ih
    | evaluated enough answered => exact .evaluated enough answered ih

/-! ## Chains of re-entries -/

/-- Whether a call, executed in a context, finds the function `f`, and goes on with evaluated
arguments as said. The functions that are run for the arguments are quiet, and nothing fails there
but what the limit makes fail. -/
def CallSite.Enters (registry : Registry) (f : Function) (context : Context) (space : String)
    (place : Place) (site : CallSite) (state : State) (goesOn : Bundle → State → Prop) : Prop :=
  ∃ (bound : Bound site) (middle : State),
    (site.prepare registry space place).runIn state = (.ok (f, bound), middle) ∧
    ∀ answer called, Derives registry context.maxDepth .free
        (.evalEach (context.maxDepth - context.depth) context.scope place 0
          (bound.1.map Binding.expr)) middle answer called →
      middle.IsQuietUntil context.maxDepth called ∧
      (∀ fault, answer = .error fault → fault.error = .recursionLimit context.maxDepth) ∧
      ∀ values, answer = .ok values → goesOn (Bundle.ofBindings bound.1 values) called

/-- Whether a call of `f`, executed in a context, leads to a chain of `left` re-entries, in which
nothing fails but what the limit makes fail. Every run but the last gets to a point where it has the
expression evaluated that is the shared one of that index, with variables of its choice in the
context that it was given; and it fails with the error that this fails with, or else succeeds. -/
def Function.Unwinds (registry : Registry) (f : Function) (index : Fin f.sharedCount) :
    (left : Nat) → Context → String → Place → CallSite → State → Prop
  | 0, context, space, place, site, state =>
    site.Enters registry f context space place state fun arguments called =>
      ∀ child, context.child = .ok child → ∀ outcome after,
        Derives registry context.maxDepth .free
          (.converse (child.maxDepth - child.depth) (f.body arguments child) f.shared)
          { called with history := ⟨f, arguments, child.depth⟩ :: called.history } outcome after →
        ∃ values, outcome = .ok values
  | left + 1, context, space, place, site, state =>
    site.Enters registry f context space place state fun arguments called =>
      ∀ child, context.child = .ok child →
        ∃ (n : Nat) (exprs : Vector (Rooted Expr) n) (i : Fin n)
          (next : Except Error (List Value) → Body n) (scope : Scope) (before : State)
          (inner : CallSite) (ty : Ty) (single : Bool),
          Relation.ReflTransGen
            (Exchange.Step registry context.maxDepth (child.maxDepth - child.depth))
            ⟨f.sharedCount, f.body arguments child, f.shared,
              { called with history := ⟨f, arguments, child.depth⟩ :: called.history }⟩
            ⟨n, .evaluate ⟨0, scope⟩ i next, exprs, before⟩ ∧
          exprs.get i = f.shared.get index ∧
          (f.shared.get index).item = .call inner ty single ∧
          Unwinds registry f index left { child with scope } inner.space
            ⟨(f.shared.get index).root, []⟩ inner before ∧
          ∀ answer later outcome after,
            Derives registry context.maxDepth .free
              (.eval (child.maxDepth - child.depth) scope ⟨(f.shared.get index).root, []⟩
                (.call inner ty single)) before answer later →
            Derives registry context.maxDepth .free
              (.converse (child.maxDepth - child.depth) (next (answer.mapError Fault.error)) exprs)
              later outcome after →
            (∀ fault, answer = .error fault → outcome = .error (.ofBody fault.error)) ∧
            ∀ values, answer = .ok values → ∃ values, outcome = .ok values

section

variable {registry : Registry} {f : Function} {context : Context} {space : String} {place : Place}
  {site : CallSite} {state after : State} {outcome : Except Fault (Option Returned)}

/-- At the limit such a call fails; above it, the function is run in a fresh context. -/
theorem CallSite.Enters.ends {goesOn : Bundle → State → Prop}
    (h : site.Enters registry f context space place state goesOn)
    (hran : Derives registry context.maxDepth .free
      (.execute (context.maxDepth - context.depth) context.scope space place site) state outcome
      after) :
    (context.depth = context.maxDepth →
      outcome.mapError Fault.error = .error (.recursionLimit context.maxDepth)) ∧
    (context.depth < context.maxDepth →
      ∃ arguments called result, goesOn arguments called ∧
        Derives registry context.maxDepth .free
          (.converse (context.maxDepth - (context.depth + 1))
            (f.body arguments ⟨Scope.empty, context.depth + 1, context.maxDepth⟩) f.shared)
          { called with history := ⟨f, arguments, context.depth + 1⟩ :: called.history } result
          after ∧
        outcome = result.map f.signature.shape) := by
  obtain ⟨bound, middle, hprepared, harguments⟩ := h
  rcases hran.isDerived with ⟨fault, hunprepared, -⟩ | ⟨g, other, start, hok, hrest⟩
  · rw [hprepared] at hunprepared
    cases hunprepared
  rw [hprepared] at hok
  cases hok
  rcases hrest with ⟨fault, hfails, rfl⟩ | ⟨values, called, result, hvalues, -, hinvoked, rfl⟩
  · -- The arguments fail, which can only happen at the limit.
    obtain ⟨hquiet, hlimit, -⟩ := harguments _ _ hfails
    refine ⟨fun _ => congrArg Except.error (hlimit fault rfl), ?_⟩
    intro hless
    have hroom : 0 < context.maxDepth - context.depth := Nat.sub_pos_of_lt hless
    exact absurd (congrArg Except.error (hlimit fault rfl))
      (hfails.ne_limit_of_quiet hroom hquiet trivial context.maxDepth)
  · obtain ⟨-, -, hgoes⟩ := harguments _ _ hvalues
    have hchild := hinvoked.invoke_child
    unfold Context.child at hchild
    constructor
    · intro hsame
      rw [if_neg (by omega)] at hchild
      obtain ⟨rfl, -⟩ := hchild
      rfl
    · intro hless
      rw [if_pos hless] at hchild
      exact ⟨_, called, result, hgoes values rfl, hchild, rfl⟩

/-- A chain of re-entries comes to its end if it fits between the caller and the limit. -/
theorem Function.Unwinds.ends {index : Fin f.sharedCount} {left : Nat}
    (h : f.Unwinds registry index left context space place site state)
    (hdepth : context.depth ≤ context.maxDepth)
    (hran : Derives registry context.maxDepth .free
      (.execute (context.maxDepth - context.depth) context.scope space place site) state outcome
      after) :
    (context.depth + left + 1 ≤ context.maxDepth → ∃ returned, outcome = .ok returned) ∧
    (context.maxDepth < context.depth + left + 1 →
      outcome.mapError Fault.error = .error (.recursionLimit context.maxDepth)) := by
  induction left generalizing context space place site state outcome after with
  | zero =>
    unfold Unwinds at h
    obtain ⟨hlimit, hruns⟩ := h.ends hran
    constructor
    · intro hfits
      obtain ⟨arguments, called, result, hlast, hbody, rfl⟩ := hruns (by omega)
      obtain ⟨values, rfl⟩ := hlast _ (if_pos (by omega)) result after hbody
      exact ⟨_, rfl⟩
    · intro hover
      exact hlimit (by omega)
  | succ left ih =>
    unfold Unwinds at h
    obtain ⟨hlimit, hruns⟩ := h.ends hran
    by_cases hless : context.depth < context.maxDepth
    · -- The run gets to the next link of the chain, one level deeper, and hands its outcome on.
      obtain ⟨arguments, called, result, hagain, hbody, rfl⟩ := hruns hless
      obtain ⟨n, exprs, i, next, scope, before, inner, ty, single, hpoint, hshared, hitem, hunwinds,
        hhands⟩ := hagain _ (if_pos hless)
      let room := context.maxDepth - (context.depth + 1)
      let link : Place := ⟨(f.shared.get index).root, []⟩
      obtain ⟨returned, later, hexecuted⟩ : ∃ returned later, Derives registry context.maxDepth .free
          (.execute room scope inner.space link inner) before returned later :=
        ⟨_, _, derives ..⟩
      obtain ⟨hfits, hover⟩ := ih hunwinds (Nat.succ_le_of_lt hless) hexecuted
      let answer := returned.map fun returned => (returned.map Returned.values).getD []
      have hevaluated : Derives registry context.maxDepth .free
          (.eval room scope link (.call inner ty single)) before answer later := .call hexecuted
      obtain ⟨handed, final, hanswered⟩ : ∃ handed final, Derives registry context.maxDepth .free
          (.converse room (next (answer.mapError Fault.error)) exprs) later handed final :=
        ⟨_, _, derives ..⟩
      have hasked : Derives registry context.maxDepth .free
          (.converse room (.evaluate ⟨0, scope⟩ i next) exprs) before handed final := by
        refine .evaluated (Nat.zero_le _) ?_ hanswered
        show Derives registry context.maxDepth .free
          (.eval room scope ⟨(exprs.get i).root, []⟩ (exprs.get i).item) before answer later
        rw [hshared, hitem]
        exact hevaluated
      obtain ⟨rfl, -⟩ := hbody.unique (Exchange.derives_of_steps hpoint hasked)
      obtain ⟨hfails, hsucceeds⟩ := hhands _ _ _ _ hevaluated hanswered
      dsimp only at hfits hover
      constructor
      · intro h
        obtain ⟨r, hreturned⟩ := hfits (by omega)
        obtain ⟨values, rfl⟩ := hsucceeds _ (congrArg (Except.map _) hreturned)
        exact ⟨_, rfl⟩
      · intro h
        obtain ⟨fault, hreturned, herror⟩ := exists_of_mapError_eq_error (hover (by omega))
        rw [hfails fault (congrArg (Except.map _) hreturned), ← herror]
        rfl
    · have hsame : context.depth = context.maxDepth := by omega
      exact ⟨fun hfits => by omega, fun _ => hlimit hsame⟩

end

/-! ## The limit bounds chains of calls, and nothing else -/

/-- The recursion limit bounds chains of calls, and nothing else.

* A function that is called from a context runs in the next deeper one, if that is allowed.
* What an expression or a call brings about in a context is nested: every run is one level deeper
  than the context it is called from, and no deeper than the limit.
* A call that can be prepared, and whose arguments can be evaluated, fails with the error of the
  limit without running its function if and only if its context is as deep as the limit.
* In any other context, an expression does not raise this error itself, however its calls are nested
  as arguments; nor does it report it if no function calls back, or makes the error up.
* A call from the top that leads to a chain of so many re-entries succeeds if and only if the chain
  and the call itself fit below the limit, and fails with the error of the limit otherwise. -/
theorem recursion_limit_bounds_call_chains (registry : Registry) :
    (∀ (context : Context) f arguments,
      (registry.host context).invoke f arguments = (match context.child with
        | .error e => throw (.own e)
        | .ok child => do
          noteInvocation ⟨f, arguments, child.depth⟩
          (f.body arguments child).run registry
            (registry.hostBelow child.maxDepth (child.maxDepth - child.depth)) f.shared)) ∧
    (∀ context child : Context, context.child = .ok child →
      child.depth = context.depth + 1 ∧ child.depth ≤ context.maxDepth ∧
        child.maxDepth = context.maxDepth) ∧
    (∀ context : Context, context.depth ≤ context.maxDepth →
      (∀ place e state, ∃ runs,
        (((registry.host context).eval context.scope place e).runIn state).2.history =
            runs ++ state.history ∧
          IsNested context.maxDepth (.context context.depth) runs ∧
          ∀ run ∈ runs, context.depth < run.depth ∧ run.depth ≤ context.maxDepth) ∧
      ∀ space place site state, ∃ runs,
        (((registry.host context).execute context.scope space place site).runIn state).2.history =
            runs ++ state.history ∧
          IsNested context.maxDepth (.context context.depth) runs ∧
          ∀ run ∈ runs, context.depth < run.depth ∧ run.depth ≤ context.maxDepth) ∧
    (∀ context : Context, context.depth ≤ context.maxDepth →
      ∀ space place (site : CallSite) state f (bound : Bound site) middle values called,
        (site.prepare registry space place).runIn state = (.ok (f, bound), middle) →
        ((registry.host context).evalEach context.scope place 0
          (bound.1.map Binding.expr)).runIn middle = (.ok values, called) →
        ((((registry.host context).execute context.scope space place site).runIn state).1.mapError
              Fault.error = .error (.recursionLimit context.maxDepth) ∧
            (((registry.host context).execute context.scope space place site).runIn state).2.history
              = called.history ↔
          context.depth = context.maxDepth)) ∧
    (∀ context : Context, context.depth < context.maxDepth → ∀ place e state,
      (∀ limit, (((registry.host context).eval context.scope place e).runIn state).1 ≠
        .error (.own (.recursionLimit limit))) ∧
      (state.IsQuietUntil context.maxDepth
          (((registry.host context).eval context.scope place e).runIn state).2 →
        ∀ limit, (((registry.host context).eval context.scope place e).runIn state).1.mapError
          Fault.error ≠ .error (.recursionLimit limit))) ∧
    (∀ (f : Function) (index : Fin f.sharedCount) left scope maxDepth space place site state,
      f.Unwinds registry index left ⟨scope, 0, maxDepth⟩ space place site state →
      ((∃ returned, (((registry.host ⟨scope, 0, maxDepth⟩).execute scope space place site).runIn
          state).1 = .ok returned) ↔ left + 1 ≤ maxDepth) ∧
      (¬left + 1 ≤ maxDepth →
        (((registry.host ⟨scope, 0, maxDepth⟩).execute scope space place site).runIn
          state).1.mapError Fault.error = .error (.recursionLimit maxDepth))) := by
  -- The room above the limit, counted down, is the depth.
  have nested {context : Context} (hdepth : context.depth ≤ context.maxDepth) {runs}
      (h : IsNested context.maxDepth
        (.context (context.maxDepth - (context.maxDepth - context.depth))) runs) :
      IsNested context.maxDepth (.context context.depth) runs ∧
        ∀ run ∈ runs, context.depth < run.depth ∧ run.depth ≤ context.maxDepth := by
    rw [Nat.sub_sub_self hdepth] at h
    exact ⟨h, fun run hrun => h.depth_of_mem hrun⟩
  refine ⟨registry.invoke_host, ?_, ?_, ?_, ?_, ?_⟩
  · intro context child hchild
    unfold Context.child at hchild
    split at hchild
    · next hless =>
      cases hchild
      exact ⟨rfl, hless, rfl⟩
    · cases hchild
  · intro context hdepth
    constructor
    · intro place e state
      obtain ⟨runs, hruns, hnested⟩ := (derives registry context.maxDepth
        (.eval (context.maxDepth - context.depth) context.scope place e) state).nested
        (Nat.sub_le _ _)
      exact ⟨runs, hruns, nested hdepth hnested⟩
    · intro space place site state
      obtain ⟨runs, hruns, hnested⟩ := (derives registry context.maxDepth
        (.execute (context.maxDepth - context.depth) context.scope space place site) state).nested
        (Nat.sub_le _ _)
      exact ⟨runs, hruns, nested hdepth hnested⟩
  · intro context hdepth space place site state f bound middle values called hprepared hvalues
    have harguments : Derives registry context.maxDepth .free
        (.evalEach (context.maxDepth - context.depth) context.scope place 0
          (bound.1.map Binding.expr)) middle (.ok values) called := by
      have hran := derives registry context.maxDepth
        (.evalEach (context.maxDepth - context.depth) context.scope place 0
          (bound.1.map Binding.expr)) middle
      have hsame : (Task.run registry context.maxDepth
          (.evalEach (context.maxDepth - context.depth) context.scope place 0
            (bound.1.map Binding.expr))).runIn middle = (.ok values, called) := hvalues
      rwa [hsame] at hran
    have hran := derives registry context.maxDepth
      (.execute (context.maxDepth - context.depth) context.scope space place site) state
    obtain ⟨result, hinvoked, houtcome⟩ := hran.exists_invoke hprepared harguments
    have hroom : context.maxDepth - context.depth = 0 ↔ context.depth = context.maxDepth := by
      omega
    rw [← hroom, ← hinvoked.invoke_iff, ← @mapError_map_eq_error _ _ _ _ result f.signature.shape,
      ← houtcome]
    rfl
  · intro context hless place e state
    have hran := derives registry context.maxDepth
      (.eval (context.maxDepth - context.depth) context.scope place e) state
    have hroom : 0 < context.maxDepth - context.depth := Nat.sub_pos_of_lt hless
    exact ⟨hran.ne_own_limit hroom, fun hquiet => hran.ne_limit_of_quiet hroom hquiet trivial⟩
  · intro f index left scope maxDepth space place site state hunwinds
    have hran := derives registry maxDepth (.execute maxDepth scope space place site) state
    obtain ⟨hfits, hover⟩ := hunwinds.ends (Nat.zero_le _) hran
    rw [Nat.zero_add] at hfits hover
    refine ⟨⟨?_, hfits⟩, fun h => hover (Nat.lt_of_not_le h)⟩
    rintro ⟨returned, hreturned⟩
    refine Nat.le_of_not_lt fun h => ?_
    have hfault := hover h
    replace hreturned : ((Task.run registry maxDepth
      (.execute maxDepth scope space place site)).runIn state).1 = .ok returned := hreturned
    rw [hreturned] at hfault
    cases hfault

/-! ## A function that takes values away one by one -/

/-- The call of `peel` with the variable `xs`. -/
def peelCall : CallSite := ⟨"", "peel", [⟨none, "\x7bxs::*\x7d"⟩]⟩

/-- How the argument of this call is bound. -/
def peelBinding : Binding := ⟨⟨"xs", .any, false, false⟩, .reference ⟨"xs", true⟩⟩

/-- A function that ends at once if it is given no values, and calls itself with all but the first
one otherwise. -/
def Function.peel : Function where
  signature := ⟨"", "peel", [peelBinding.parameter], none, true⟩
  sharedCount := 1
  shared := #v[⟨0, .call peelCall .any true⟩]
  body arguments context :=
    match arguments.get "xs" with
    | [] => .done (.ok [])
    | _ :: rest => .evaluate ⟨0, context.scope.set "xs" rest⟩ ⟨0, Nat.zero_lt_one⟩ .done

/-- There is no other function. -/
def peelRegistry : Registry := ⟨[.peel]⟩

theorem exists_prepare_peelCall : ∃ bound,
    (({} : Pin).prepare peelRegistry "" peelCall).1 = .ok (.peel, bound) ∧
      bound.1 = [peelBinding] := by
  have hread : Form.read "\x7bxs::*\x7d".toList = .reference ⟨"xs", true⟩ := by
    have houtline : Outline.ofText (Text.trim "\x7bxs::*\x7d".toList) =
        .reference ⟨"xs", true⟩ := rfl
    rw [Form.read_eq, houtline]
  have hfit : fit (peelRegistry.reader "").parse peelBinding.parameter
      ⟨none, "\x7bxs::*\x7d"⟩ = .ok peelBinding.expr := by
    rw [fit, Reader.parse, hread]
    rfl
  have hbind : bindArguments (peelRegistry.reader "").parse Function.peel.signature
      peelCall.arguments = .ok [peelBinding] := by
    show (fit (peelRegistry.reader "").parse peelBinding.parameter
      ⟨none, "\x7bxs::*\x7d"⟩).bind _ = _
    rw [hfit]
    rfl
  exact ⟨_, Pin.prepare_eq_ok.mpr ⟨rfl, Edition.bind_of_ok hbind⟩, rfl⟩

section

variable {context : Context} {place : Place} {state : State}

/-- Its argument is the variable, and evaluating that changes nothing. -/
theorem exists_arguments_peelCall
    (hagrees : (state.pins.get place).Agrees peelRegistry "" peelCall) :
    ∃ (bound : Bound peelCall) (middle : State),
      (peelCall.prepare peelRegistry "" place).runIn state = (.ok (.peel, bound), middle) ∧
      middle.history = state.history ∧
      (middle.pins.get place).Agrees peelRegistry "" peelCall ∧
      Derives peelRegistry context.maxDepth .free
        (.evalEach (context.maxDepth - context.depth) context.scope place 0
          (bound.1.map Binding.expr)) middle (.ok [context.scope.get "xs"]) middle ∧
      Bundle.ofBindings bound.1 [context.scope.get "xs"] = ⟨[("xs", context.scope.get "xs")]⟩ := by
  obtain ⟨bound, hpure, hbound⟩ := exists_prepare_peelCall
  rw [← hagrees.prepare_fst] at hpure
  obtain ⟨middle, hprepared, hpin⟩ := exists_runIn_prepare hpure
  refine ⟨bound, middle, hprepared, hpin.history_eq, ?_, ?_, ?_⟩
  · rw [hpin.pins_self]
    exact hagrees.prepare_snd
  · rw [hbound]
    exact .evalCons .reference .evalNil
  · rw [hbound]
    rfl

/-- It is evaluated without running anything, and then `peel` is given the values. -/
theorem enters_peel (hagrees : (state.pins.get place).Agrees peelRegistry "" peelCall)
    {goesOn : Bundle → State → Prop}
    (hgoes : ∀ called, (called.pins.get place).Agrees peelRegistry "" peelCall →
      goesOn ⟨[("xs", context.scope.get "xs")]⟩ called) :
    peelCall.Enters peelRegistry .peel context "" place state goesOn := by
  obtain ⟨bound, middle, hprepared, -, hmiddle, harguments, hbundle⟩ :=
    @exists_arguments_peelCall context _ _ hagrees
  refine ⟨bound, middle, hprepared, ?_⟩
  intro answer called hran
  obtain ⟨rfl, rfl⟩ := harguments.unique hran
  refine ⟨?_, ?_, ?_⟩
  · intro runs hruns run hrun
    rw [List.self_eq_append_left.mp hruns] at hrun
    cases hrun
  · intro fault hfault
    cases hfault
  · intro values hvalues
    cases hvalues
    rw [hbundle]
    exact hgoes middle hmiddle

/-- A call of `peel` leads to as many re-entries as it is given values. -/
theorem unwinds_peel (left : Nat) (hleft : (context.scope.get "xs").length = left)
    (hagrees : (state.pins.get ⟨0, []⟩).Agrees peelRegistry "" peelCall) :
    Function.peel.Unwinds peelRegistry (0 : Fin 1) left context "" ⟨0, []⟩ peelCall state := by
  induction left generalizing context state with
  | zero =>
    refine enters_peel hagrees ?_
    rw [List.length_eq_zero_iff.mp hleft]
    intro called _ child _ outcome after hran
    obtain ⟨rfl, -⟩ := hran.unique .done
    exact ⟨[], rfl⟩
  | succ left ih =>
    refine enters_peel hagrees ?_
    obtain ⟨v, rest, hxs⟩ := List.exists_cons_of_length_eq_add_one hleft
    rw [hxs] at hleft ⊢
    intro called hcalled child hchild
    refine ⟨1, Function.peel.shared, 0, .done, child.scope.set "xs" rest, _, peelCall, .any, true,
      .refl, rfl, rfl, ih ?_ hcalled, ?_⟩
    · rw [Scope.get_set, if_pos rfl]
      exact Nat.succ.inj hleft
    · intro answer later outcome after _ hran
      obtain ⟨rfl, -⟩ := hran.unique .done
      constructor
      · rintro fault rfl
        rfl
      · rintro values rfl
        exact ⟨values, rfl⟩

/-- Given no values, it is run once, and quietly. -/
theorem quiet_peel (hagrees : (state.pins.get place).Agrees peelRegistry "" peelCall)
    (hless : context.depth < context.maxDepth) (hnone : context.scope.get "xs" = []) :
    state.IsQuietUntil context.maxDepth
      (((peelRegistry.host context).eval context.scope place
        (.call peelCall .any true)).runIn state).2 := by
  obtain ⟨bound, middle, hprepared, hhistory, -, harguments, hbundle⟩ :=
    @exists_arguments_peelCall context _ _ hagrees
  obtain ⟨room, hroom⟩ : ∃ room, context.maxDepth - context.depth = room + 1 :=
    ⟨context.maxDepth - context.depth - 1, by omega⟩
  have hinvoked : Derives peelRegistry context.maxDepth .free
      (.invoke (context.maxDepth - context.depth) .peel
        (Bundle.ofBindings bound.1 [context.scope.get "xs"])) middle (.ok [])
      { middle with history :=
          ⟨.peel, ⟨[("xs", [])]⟩, context.maxDepth - room⟩ :: middle.history } := by
    rw [hbundle, hroom, hnone]
    exact .invoked .done fun _ _ => trivial
  have hran : Derives peelRegistry context.maxDepth .free
      (.eval (context.maxDepth - context.depth) context.scope place (.call peelCall .any true))
      state _ _ := .call (.executed hprepared harguments trivial hinvoked)
  intro runs hruns run hrun
  have hsame : (((peelRegistry.host context).eval context.scope place
      (.call peelCall .any true)).runIn state).2 = _ := congrArg Prod.snd hran.runIn_eq
  rw [hsame, ← hhistory] at hruns
  replace hruns : [_] ++ middle.history = runs ++ middle.history := hruns
  rw [← List.append_cancel_right hruns, List.mem_singleton] at hrun
  subst hrun
  intro limit hlimit
  cases hlimit

end

/-- With the limit at two, `peel` may call itself once, and not twice; with the limit at one, it may
not call itself, but be called; and with the limit at zero not even that. -/
theorem recursion_limit_bounds_call_chains_peel :
    ((Context.top 2).child = .ok ⟨Scope.empty, 1, 2⟩ ∧ 1 = 0 + 1 ∧ 1 ≤ 2) ∧
    (0 ≤ 2 ∧ ∃ runs, (((peelRegistry.host (.top 2)).eval Scope.empty ⟨0, []⟩
      (.call peelCall .any true)).runIn {}).2.history = runs ++ [] ∧
        IsNested 2 (.context 0) runs) ∧
    (∃ (bound : Bound peelCall) (middle : State),
      (peelCall.prepare peelRegistry "" ⟨0, []⟩).runIn {} = (.ok (.peel, bound), middle) ∧
      ((peelRegistry.host (.top 0)).evalEach Scope.empty ⟨0, []⟩ 0
        (bound.1.map Binding.expr)).runIn middle = (.ok [[]], middle) ∧
      (((peelRegistry.host (.top 0)).execute Scope.empty "" ⟨0, []⟩ peelCall).runIn
        {}).1.mapError Fault.error = .error (.recursionLimit 0)) ∧
    (0 < 1 ∧ State.IsQuietUntil 1 {}
        (((peelRegistry.host (.top 1)).eval Scope.empty ⟨0, []⟩
          (.call peelCall .any true)).runIn {}).2 ∧
      (((peelRegistry.host (.top 1)).eval Scope.empty ⟨0, []⟩
        (.call peelCall .any true)).runIn {}).1.mapError Fault.error ≠
          .error (.recursionLimit 1)) ∧
    ∀ v, Function.peel.Unwinds peelRegistry (0 : Fin 1) 1 ((Context.top 2).set "xs" [v]) ""
        ⟨0, []⟩ peelCall {} ∧
      (∃ returned, (((peelRegistry.host ((Context.top 2).set "xs" [v])).execute
        (Scope.empty.set "xs" [v]) "" ⟨0, []⟩ peelCall).runIn {}).1 = .ok returned) ∧
      Function.peel.Unwinds peelRegistry (0 : Fin 1) 2 ((Context.top 2).set "xs" [v, v]) ""
        ⟨0, []⟩ peelCall {} ∧
      (((peelRegistry.host ((Context.top 2).set "xs" [v, v])).execute
        (Scope.empty.set "xs" [v, v]) "" ⟨0, []⟩ peelCall).runIn {}).1.mapError Fault.error =
          .error (.recursionLimit 2) := by
  have hagrees : (({} : State).pins.get ⟨0, []⟩).Agrees peelRegistry "" peelCall := by
    rw [Pins.get_empty]
    exact .empty ..
  obtain ⟨-, hchild, hnested, hlimit, hquiet, hchain⟩ :=
    recursion_limit_bounds_call_chains peelRegistry
  refine ⟨⟨rfl, ?_⟩, ⟨Nat.zero_le 2, ?_⟩, ?_, ⟨Nat.zero_lt_one, ?_⟩, ?_⟩
  · obtain ⟨hdeeper, hallowed, -⟩ := hchild (.top 2) ⟨Scope.empty, 1, 2⟩ rfl
    exact ⟨hdeeper, hallowed⟩
  · obtain ⟨runs, hruns, hruns', -⟩ := (hnested (.top 2) (Nat.zero_le 2)).1 ⟨0, []⟩
      (.call peelCall .any true) {}
    exact ⟨runs, hruns, hruns'⟩
  · obtain ⟨bound, middle, hprepared, -, -, harguments, -⟩ :=
      @exists_arguments_peelCall (.top 0) _ _ hagrees
    have hvalues := harguments.runIn_eq
    exact ⟨bound, middle, hprepared, hvalues, ((hlimit (.top 0) (Nat.le_refl 0) "" ⟨0, []⟩ peelCall
      {} .peel bound middle _ middle hprepared hvalues).mpr rfl).1⟩
  · have hsilent := @quiet_peel (.top 1) ⟨0, []⟩ {} hagrees Nat.zero_lt_one rfl
    exact ⟨hsilent, (hquiet (.top 1) Nat.zero_lt_one _ _ _).2 hsilent 1⟩
  · intro v
    have hone := @unwinds_peel ((Context.top 2).set "xs" [v]) {} 1 rfl hagrees
    have htwo := @unwinds_peel ((Context.top 2).set "xs" [v, v]) {} 2 rfl hagrees
    exact ⟨hone, (hchain _ _ 1 _ 2 _ _ _ _ hone).1.mpr (Nat.le_refl 2), htwo,
      (hchain _ _ 2 _ 2 _ _ _ _ htwo).2 (by omega)⟩

end CallScript

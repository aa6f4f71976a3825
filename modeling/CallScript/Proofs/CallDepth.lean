import CallScript.Proofs.Frame

/-!
# How deep calls lie

The history of a state lists the runs of functions, each with its depth in the chain of calls. What
an evaluation adds to it is *nested* (`IsNested`): a run is one level deeper than the context it was
called from, and the runs that it brings about itself come right after it. The arguments of a call
are evaluated before it, in the context of the caller, so nesting calls as arguments makes no chain
longer.

The limit on the depth is therefore met in one place only, where a function is called in a context
as deep as the limit (`Derives.invoke_iff`). In a context that is less deep, an expression does not
raise the error itself (`Derives.ne_own_limit`); it may be handed on by a function that calls back,
and by no other (`Derives.ne_limit_of_quiet`).
-/

namespace CallScript

/-! ## Runs are nested -/

/-- What calls functions: an expression that is evaluated in a context, or the body of a run. -/
inductive Caller where
  | context (depth : Nat)
  | body (depth : Nat)

/-- How deep a caller lies. -/
def Caller.depth : Caller → Nat
  | context depth => depth
  | body depth => depth

/-- Whether these runs, the last one first, can be what a caller brings about. A run that is called
in a context is one level deeper, and no deeper than allowed; the runs that its body brings about
come after it. A body has expressions evaluated in its own context, or some levels further down. -/
inductive IsNested (maxDepth : Nat) : Caller → List Invocation → Prop where
  | none {caller} : IsNested maxDepth caller []
  | called {depth run inside earlier} (deeper : run.depth = depth + 1)
      (allowed : run.depth ≤ maxDepth) (brought : IsNested maxDepth (.body run.depth) inside)
      (before : IsNested maxDepth (.context depth) earlier) :
      IsNested maxDepth (.context depth) (inside ++ run :: earlier)
  | evaluated {depth below inside earlier} (allowed : depth + below ≤ maxDepth)
      (answered : IsNested maxDepth (.context (depth + below)) inside)
      (before : IsNested maxDepth (.body depth) earlier) :
      IsNested maxDepth (.body depth) (inside ++ earlier)

namespace IsNested

variable {maxDepth : Nat} {caller : Caller} {runs earlier : List Invocation}

/-- What a caller brings about, after what it has brought about before. -/
theorem append (h : IsNested maxDepth caller runs) (h' : IsNested maxDepth caller earlier) :
    IsNested maxDepth caller (runs ++ earlier) := by
  induction h with
  | none => exact h'
  | called deeper allowed brought before _ ih =>
    rw [List.append_assoc, List.cons_append]
    exact .called deeper allowed brought (ih h')
  | evaluated allowed answered before _ ih =>
    rw [List.append_assoc]
    exact .evaluated allowed answered (ih h')

/-- Runs are deeper than their caller, and none is deeper than allowed. -/
theorem depth_of_mem (h : IsNested maxDepth caller runs) {run : Invocation} (hrun : run ∈ runs) :
    caller.depth < run.depth ∧ run.depth ≤ maxDepth := by
  induction h with
  | none => cases hrun
  | @called depth first inside earlier deeper allowed brought before ih ih' =>
    rcases List.mem_append.mp hrun with hinside | hrest
    · obtain ⟨hdeeper, hle⟩ := ih hinside
      refine ⟨?_, hle⟩
      show depth < run.depth
      replace hdeeper : first.depth < run.depth := hdeeper
      omega
    · rcases List.mem_cons.mp hrest with rfl | hbefore
      · refine ⟨?_, allowed⟩
        show depth < run.depth
        omega
      · exact ih' hbefore
  | @evaluated depth below inside earlier allowed answered before ih ih' =>
    rcases List.mem_append.mp hrun with hinside | hbefore
    · obtain ⟨hdeeper, hle⟩ := ih hinside
      refine ⟨?_, hle⟩
      show depth < run.depth
      replace hdeeper : depth + below < run.depth := hdeeper
      omega
    · exact ih' hbefore

end IsNested

/-- The room that a task has in the chain of calls. -/
def Task.room : {α : Type} → Task α → Nat
  | _, eval room _ _ _ => room
  | _, evalEach room _ _ _ _ => room
  | _, execute room _ _ _ _ => room
  | _, invoke room _ _ => room
  | _, converse room _ _ => room
  | _, validate _ _ => 0
  | _, validateEach _ _ _ => 0

/-- Whether these runs, the last one first, can be what a task brings about. -/
def Task.Brings (maxDepth : Nat) : {α : Type} → Task α → List Invocation → Prop
  | _, eval room _ _ _, runs => IsNested maxDepth (.context (maxDepth - room)) runs
  | _, evalEach room _ _ _ _, runs => IsNested maxDepth (.context (maxDepth - room)) runs
  | _, execute room _ _ _ _, runs => IsNested maxDepth (.context (maxDepth - room)) runs
  | _, invoke room _ _, runs => IsNested maxDepth (.context (maxDepth - room)) runs
  | _, converse room _ _, runs => IsNested maxDepth (.body (maxDepth - room)) runs
  | _, validate _ _, runs => runs = []
  | _, validateEach _ _ _, runs => runs = []

section

variable {registry : Registry} {maxDepth : Nat} {law : Law} {α : Type} {task : Task α}
  {state middle after : State} {outcome : Except Fault α}

/-- What a task adds to the history is nested. -/
theorem Derives.nested (h : Derives registry maxDepth law task state outcome after)
    (hroom : task.room ≤ maxDepth) :
    ∃ runs, after.history = runs ++ state.history ∧ task.Brings maxDepth runs := by
  induction h with
  | literal | template | reference | evalNil | noRoom | done => exact ⟨[], rfl, .none⟩
  | validLiteral | validTemplate | validReference | validNil => exact ⟨[], rfl, rfl⟩
  | list _ ih | converted _ ih | call _ ih | evalFails _ ih => exact ih hroom
  | unread _ _ ih | read _ _ ih | tooDeep _ _ ih => exact ih hroom
  | validList _ ih | validConverted _ ih | validFails _ ih => exact ih hroom
  | draw _ ih =>
    obtain ⟨random, hdrawn⟩ := State.exists_random_of_drawn _ _ _
    rw [hdrawn] at ih
    exact ih hroom
  | unprepared prepared => exact ⟨[], history_of_prepare prepared, .none⟩
  | invalidCall prepared => exact ⟨[], history_of_prepare prepared, rfl⟩
  | argumentFails prepared _ ih | validCall prepared _ ih =>
    obtain ⟨runs, hruns, hnested⟩ := ih hroom
    exact ⟨runs, by rw [hruns, history_of_prepare prepared], hnested⟩
  | evalCons _ _ ih ih' =>
    obtain ⟨runs, hruns, hnested⟩ := ih hroom
    obtain ⟨runs', hruns', hnested'⟩ := ih' hroom
    exact ⟨runs' ++ runs, by rw [hruns', hruns, List.append_assoc], hnested'.append hnested⟩
  | validCons _ _ ih ih' =>
    obtain ⟨_, hruns, rfl⟩ := ih hroom
    obtain ⟨_, hruns', rfl⟩ := ih' hroom
    exact ⟨[], hruns'.trans hruns, rfl⟩
  | executed prepared _ _ _ ih ih' =>
    obtain ⟨runs, hruns, hnested⟩ := ih hroom
    obtain ⟨runs', hruns', hnested'⟩ := ih' hroom
    refine ⟨runs' ++ runs, ?_, hnested'.append hnested⟩
    rw [hruns', hruns, history_of_prepare prepared, List.append_assoc]
  | @invoked room f arguments _ _ _ _ _ ih =>
    replace hroom : room + 1 ≤ maxDepth := hroom
    obtain ⟨runs, hruns, hnested⟩ := ih (Nat.le_of_succ_le hroom)
    have hdeeper : maxDepth - room = maxDepth - (room + 1) + 1 := by omega
    refine ⟨runs ++ [⟨f, arguments, maxDepth - room⟩], ?_, ?_⟩
    · rw [hruns, List.append_assoc, List.singleton_append]
    · exact .called hdeeper (Nat.sub_le _ _) hnested .none
  | @evaluated n room _ _ _ _ _ frame _ _ _ enough _ _ ih ih' =>
    replace hroom : room ≤ maxDepth := hroom
    obtain ⟨runs, hruns, hnested⟩ := ih (Nat.le_trans (Nat.sub_le _ _) hroom)
    obtain ⟨runs', hruns', hnested'⟩ := ih' hroom
    have hbelow : maxDepth - (room - frame.below) = maxDepth - room + frame.below := by omega
    replace hnested : IsNested maxDepth (.context (maxDepth - (room - frame.below))) runs := hnested
    rw [hbelow] at hnested
    refine ⟨runs' ++ runs, by rw [hruns', hruns, List.append_assoc], ?_⟩
    refine IsNested.append hnested' ?_
    rw [← List.append_nil runs]
    exact .evaluated (by omega) hnested .none

/-! ## What a call does once its arguments are evaluated -/

/-- A call whose arguments could be evaluated goes on to run its function. -/
theorem Derives.exists_invoke {room : Nat} {scope : Scope} {space : String} {place : Place}
    {site : CallSite} {f : Function} {bound : Bound site} {values : List (List Value)}
    {called : State} {outcome : Except Fault (Option Returned)}
    (h : Derives registry maxDepth law (.execute room scope space place site) state outcome after)
    (hprepared : (site.prepare registry space place).runIn state = (.ok (f, bound), middle))
    (harguments : Derives registry maxDepth law
      (.evalEach room scope place 0 (bound.1.map Binding.expr)) middle (.ok values) called) :
    ∃ result, Derives registry maxDepth law (.invoke room f (Bundle.ofBindings bound.1 values))
      called result after ∧ outcome = result.map f.signature.shape := by
  rcases h.isDerived with ⟨fault, hfault, -⟩ | ⟨g, other, start, hok, hrest⟩
  · rw [hprepared] at hfault
    cases hfault
  · rw [hprepared] at hok
    cases hok
    rcases hrest with ⟨fault, hfails, -⟩ | ⟨_, _, result, hvalues, -, hinvoked, houtcome⟩
    · cases (harguments.unique hfails).1
    · obtain ⟨hsame, rfl⟩ := harguments.unique hvalues
      cases hsame
      exact ⟨result, hinvoked, houtcome⟩

/-- A call without room ends at the limit and runs nothing; any other call runs its function. -/
theorem Derives.invoke_iff {room : Nat} {f : Function} {arguments : Bundle}
    {outcome : Except Fault (List Value)}
    (h : Derives registry maxDepth law (.invoke room f arguments) state outcome after) :
    outcome.mapError Fault.error = .error (.recursionLimit maxDepth) ∧
      after.history = state.history ↔ room = 0 := by
  cases room with
  | zero =>
    obtain ⟨rfl, rfl⟩ := h.isDerived
    exact ⟨fun _ => rfl, fun _ => ⟨rfl, rfl⟩⟩
  | succ room =>
    have hbody : Derives registry maxDepth law _ _ outcome after := h.isDerived
    have hlength := hbody.extends.history.length_le
    refine ⟨?_, fun hroom => by cases hroom⟩
    rintro ⟨-, hsame⟩
    rw [List.length_cons, hsame] at hlength
    omega

/-- A function that is called from a context runs in the next deeper one, if that is allowed. -/
theorem Derives.invoke_child {context : Context} {f : Function} {arguments : Bundle}
    {outcome : Except Fault (List Value)}
    (h : Derives registry context.maxDepth law
      (.invoke (context.maxDepth - context.depth) f arguments) state outcome after) :
    match context.child with
    | .error e => outcome = .error (.own e) ∧ after = state
    | .ok child => Derives registry child.maxDepth law
        (.converse (child.maxDepth - child.depth) (f.body arguments child) f.shared)
        { state with history := ⟨f, arguments, child.depth⟩ :: state.history } outcome after := by
  unfold Context.child
  by_cases hless : context.depth < context.maxDepth
  · have hroom : context.maxDepth - context.depth =
        context.maxDepth - (context.depth + 1) + 1 := by omega
    have hdepth : context.maxDepth - (context.maxDepth - (context.depth + 1)) =
        context.depth + 1 := by omega
    rw [hroom] at h
    have hbody : Derives registry context.maxDepth law _ _ outcome after := h.isDerived
    rw [hdepth] at hbody
    rw [if_pos hless]
    exact hbody
  · have hroom : context.maxDepth - context.depth = 0 := by omega
    rw [hroom] at h
    rw [if_neg hless]
    exact h.isDerived

/-! ## Where the error of the limit comes from -/

/-- Whether a task is no call that is bound to fail at the limit. -/
def Task.HasRoom : {α : Type} → Task α → Prop
  | _, eval room _ _ _ => 0 < room
  | _, evalEach room _ _ _ _ => 0 < room
  | _, execute room _ _ _ _ => 0 < room
  | _, invoke room _ _ => 0 < room
  | _, _ => True

/-- Where there is room, nothing fails at the limit itself. -/
theorem Derives.ne_own_limit (h : Derives registry maxDepth law task state outcome after)
    (hroom : task.HasRoom) (limit : Nat) : outcome ≠ .error (.own (.recursionLimit limit)) := by
  intro hfault
  induction h with
  | literal | template | reference | evalNil => cases hfault
  | validLiteral | validTemplate | validReference | validNil => cases hfault
  | list _ ih | call _ ih => exact ih hroom (eq_error_of_map hfault)
  | converted _ ih =>
    rcases error_of_bind_eq_error hfault with hpart | ⟨values, -, hconvert⟩
    · exact ih hroom hpart
    · obtain ⟨v, -, -, hconversion⟩ := exists_of_convertAll_eq_error hconvert
      cases hconversion
  | unprepared prepared | invalidCall prepared =>
    obtain ⟨cause, -, rfl, -⟩ := prepare_of_runIn_error prepared
    cases hfault
  | evalFails _ ih | argumentFails _ _ ih | validFails _ ih => exact ih hroom (by cases hfault; rfl)
  | evalCons _ _ _ ih | executed _ _ _ _ _ ih => exact ih hroom (eq_error_of_map hfault)
  | noRoom => exact Nat.lt_irrefl 0 hroom
  | invoked _ _ ih => exact ih trivial hfault
  | done =>
    obtain ⟨e, -, hbody⟩ := exists_of_mapError_eq_error hfault
    cases hbody
  | draw _ ih | unread _ _ ih | read _ _ ih | tooDeep _ _ ih => exact ih hroom hfault
  | evaluated _ _ _ _ ih => exact ih hroom hfault
  | validList _ ih | validConverted _ ih | validCall _ _ ih => exact ih trivial hfault
  | validCons _ _ _ ih => exact ih hroom hfault

/-- Whether a body does not call back, nor ends with the error of the limit of its own accord. -/
def Body.IsQuiet : {n : Nat} → Body n → Prop
  | _, done result => ∀ limit, result ≠ .error (.recursionLimit limit)
  | _, draw _ _ next => ∀ i, (next i).IsQuiet
  | _, parse _ _ _ failed parsed => (∀ failure, (failed failure).IsQuiet) ∧ parsed.IsQuiet
  | _, evaluate _ _ _ => False

/-- Whether the body of a run does not call back, nor ends with the error of the limit of its own
accord. -/
def Invocation.IsQuiet (maxDepth : Nat) (run : Invocation) : Prop :=
  (run.function.body run.arguments ⟨Scope.empty, run.depth, maxDepth⟩).IsQuiet

/-- Whether all runs that were noted from one state to another are quiet. -/
def State.IsQuietUntil (maxDepth : Nat) (state after : State) : Prop :=
  ∀ runs, after.history = runs ++ state.history → ∀ run ∈ runs, run.IsQuiet maxDepth

/-- What was quiet on the whole was quiet in each part. -/
theorem State.IsQuietUntil.parts (h : state.IsQuietUntil maxDepth after)
    (hbegin : state.Extends middle) (hend : middle.Extends after) :
    state.IsQuietUntil maxDepth middle ∧ middle.IsQuietUntil maxDepth after := by
  obtain ⟨runs, hruns⟩ := hbegin.history
  obtain ⟨runs', hruns'⟩ := hend.history
  have hall : ∀ run ∈ runs' ++ runs, run.IsQuiet maxDepth :=
    h (runs' ++ runs) (by rw [← hruns', ← hruns, List.append_assoc])
  constructor
  · intro others hothers run hrun
    rw [← hruns] at hothers
    rw [← List.append_cancel_right hothers] at hrun
    exact hall run (List.mem_append_right _ hrun)
  · intro others hothers run hrun
    rw [← hruns'] at hothers
    rw [← List.append_cancel_right hothers] at hrun
    exact hall run (List.mem_append_left _ hrun)

/-- Whether a task begins with a body only if that is quiet. -/
def Task.IsQuiet : {α : Type} → Task α → Prop
  | _, converse _ body _ => body.IsQuiet
  | _, _ => True

/-- Functions that are quiet do not hand on the error of the limit. -/
theorem Derives.ne_limit_ofBody (h : Derives registry maxDepth law task state outcome after)
    (hquiet : state.IsQuietUntil maxDepth after) (htask : task.IsQuiet) (limit : Nat) :
    outcome ≠ .error (.ofBody (.recursionLimit limit)) := by
  intro hfault
  induction h with
  | literal | template | reference | evalNil => cases hfault
  | validLiteral | validTemplate | validReference | validNil => cases hfault
  | list _ ih | call _ ih => exact ih hquiet trivial (eq_error_of_map hfault)
  | converted _ ih =>
    rcases error_of_bind_eq_error hfault with hpart | ⟨values, -, hconvert⟩
    · exact ih hquiet trivial hpart
    · obtain ⟨v, -, -, hconversion⟩ := exists_of_convertAll_eq_error hconvert
      cases hconversion
  | unprepared prepared | invalidCall prepared =>
    obtain ⟨cause, -, rfl, -⟩ := prepare_of_runIn_error prepared
    cases hfault
  | evalFails _ ih | validFails _ ih => exact ih hquiet trivial (by cases hfault; rfl)
  | argumentFails prepared arguments ih =>
    obtain ⟨-, hquiet⟩ := hquiet.parts (.of_prepare prepared) arguments.extends
    exact ih hquiet trivial (by cases hfault; rfl)
  | evalCons head rest _ ih =>
    obtain ⟨-, hquiet⟩ := hquiet.parts head.extends rest.extends
    exact ih hquiet trivial (eq_error_of_map hfault)
  | executed prepared arguments _ invoked _ ih =>
    have hcalled := (State.Extends.of_prepare prepared).trans arguments.extends
    obtain ⟨-, hquiet⟩ := hquiet.parts hcalled invoked.extends
    exact ih hquiet trivial (eq_error_of_map hfault)
  | noRoom => cases hfault
  | @invoked room f arguments state _ after body _ ih =>
    -- The run itself is noted, and so it is quiet.
    have hnoted : state.Extends
        { state with history := ⟨f, arguments, maxDepth - room⟩ :: state.history } :=
      ⟨Nat.le_refl _, fun _ _ h => h, fun _ _ h => h, List.suffix_cons _ _⟩
    obtain ⟨hrun, hbody⟩ := hquiet.parts hnoted body.extends
    exact ih hbody (hrun [⟨f, arguments, maxDepth - room⟩] rfl _ (List.mem_singleton_self _)) hfault
  | done =>
    obtain ⟨e, he, hbody⟩ := exists_of_mapError_eq_error hfault
    cases hbody
    exact htask limit he
  | draw _ ih =>
    obtain ⟨random, hdrawn⟩ := State.exists_random_of_drawn _ _ _
    rw [hdrawn] at ih
    exact ih hquiet (htask _) hfault
  | unread _ _ ih => exact ih hquiet (htask.1 _) hfault
  | read _ _ ih => exact ih hquiet htask.2 hfault
  | tooDeep | evaluated => exact htask
  | validList _ ih | validConverted _ ih => exact ih hquiet trivial hfault
  | validCall prepared arguments ih =>
    obtain ⟨-, hquiet⟩ := hquiet.parts (.of_prepare prepared) arguments.extends
    exact ih hquiet trivial hfault
  | validCons head rest _ ih =>
    obtain ⟨-, hquiet⟩ := hquiet.parts head.extends rest.extends
    exact ih hquiet trivial hfault

/-- Where there is room and functions are quiet, the error of the limit is not reported. -/
theorem Derives.ne_limit_of_quiet (h : Derives registry maxDepth law task state outcome after)
    (hroom : task.HasRoom) (hquiet : state.IsQuietUntil maxDepth after) (htask : task.IsQuiet)
    (limit : Nat) : outcome.mapError Fault.error ≠ .error (.recursionLimit limit) := by
  intro hreported
  obtain ⟨fault, hfault, herror⟩ := exists_of_mapError_eq_error hreported
  cases fault with
  | own e =>
    cases herror
    exact h.ne_own_limit hroom limit hfault
  | ofBody e =>
    cases herror
    exact h.ne_limit_ofBody hquiet htask limit hfault

end

end CallScript

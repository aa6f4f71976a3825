import CallScript.Proofs.Determinism

/-!
# Scripts compose line by line

A script is run and checked line by line, so two scripts one after the other come to the same as the
two on their own: the first that fails decides, and otherwise the results are those of the first and
then those of the second (`Session.scripts_compose`). Only the numbers of the lines change. They
show in parse errors alone, so the errors of the second script are the same up to the number in
these (`Fault.shifted`).

Of the lines there is not much to prove: the lines of two sources with a line break in between are
the lines of the first and those of the second, numbered on (`Evaluator.scriptLines_append`). But a
line is run in the state that the ones before it have left. That this does not show is due to what a
line is: a text that is read anew, so nothing is known of it, and that is evaluated in the context
of the script. While functions are deterministic it ends alike in all states that can be come to
(`Session.IsDeterministic.evaluate_alike`); checking it always does (`Session.check_alike`).

A line that is evaluated without an error is checked without one, because checking fails only for a
call that evaluation would have failed for (`Session.check_of_evaluate`).
-/

namespace CallScript

/-! ## The lines of a script -/

namespace Evaluator

/-- The texts between line breaks. -/
def linesOf (source : List Char) : List (List Char) :=
  (splitLines source).1 :: (splitLines source).2

theorem scriptLines_eq (source : String) :
    scriptLines source = numberedLines 1 (linesOf source.toList) := rfl

theorem linesOf_newline (source : List Char) : linesOf ('\n' :: source) = [] :: linesOf source := by
  simp only [linesOf, splitLines, if_true]

theorem splitLines_of_ne {c : Char} (h : c ≠ '\n') (source : List Char) :
    splitLines (c :: source) = (c :: (splitLines source).1, (splitLines source).2) := by
  simp only [splitLines, if_neg h]

/-- The lines of two texts with a line break in between. -/
theorem linesOf_append (source rest : List Char) :
    linesOf (source ++ '\n' :: rest) = linesOf source ++ linesOf rest := by
  induction source with
  | nil => exact linesOf_newline rest
  | cons c source ih =>
    rw [List.cons_append]
    by_cases hc : c = '\n'
    · rw [hc, linesOf_newline, linesOf_newline, ih, List.cons_append]
    · simp only [linesOf, List.cons_append, List.cons.injEq] at ih
      simp only [linesOf, splitLines_of_ne hc, ih.1, ih.2, List.cons_append]

/-- There is a line more than there are line breaks. -/
theorem length_linesOf (source : List Char) :
    (linesOf source).length = source.count '\n' + 1 := by
  induction source with
  | nil => rfl
  | cons c source ih =>
    by_cases hc : c = '\n'
    · rw [hc, linesOf_newline, List.length_cons, ih, List.count_cons_self]
    · rw [linesOf, splitLines_of_ne hc, List.count_cons_of_ne hc, ← ih]
      rfl

theorem numberedLines_append (number : Nat) (lines rest : List (List Char)) :
    numberedLines number (lines ++ rest) =
      numberedLines number lines ++ numberedLines (number + lines.length) rest := by
  induction lines generalizing number with
  | nil => rfl
  | cons line lines ih =>
    have hnumber : number + (line :: lines).length = number + 1 + lines.length := by
      rw [List.length_cons]
      omega
    rw [List.cons_append, numberedLines, numberedLines, ih, hnumber]
    split
    · rfl
    · split <;> rfl

/-- Lines are numbered on from wherever the first one is. -/
theorem numberedLines_add (number shift : Nat) (lines : List (List Char)) :
    numberedLines (number + shift) lines =
      (numberedLines number lines).map fun line => (line.1 + shift, line.2) := by
  induction lines generalizing number with
  | nil => rfl
  | cons line lines ih =>
    rw [numberedLines, numberedLines, Nat.add_right_comm, ih]
    split
    · rfl
    · split <;> rfl

/-- The lines of a script are those of its halves; the second half is numbered on. -/
theorem scriptLines_append (a b : String) :
    scriptLines (a ++ "\n" ++ b) = scriptLines a ++
      (scriptLines b).map fun line => (line.1 + (a.toList.count '\n' + 1), line.2) := by
  have hsource : (a ++ "\n" ++ b).toList = a.toList ++ '\n' :: b.toList := by simp
  rw [scriptLines_eq, hsource, linesOf_append, numberedLines_append, length_linesOf,
    numberedLines_add]
  rfl

end Evaluator

/-! ## Errors further down -/

/-- The error of a script that begins a number of lines further down: a parse error names another
line. -/
def Error.shifted (shift : Nat) : Error → Error
  | .parse (line :: lines) failure text => .parse ((line + shift) :: lines) failure text
  | e => e

/-- The fault of a script that begins a number of lines further down. -/
def Fault.shifted (shift : Nat) : Fault → Fault
  | .own e => .own (e.shifted shift)
  | .ofBody e => .ofBody (e.shifted shift)

theorem Fault.atLine_add (number shift : Nat) (fault : Fault) :
    fault.atLine (number + shift) = (fault.atLine number).shifted shift := by
  cases fault with
  | own e | ofBody e => cases e <;> rfl

/-- What two scripts end with one after the other, where the second begins a number of lines further
down. -/
def joined {α : Type} (shift : Nat) (join : α → α → α) :
    Except Fault α → Except Fault α → Except Fault α
  | .error fault, _ => .error fault
  | .ok first, .ok second => .ok (join first second)
  | .ok _, .error fault => .error (fault.shifted shift)

/-- What goes with the results goes with those of the two. -/
theorem map_joined {α β : Type} {shift : Nat} {join : α → α → α} {join' : β → β → β} {g : α → β}
    (h : ∀ x y, g (join x y) = join' (g x) (g y)) (first second : Except Fault α) :
    (joined shift join first second).map g =
      joined shift join' (first.map g) (second.map g) := by
  cases first with
  | error fault => rfl
  | ok x =>
    cases second with
    | error fault => rfl
    | ok y => exact congrArg Except.ok (h x y)

/-! ## Lines one after the other -/

section

variable {ε ι β : Type} {items : List ι}

theorem mapM_mapError (g : Fault → Fault) (o : ι → Except Fault β) (items : List ι) :
    (items.mapM fun i => (o i).mapError g) = (items.mapM o).mapError g := by
  induction items with
  | nil => rfl
  | cons i items ih =>
    rw [List.mapM_cons, List.mapM_cons, ih]
    cases o i with
    | error e => rfl
    | ok b => cases items.mapM o <;> rfl

theorem mapM_eq_ok {o : ι → Except ε β} (h : ∀ i ∈ items, ∃ b, o i = .ok b) :
    ∃ bs, items.mapM o = .ok bs ∧ bs.length = items.length := by
  induction items with
  | nil => exact ⟨[], rfl, rfl⟩
  | cons i items ih =>
    obtain ⟨b, hb⟩ := h i (List.mem_cons_self ..)
    obtain ⟨bs, hbs, hlength⟩ := ih fun j hj => h j (List.mem_cons_of_mem _ hj)
    refine ⟨b :: bs, ?_, by rw [List.length_cons, List.length_cons, hlength]⟩
    rw [List.mapM_cons, hb, hbs]
    rfl

/-- Lines whose outcomes are known but for their numbers. -/
theorem mapM_append_shifted {shift : Nat} {o : Nat × String → Except Fault β}
    (h : ∀ line, o (line.1 + shift, line.2) = (o line).mapError (Fault.shifted shift))
    (lines rest : List (Nat × String)) :
    (lines ++ rest.map fun line => (line.1 + shift, line.2)).mapM o =
      joined shift (· ++ ·) (lines.mapM o) (rest.mapM o) := by
  have hrest : (rest.map fun line => (line.1 + shift, line.2)).mapM o =
      (rest.mapM o).mapError (Fault.shifted shift) := by
    rw [List.mapM_map, ← mapM_mapError]
    congr 1
    funext line
    exact h line
  rw [List.mapM_append, hrest]
  cases lines.mapM o with
  | error fault => rfl
  | ok first => cases rest.mapM o <;> rfl

variable {f : ι → Attempt ε β} {possible : State → Prop} {state : State}

/-- Where each item ends alike in all possible states, so do all of them one after the other. -/
theorem Attempt.runIn_mapM {o : ι → Except ε β}
    (h : ∀ i state, possible state →
      ((f i).runIn state).1 = o i ∧ possible ((f i).runIn state).2)
    (hstate : possible state) : ((items.mapM f).runIn state).1 = items.mapM o := by
  induction items generalizing state with
  | nil => rfl
  | cons i items ih =>
    obtain ⟨houtcome, hafter⟩ := h i state hstate
    rw [List.mapM_cons, List.mapM_cons, ← houtcome]
    cases hrun : (f i).runIn state with
    | mk outcome after =>
      rw [hrun] at hafter
      cases outcome with
      | error e =>
        rw [runIn_bind_of_error hrun]
        rfl
      | ok b =>
        rw [runIn_bind_of_ok hrun, runIn_bind_pure, ih hafter]
        rfl

/-- Where all items succeed one after the other, each of them succeeds in some possible state. -/
theorem Attempt.exists_of_runIn_mapM (h : ∀ i state, possible state →
      possible ((f i).runIn state).2) (hstate : possible state) {bs : List β}
    (hok : ((items.mapM f).runIn state).1 = .ok bs) : bs.length = items.length ∧
      ∀ i ∈ items, ∃ before b, possible before ∧ ((f i).runIn before).1 = .ok b := by
  induction items generalizing state bs with
  | nil =>
    cases hok
    exact ⟨rfl, fun i hi => absurd hi List.not_mem_nil⟩
  | cons i items ih =>
    have hafter := h i state hstate
    rw [List.mapM_cons] at hok
    cases hrun : (f i).runIn state with
    | mk outcome after =>
      rw [hrun] at hafter
      cases outcome with
      | error e =>
        rw [runIn_bind_of_error hrun] at hok
        cases hok
      | ok b =>
        rw [runIn_bind_of_ok hrun, runIn_bind_pure] at hok
        obtain ⟨rest, hrest, rfl⟩ := exists_of_map_eq_ok hok
        obtain ⟨hlength, hitems⟩ := ih hafter hrest
        refine ⟨by rw [List.length_cons, List.length_cons, hlength], ?_⟩
        intro j hj
        rcases List.mem_cons.mp hj with rfl | hj
        · exact ⟨state, b, hstate, by rw [hrun]⟩
        · exact hitems j hj

end

/-! ## A line of a script -/

namespace Evaluator

/-- Evaluates a line of a script, and shows its values. -/
def runLine (evaluator : Evaluator) (line : Nat × String) : Run String := do
  let values ← ExceptT.adapt (Fault.atLine line.1) (evaluator.evaluate line.2)
  pure (displayAll ", " values)

/-- Checks a line of a script. -/
def checkLine (evaluator : Evaluator) (line : Nat × String) : Run Unit :=
  ExceptT.adapt (Fault.atLine line.1) (evaluator.check line.2)

theorem runScript_eq (evaluator : Evaluator) (source : String) :
    evaluator.runScript source = (scriptLines source).mapM evaluator.runLine := rfl

theorem runIn_checkScript (evaluator : Evaluator) (source : String) (state : State) :
    ((evaluator.checkScript source).runIn state).1 =
      (((scriptLines source).mapM evaluator.checkLine).runIn state).1.map List.length :=
  congrArg Prod.fst (Attempt.runIn_bind_pure ..)

theorem runIn_runLine (evaluator : Evaluator) (line : Nat × String) (state : State) :
    (evaluator.runLine line).runIn state =
      ((((evaluator.evaluate line.2).runIn state).1.mapError (Fault.atLine line.1)).map
          (displayAll ", "), ((evaluator.evaluate line.2).runIn state).2) := by
  rw [runLine, Attempt.runIn_bind_pure, Attempt.runIn_adapt]

theorem runIn_checkLine (evaluator : Evaluator) (line : Nat × String) (state : State) :
    (evaluator.checkLine line).runIn state =
      (((evaluator.check line.2).runIn state).1.mapError (Fault.atLine line.1),
        ((evaluator.check line.2).runIn state).2) := by
  rw [checkLine, Attempt.runIn_adapt]

end Evaluator

namespace Session

/-- Whether a state may be come to while no function is registered. -/
def MayBeIn (session : Session) (state : State) : Prop :=
  ∃ later, Steady .free session later ∧ later.state = state

section

variable {session : Session} {space text : String} {context : Context} {state state' : State}

/-- A text can be read in any state that may be come to, unless it can be read in none. -/
theorem MayBeIn.read (h : session.MayBeIn state) (hreached : Reached .free session) (space : String)
    (context : Context) (text : String) :
    (∃ failure, (session.registry.reader space).parse text .any = .error failure ∧
      (Evaluator.read ⟨session.registry, space, context⟩ text).runIn state =
        (.error (.own (.parse [] failure text)), state)) ∨
    ∃ x reading, (session.registry.reader space).parse text .any = .ok x.item ∧
      (Evaluator.read ⟨session.registry, space, context⟩ text).runIn state =
        (.ok x, reading.state) ∧
      Steady .free session reading ∧ reading.Isolates x := by
  obtain ⟨later, hlater, rfl⟩ := h
  cases hparse : (session.registry.reader space).parse text .any with
  | error failure =>
    exact .inl ⟨failure, rfl, Evaluator.runIn_read_of_error hparse⟩
  | ok e =>
    have hparsed : (Evaluator.parse ⟨session.registry, space, context⟩ text .any).runIn
        later.state = (.ok ⟨later.state.nextRoot, e⟩,
          { later.state with nextRoot := later.state.nextRoot + 1 }) := by
      rw [Evaluator.parse, hparse]
      rfl
    obtain ⟨-, hreading, hisolates⟩ :=
      HasRead.isolates ⟨later, context, _, hlater, hparsed, .refl⟩ hreached
    exact .inr ⟨_, _, rfl, Evaluator.runIn_read_of_ok hparse, hreading, hisolates⟩

/-- What a text is evaluated in comes to another such state. -/
theorem MayBeIn.evaluate (h : session.MayBeIn state) (hreached : Reached .free session) :
    session.MayBeIn
      ((Evaluator.evaluate ⟨session.registry, space, context⟩ text).runIn state).2 := by
  rw [Evaluator.evaluate]
  obtain ⟨failure, -, hread⟩ | ⟨x, reading, -, hread, hreading, hisolates⟩ :=
    h.read hreached space context text
  · rw [Attempt.runIn_bind_of_error hread]
    exact h
  · rw [Attempt.runIn_bind_of_ok hread]
    have hran := derives reading.registry context.maxDepth
      (.eval (context.maxDepth - context.depth) context.scope ⟨x.root, []⟩ x.item) reading.state
    refine ⟨_, hreading.tail ⟨.evaluate hisolates.read hran, rfl⟩, ?_⟩
    rw [hreading.registry_eq]
    rfl

/-- What a text is checked in comes to another such state. -/
theorem MayBeIn.check (h : session.MayBeIn state) (hreached : Reached .free session) :
    session.MayBeIn ((Evaluator.check ⟨session.registry, space, context⟩ text).runIn state).2 := by
  rw [Evaluator.check]
  obtain ⟨failure, -, hread⟩ | ⟨x, reading, -, hread, hreading, hisolates⟩ :=
    h.read hreached space context text
  · rw [Attempt.runIn_bind_of_error hread]
    exact h
  · rw [Attempt.runIn_bind_of_ok hread]
    have hran := derives reading.registry 0 (.validate ⟨x.root, []⟩ x.item) reading.state
    refine ⟨_, hreading.tail ⟨.validate hisolates.read hran, rfl⟩, ?_⟩
    rw [hreading.registry_eq]
    rfl

/-- A text is read alike in all states that may be come to. -/
theorem MayBeIn.read_alike (h : session.MayBeIn state) (h' : session.MayBeIn state')
    (hreached : Reached .free session) (space : String) (context : Context) (text : String) :
    (∃ fault,
      (Evaluator.read ⟨session.registry, space, context⟩ text).runIn state = (.error fault, state) ∧
      (Evaluator.read ⟨session.registry, space, context⟩ text).runIn state' =
        (.error fault, state')) ∨
    ∃ x y reading reading', y.item = x.item ∧
      (Evaluator.read ⟨session.registry, space, context⟩ text).runIn state =
        (.ok x, reading.state) ∧
      (Evaluator.read ⟨session.registry, space, context⟩ text).runIn state' =
        (.ok y, reading'.state) ∧
      (Steady .free session reading ∧ reading.Isolates x) ∧
      Steady .free session reading' ∧ reading'.Isolates y := by
  obtain ⟨failure, hparse, hread⟩ | ⟨x, reading, hparse, hread, hreading⟩ :=
      h.read hreached space context text <;>
    obtain ⟨failure', hparse', hread'⟩ | ⟨y, reading', hparse', hread', hreading'⟩ :=
      h'.read hreached space context text
  · cases hparse.symm.trans hparse'
    exact .inl ⟨_, hread, hread'⟩
  · cases hparse.symm.trans hparse'
  · cases hparse.symm.trans hparse'
  · exact .inr ⟨x, y, reading, reading', Except.ok.inj (hparse'.symm.trans hparse), hread, hread',
      hreading, hreading'⟩

/-- A text is evaluated alike in all states that may be come to. -/
theorem IsDeterministic.evaluate_alike (h : session.IsDeterministic)
    (hreached : Reached .free session) (hstate : session.MayBeIn state)
    (hstate' : session.MayBeIn state') :
    ((Evaluator.evaluate ⟨session.registry, space, context⟩ text).runIn state).1 =
      ((Evaluator.evaluate ⟨session.registry, space, context⟩ text).runIn state').1 := by
  rw [Evaluator.evaluate]
  obtain ⟨fault, hread, hread'⟩ | ⟨x, y, reading, reading', hitem, hread, hread',
      ⟨hreading, hisolates⟩, hreading', hisolates'⟩ :=
    hstate.read_alike hstate' hreached space context text
  · rw [Attempt.runIn_bind_of_error hread, Attempt.runIn_bind_of_error hread']
  · rw [Attempt.runIn_bind_of_ok hread, Attempt.runIn_bind_of_ok hread']
    exact h.eval_alike hreading hreading' hisolates hisolates' hitem _ rfl

/-- A text is checked alike in all states that may be come to. -/
theorem check_alike (hreached : Reached .free session) (hstate : session.MayBeIn state)
    (hstate' : session.MayBeIn state') :
    ((Evaluator.check ⟨session.registry, space, context⟩ text).runIn state).1 =
      ((Evaluator.check ⟨session.registry, space, context⟩ text).runIn state').1 := by
  rw [Evaluator.check]
  obtain ⟨fault, hread, hread'⟩ | ⟨x, y, reading, reading', hitem, hread, hread',
      ⟨hreading, hisolates⟩, hreading', hisolates'⟩ :=
    hstate.read_alike hstate' hreached space context text
  · rw [Attempt.runIn_bind_of_error hread, Attempt.runIn_bind_of_error hread']
  · rw [Attempt.runIn_bind_of_ok hread, Attempt.runIn_bind_of_ok hread']
    exact hisolates.validate_alike hisolates' hitem
      (hreading'.registry_eq.trans hreading.registry_eq.symm) _ hreading.registry_eq.symm

/-- A text that is evaluated without an error is checked without one. -/
theorem check_of_evaluate (hreached : Reached .free session) (hstate : session.MayBeIn state)
    {values : List Value}
    (hok : ((Evaluator.evaluate ⟨session.registry, space, context⟩ text).runIn state).1 =
      .ok values) :
    ((Evaluator.check ⟨session.registry, space, context⟩ text).runIn state).1 = .ok () := by
  obtain ⟨later, hlater, rfl⟩ := hstate
  rw [Evaluator.evaluate] at hok
  rw [Evaluator.check]
  cases hparse : (session.registry.reader space).parse text .any with
  | error failure =>
    rw [Attempt.runIn_bind_of_error (Evaluator.runIn_read_of_error hparse)] at hok
    cases hok
  | ok e =>
    rw [Attempt.runIn_bind_of_ok (Evaluator.runIn_read_of_ok hparse)] at hok ⊢
    have hsettled := (hreached.steady hlater).isRooted.settled
    rw [hlater.registry_eq] at hsettled
    have heval := derives session.registry context.maxDepth
      (.eval (context.maxDepth - context.depth) context.scope ⟨later.state.nextRoot, []⟩ e)
      { later.state with nextRoot := later.state.nextRoot + 1 }
    have hcheck := derives session.registry context.maxDepth
      (.validate ⟨later.state.nextRoot, []⟩ e)
      { later.state with nextRoot := later.state.nextRoot + 1 }
    obtain ⟨_, hevaluated, -⟩ := Evaluator.exists_follows hsettled heval rfl
    obtain ⟨_, hchecked, -⟩ := Evaluator.exists_follows hsettled hcheck rfl
    -- Both go through the same calls, and evaluation has found none that cannot be prepared.
    have hnone := hevaluated.firstFailure_of_ok hok
    cases houtcome : ((Evaluator.validate ⟨session.registry, space, context⟩
      ⟨later.state.nextRoot, e⟩).runIn
        { later.state with nextRoot := later.state.nextRoot + 1 }).1 with
    | ok _ => rfl
    | error fault =>
      obtain ⟨callee, cause, rfl⟩ := hcheck.mayFail houtcome
      obtain ⟨-, hfirst⟩ := hchecked.failed callee cause houtcome
      cases hnone.symm.trans hfirst

/-- What a script is run to, by what its lines are evaluated to. -/
theorem IsDeterministic.runScript_eq (h : session.IsDeterministic)
    (hreached : Reached .free session) (hstate : session.MayBeIn state) (source : String) :
    ((Evaluator.runScript ⟨session.registry, space, context⟩ source).runIn state).1 =
      (Evaluator.scriptLines source).mapM fun line =>
        ((((Evaluator.evaluate ⟨session.registry, space, context⟩ line.2).runIn
          session.state).1).mapError (Fault.atLine line.1)).map (displayAll ", ") := by
  rw [Evaluator.runScript_eq]
  refine Attempt.runIn_mapM (fun line state hstate => ?_) hstate
  rw [Evaluator.runIn_runLine, h.evaluate_alike hreached hstate ⟨session, .refl, rfl⟩]
  exact ⟨rfl, hstate.evaluate hreached⟩

/-- What a script is checked to, by what its lines are checked to. -/
theorem checkScript_eq (hreached : Reached .free session) (hstate : session.MayBeIn state)
    (source : String) :
    ((Evaluator.checkScript ⟨session.registry, space, context⟩ source).runIn state).1 =
      ((Evaluator.scriptLines source).mapM fun line =>
        (((Evaluator.check ⟨session.registry, space, context⟩ line.2).runIn
          session.state).1).mapError (Fault.atLine line.1)).map List.length := by
  rw [Evaluator.runIn_checkScript]
  congr 1
  refine Attempt.runIn_mapM (fun line state hstate => ?_) hstate
  rw [Evaluator.runIn_checkLine, check_alike hreached hstate ⟨session, .refl, rfl⟩]
  exact ⟨rfl, hstate.check hreached⟩

/-- Two scripts one after the other are run line by line. -/
theorem IsDeterministic.runScript_append (h : session.IsDeterministic)
    (hreached : Reached .free session) (a b : String) {first second third : State}
    (hfirst : session.MayBeIn first) (hsecond : session.MayBeIn second)
    (hthird : session.MayBeIn third) :
    ((Evaluator.runScript ⟨session.registry, space, context⟩ (a ++ "\n" ++ b)).runIn first).1 =
      joined (a.toList.count '\n' + 1) (· ++ ·)
        ((Evaluator.runScript ⟨session.registry, space, context⟩ a).runIn second).1
        ((Evaluator.runScript ⟨session.registry, space, context⟩ b).runIn third).1 := by
  rw [h.runScript_eq hreached hfirst, h.runScript_eq hreached hsecond,
    h.runScript_eq hreached hthird, Evaluator.scriptLines_append]
  apply mapM_append_shifted
  intro line
  cases ((Evaluator.evaluate ⟨session.registry, space, context⟩ line.2).runIn session.state).1 with
  | error fault => exact congrArg Except.error (fault.atLine_add _ _)
  | ok values => rfl

/-- Two scripts one after the other are checked line by line. -/
theorem checkScript_append (hreached : Reached .free session) (a b : String)
    {first second third : State} (hfirst : session.MayBeIn first) (hsecond : session.MayBeIn second)
    (hthird : session.MayBeIn third) :
    ((Evaluator.checkScript ⟨session.registry, space, context⟩ (a ++ "\n" ++ b)).runIn first).1 =
      joined (a.toList.count '\n' + 1) (· + ·)
        ((Evaluator.checkScript ⟨session.registry, space, context⟩ a).runIn second).1
        ((Evaluator.checkScript ⟨session.registry, space, context⟩ b).runIn third).1 := by
  rw [checkScript_eq hreached hfirst, checkScript_eq hreached hsecond,
    checkScript_eq hreached hthird, Evaluator.scriptLines_append, mapM_append_shifted]
  · exact map_joined (fun _ _ => List.length_append) _ _
  · intro line
    cases ((Evaluator.check ⟨session.registry, space, context⟩ line.2).runIn session.state).1 with
    | error fault => exact congrArg Except.error (fault.atLine_add _ _)
    | ok _ => rfl

/-- A script that runs is checked without an error, since each of its lines is. -/
theorem checkScript_of_runScript (hreached : Reached .free session)
    (hstate : session.MayBeIn state) (hstate' : session.MayBeIn state') {source : String}
    {lines : List String}
    (hran : ((Evaluator.runScript ⟨session.registry, space, context⟩ source).runIn state).1 =
      .ok lines) :
    ((Evaluator.checkScript ⟨session.registry, space, context⟩ source).runIn state').1 =
      .ok lines.length := by
  have hpossible (line : Nat × String) (state : State) (hstate : session.MayBeIn state) :
      session.MayBeIn
        ((Evaluator.runLine ⟨session.registry, space, context⟩ line).runIn state).2 := by
    rw [Evaluator.runIn_runLine]
    exact hstate.evaluate hreached
  obtain ⟨hlength, hlines⟩ := Attempt.exists_of_runIn_mapM hpossible hstate hran
  have hchecked : ∀ line ∈ Evaluator.scriptLines source, ∃ b,
      (((Evaluator.check ⟨session.registry, space, context⟩ line.2).runIn
        session.state).1).mapError (Fault.atLine line.1) = .ok b := by
    intro line hline
    obtain ⟨before, shown, hbefore, hshown⟩ := hlines line hline
    rw [Evaluator.runIn_runLine] at hshown
    obtain ⟨values, hvalues, -⟩ := exists_of_map_eq_ok hshown
    rw [check_alike hreached ⟨session, .refl, rfl⟩ hbefore,
      check_of_evaluate hreached hbefore (eq_ok_of_mapError hvalues)]
    exact ⟨(), rfl⟩
  obtain ⟨counted, hcounted, hsame⟩ := mapM_eq_ok hchecked
  rw [checkScript_eq hreached hstate', hcounted, hlength, ← hsame]
  rfl

end

/-- Scripts compose line by line, and checking them foretells whether they run.

* Two scripts one after the other end with what the two end with on their own: with the error of the
  first if it fails; else with the lines of the first and then those of the second; or with the
  error of the second, where the line that a parse error names is counted from the beginning of the
  first. For runs this asks for deterministic functions; each of the three scripts may be run at any
  time, whatever was read, run or checked before.
* The same holds for checks, where the counts are added.
* A script that runs is checked without an error, with as many lines as it gives. So a script whose
  check fails does not run. -/
theorem scripts_compose (session : Session) (hreached : Reached .free session) (space : String)
    (context : Context) :
    let ran (moment : Session) (source : String) :=
      ((Evaluator.runScript ⟨session.registry, space, context⟩ source).runIn moment.state).1
    let checked (moment : Session) (source : String) :=
      ((Evaluator.checkScript ⟨session.registry, space, context⟩ source).runIn moment.state).1
    (∀ (a b : String) first second third, Steady .free session first →
      Steady .free session second → Steady .free session third →
      let shift := a.toList.count '\n' + 1
      (session.IsDeterministic →
        ran first (a ++ "\n" ++ b) = joined shift (· ++ ·) (ran second a) (ran third b)) ∧
      checked first (a ++ "\n" ++ b) = joined shift (· + ·) (checked second a) (checked third b)) ∧
    ∀ source first second, Steady .free session first → Steady .free session second →
      (∀ lines, ran first source = .ok lines → checked second source = .ok lines.length) ∧
      ((∃ fault, checked second source = .error fault) →
        ∃ fault, ran first source = .error fault) := by
  intro ran checked
  refine ⟨?_, ?_⟩
  · intro a b first second third hfirst hsecond hthird shift
    exact ⟨fun hdeterministic => hdeterministic.runScript_append hreached a b ⟨first, hfirst, rfl⟩
        ⟨second, hsecond, rfl⟩ ⟨third, hthird, rfl⟩,
      checkScript_append hreached a b ⟨first, hfirst, rfl⟩ ⟨second, hsecond, rfl⟩
        ⟨third, hthird, rfl⟩⟩
  · intro source first second hfirst hsecond
    have hforetold (lines : List String) (hran : ran first source = .ok lines) :
        checked second source = .ok lines.length :=
      checkScript_of_runScript hreached ⟨first, hfirst, rfl⟩ ⟨second, hsecond, rfl⟩ hran
    refine ⟨hforetold, ?_⟩
    rintro ⟨fault, hchecked⟩
    cases hran : ran first source with
    | error fault => exact ⟨fault, rfl⟩
    | ok lines => cases (hforetold lines hran).symm.trans hchecked

theorem evaluate_plainCall :
    ((Evaluator.evaluate ⟨nestedSession.registry, "", .top 256⟩ "g()").runIn
      nestedSession.state).1 = .ok [.boolean true] := by
  rw [Evaluator.evaluate, Attempt.runIn_bind_of_ok (Evaluator.runIn_read_of_ok parse_plainCall)]
  exact runIn_eval_plainCall (Pins.get_empty _)

/-- A script of one line that runs, and one whose second line cannot be read. One after the other
they fail at the third line. -/
theorem scripts_compose_shown :
    let ran (source : String) :=
      ((Evaluator.runScript ⟨nestedSession.registry, "", .top 256⟩ source).runIn
        nestedSession.state).1
    nestedSession.IsDeterministic ∧ ran "g()" = .ok ["true"] ∧
      ran "\nx" = .error (.own (.parse [2] .unparsable "x")) ∧
      ran ("g()" ++ "\n" ++ "\nx") = .error (.own (.parse [3] .unparsable "x")) ∧
      ((Evaluator.checkScript ⟨nestedSession.registry, "", .top 256⟩ "g()").runIn
        nestedSession.state).1 = .ok 1 := by
  intro ran
  have hstate : nestedSession.MayBeIn nestedSession.state := ⟨_, .refl, rfl⟩
  have hreached := reached_nestedSession .free
  have hfirst : ran "g()" = .ok ["true"] := by
    show ((Evaluator.runScript _ _).runIn _).1 = _
    rw [isDeterministic_nestedSession.runScript_eq hreached hstate,
      show Evaluator.scriptLines "g()" = [(1, "g()")] from rfl, List.mapM_cons, evaluate_plainCall]
    rfl
  have hsecond : ran "\nx" = .error (.own (.parse [2] .unparsable "x")) := by
    have hparse : (nestedSession.registry.reader "").parse "x" .any = .error .unparsable := by
      rw [Reader.parse, Form.read_eq, show Outline.ofText (Text.trim "x".toList) = _ from rfl]
      rfl
    show ((Evaluator.runScript _ _).runIn _).1 = _
    rw [isDeterministic_nestedSession.runScript_eq hreached hstate,
      show Evaluator.scriptLines "\nx" = [(2, "x")] from rfl, List.mapM_cons, Evaluator.evaluate,
      Attempt.runIn_bind_of_error (Evaluator.runIn_read_of_error hparse)]
    rfl
  obtain ⟨happend, hchecked⟩ := scripts_compose nestedSession hreached "" (.top 256)
  obtain ⟨hboth, -⟩ := happend "g()" "\nx" _ _ _ .refl .refl .refl
  refine ⟨isDeterministic_nestedSession, hfirst, hsecond, ?_,
    (hchecked "g()" _ _ .refl .refl).1 _ hfirst⟩
  have hran : ran ("g()" ++ "\n" ++ "\nx") = joined 1 (· ++ ·) (ran "g()") (ran "\nx") :=
    hboth isDeterministic_nestedSession
  rw [hfirst, hsecond] at hran
  exact hran

end Session

end CallScript

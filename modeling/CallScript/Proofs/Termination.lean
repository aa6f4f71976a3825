import CallScript.Proofs.StaticTypes

/-!
# Reading, checking and evaluation end

A text may hold other texts: the items of a list, which are read with it, and the arguments of its
calls, which are only read when the call is bound. Evaluation may run functions, which have texts
of any length read, and evaluate them in turn. All this ends, and the reason is spread over three
places:

* an item of a list, or an argument of a call, is shorter than the text it is part of
  (`Form.length_item_lt`, `Reader.length_argument_lt`);
* the body of a function has less room in the chain of calls than the context it is called from
  (`Context.room_child_lt`);
* what a task begins comes below it in a well-founded order (`Task.Begins.descends`), which puts the
  room first, then the texts that are left unread, then the expression.

That something ends is said by a derivation, since a derivation is finite: `Form.Reads` for reading
and `Derives` for the rest. `Evaluator.reading_checking_and_evaluation_end` puts it all together.
-/

namespace CallScript

/-! ## Reading -/

/-- An item of a list is shorter than the text of the list. -/
theorem Form.length_item_lt {raw inner : List Char} {item : RawArgument}
    (houtline : Outline.ofText (Text.trim raw) = .group inner) (hitem : item ∈ tokenize inner) :
    item.text.length < raw.length := by
  have hinner := Outline.length_inner_ofText (Text.trim raw)
  have hpos : 0 < (Text.trim raw).length := Outline.length_pos_of_ofText (by simp [houtline])
  have htrim := Text.length_trim_le raw
  have hle := length_text_le_of_mem_tokenize hitem
  rw [houtline, Outline.inner] at hinner
  omega

/-- How the form of a text is found: its outline decides, and the items of a list are read in
turn. -/
inductive Form.Reads : List Char → Form → Prop where
  | unreadable {raw} (outline : Outline.ofText (Text.trim raw) = .unreadable) :
      Reads raw .unreadable
  | text {raw content} (outline : Outline.ofText (Text.trim raw) = .text content) :
      Reads raw (.text content)
  | boolean {raw value} (outline : Outline.ofText (Text.trim raw) = .boolean value) :
      Reads raw (.boolean value)
  | number {raw value} (outline : Outline.ofText (Text.trim raw) = .number value) :
      Reads raw (.number value)
  | reference {raw target} (outline : Outline.ofText (Text.trim raw) = .reference target) :
      Reads raw (.reference target)
  | call {raw name inner} (outline : Outline.ofText (Text.trim raw) = .call name inner) :
      Reads raw (.call name (tokenize inner))
  | named {raw inner} (outline : Outline.ofText (Text.trim raw) = .group inner)
      (named : (tokenize inner).any (fun item => item.name.isSome) = true) : Reads raw .unreadable
  | group {raw inner forms} (outline : Outline.ofText (Text.trim raw) = .group inner)
      (unnamed : ¬(tokenize inner).any (fun item => item.name.isSome) = true)
      (items : List.Forall₂ Reads ((tokenize inner).map fun item => item.text.toList) forms) :
      Reads raw (ofItems forms)

/-- Reading ends for every text. -/
theorem Form.reads_read (raw : List Char) : Reads raw (read raw) := by
  rw [read_eq]
  split
  · next h => exact .unreadable h
  · next h => exact .text h
  · next h => exact .boolean h
  · next h => exact .number h
  · next h => exact .reference h
  · next h => exact .call h
  · next inner h =>
    split
    · next hnamed => exact .named h hnamed
    · next hunnamed =>
      refine .group h hunnamed ?_
      rw [List.forall₂_map_left_iff, List.forall₂_map_right_iff, List.forall₂_same]
      intro item hitem
      have hlength := length_item_lt h hitem
      exact reads_read item.text.toList
termination_by raw.length

/-! ## Binding -/

/-- A call in a result position reaches no further than the expression. -/
theorem Expr.ResultCall.reach_le {e : Expr} {site : CallSite} {ty : Ty} {single : Bool}
    (h : e.ResultCall site ty single) : site.reach ≤ e.reach := by
  induction h with
  | call => exact Nat.le_refl _
  | @list items ty item site callTy single part result ih =>
    rw [reach]
    induction items with
    | nil => cases part
    | cons first items ih' =>
      rw [reachAll]
      rcases List.mem_cons.mp part with rfl | hpart
      · exact Nat.le_trans ih (Nat.le_max_left _ _)
      · exact Nat.le_trans (ih' hpart) (Nat.le_max_right _ _)
  | converted result ih => exact ih

/-- An argument of a call is shorter than the text that the call was read from. -/
theorem Reader.length_argument_lt {reader : Reader} {text : String} {target : Ty} {e : Expr}
    {site : CallSite} {ty : Ty} {single : Bool} {a : RawArgument}
    (hparse : reader.parse text target = .ok e) (hcall : e.ResultCall site ty single)
    (ha : a ∈ site.arguments) : a.text.length < text.length := by
  have htext := reach_parse_le hparse
  have hsite := hcall.reach_le
  have hlongest := length_text_le_longest ha
  rw [CallSite.reach] at hsite
  omega

/-- The expressions of a bound call are read from the texts of its arguments. -/
theorem Edition.exists_argument {edition : Edition} {site : CallSite} {bound : Bound site}
    (h : edition.bind site = .ok bound) {b : Binding} (hb : b ∈ bound.1) :
    ∃ a ∈ site.arguments, edition.reader.parse a.text b.parameter.ty = .ok b.expr :=
  exists_of_mem_bindArguments (bindArguments_of_bind h) hb

/-! ## Running functions -/

/-- A function that is called from a context runs in a fresh one, unless there is none. -/
theorem Registry.invoke_host (registry : Registry) (context : Context) (f : Function)
    (arguments : Bundle) :
    (registry.host context).invoke f arguments = (match context.child with
      | .error e => throw (.own e)
      | .ok child => do
        noteInvocation ⟨f, arguments, child.depth⟩
        (f.body arguments child).run registry
          (registry.hostBelow child.maxDepth (child.maxDepth - child.depth)) f.shared) := by
  show registry.invoke context.maxDepth (context.maxDepth - context.depth) f arguments = _
  unfold Context.child
  by_cases hdepth : context.depth < context.maxDepth
  · obtain ⟨room, hroom⟩ : ∃ room, context.maxDepth - context.depth = room + 1 :=
      ⟨context.maxDepth - context.depth - 1, by omega⟩
    have hchild : context.maxDepth - room = context.depth + 1 := by omega
    have hrest : context.maxDepth - (context.depth + 1) = room := by omega
    rw [if_pos hdepth, hroom, invoke, hchild]
    dsimp only
    rw [hrest]
    rfl
  · have hroom : context.maxDepth - context.depth = 0 := by omega
    rw [if_neg hdepth, hroom, invoke]

/-- A fresh context has less room below it. -/
theorem Context.room_child_lt {context child : Context} (h : context.child = .ok child) :
    child.maxDepth - child.depth < context.maxDepth - context.depth := by
  unfold Context.child at h
  split at h
  · next hdepth =>
    cases h
    show context.maxDepth - (context.depth + 1) < context.maxDepth - context.depth
    omega
  · cases h

/-! ## Everything ends -/

/-- Reading, checking and evaluation end, for every text, in every context and every state:

* a text has its form after finitely many steps, and the expression that it writes follows from it;
* checking and evaluating a text that can be read comes to a task, and every task has a derivation;
* the items of a list and the arguments of a call are shorter than the text they are part of, and
  nothing else is read when the call is bound;
* a function that is called from a context runs in a fresh one, which has less room below it;
* what a task begins comes below it in a well-founded order. -/
theorem Evaluator.reading_checking_and_evaluation_end (evaluator : Evaluator) :
    (∀ text, ∃ form, Form.Reads text.toList form ∧
      ∀ target, (evaluator.registry.reader evaluator.space).parse text target =
        (evaluator.registry.reader evaluator.space).type target form) ∧
    (∀ text state,
      match (evaluator.registry.reader evaluator.space).parse text .any with
      | .error failure =>
        (evaluator.check text).runIn state = (.error (.own (.parse [] failure text)), state) ∧
        (evaluator.evaluate text).runIn state = (.error (.own (.parse [] failure text)), state)
      | .ok e =>
        Derives evaluator.registry evaluator.context.maxDepth .free
          (.validate ⟨state.nextRoot, []⟩ e) { state with nextRoot := state.nextRoot + 1 }
          ((evaluator.check text).runIn state).1 ((evaluator.check text).runIn state).2 ∧
        Derives evaluator.registry evaluator.context.maxDepth .free
          (.eval (evaluator.context.maxDepth - evaluator.context.depth) evaluator.context.scope
            ⟨state.nextRoot, []⟩ e) { state with nextRoot := state.nextRoot + 1 }
          ((evaluator.evaluate text).runIn state).1 ((evaluator.evaluate text).runIn state).2) ∧
    (∀ {α : Type} (task : Task α) maxDepth,
      task.Derivable evaluator.registry maxDepth) ∧
    (∀ raw inner, Outline.ofText (Text.trim raw) = .group inner →
      ∀ item ∈ tokenize inner, item.text.length < raw.length) ∧
    (∀ (reader : Reader) text target e, reader.parse text target = .ok e →
      ∀ site ty single, e.ResultCall site ty single →
        (∀ a ∈ site.arguments, a.text.length < text.length) ∧
        ∀ (edition : Edition) bound, edition.bind site = .ok bound → ∀ b ∈ bound.1,
          ∃ a ∈ site.arguments, edition.reader.parse a.text b.parameter.ty = .ok b.expr) ∧
    (∀ context child : Context, context.child = .ok child →
      child.maxDepth - child.depth < context.maxDepth - context.depth ∧
      ∀ f arguments, (evaluator.registry.host context).invoke f arguments = do
        noteInvocation ⟨f, arguments, child.depth⟩
        (f.body arguments child).run evaluator.registry
          (evaluator.registry.hostBelow child.maxDepth (child.maxDepth - child.depth))
          f.shared) ∧
    (∀ {α β : Type} (task : Task α) (later : Task β) maxDepth,
      task.Begins evaluator.registry maxDepth later → Rank.Below later.rank task.rank) ∧
    WellFounded Rank.Below := by
  refine ⟨?_, ?_, ?_, ?_, ?_, ?_, ?_, Rank.wellFounded_below⟩
  · intro text
    exact ⟨_, Form.reads_read text.toList, fun _ => rfl⟩
  · intro text state
    cases hparse : (evaluator.registry.reader evaluator.space).parse text .any with
    | error failure =>
      dsimp only
      rw [check, evaluate, Attempt.runIn_bind_of_error (runIn_read_of_error hparse),
        Attempt.runIn_bind_of_error (runIn_read_of_error hparse)]
      exact ⟨rfl, rfl⟩
    | ok e =>
      dsimp only
      rw [check, evaluate, Attempt.runIn_bind_of_ok (runIn_read_of_ok hparse),
        Attempt.runIn_bind_of_ok (runIn_read_of_ok hparse)]
      exact ⟨derives .., derives ..⟩
  · intro α task maxDepth
    exact derives evaluator.registry maxDepth task
  · intro raw inner houtline item hitem
    exact Form.length_item_lt houtline hitem
  · intro reader text target e hparse site ty single hcall
    exact ⟨fun a ha => Reader.length_argument_lt hparse hcall ha,
      fun edition bound hbound b hb => edition.exists_argument hbound hb⟩
  · intro context child hchild
    refine ⟨Context.room_child_lt hchild, ?_⟩
    intro f arguments
    rw [Registry.invoke_host, hchild]
  · intro α β task later maxDepth hbegins
    exact hbegins.descends

/-- A list of a call in a call and a truth value, where there are the two functions. -/
theorem Evaluator.reading_checking_and_evaluation_end_nested :
    ∃ inner e ty single,
      Outline.ofText (Text.trim "(f(g()), true)".toList) = .group inner ∧
      (⟨none, "f(g())"⟩ ∈ tokenize inner ∧ "f(g())".length < "(f(g()), true)".length) ∧
      (Session.nestedSession.registry.reader "").parse "(f(g()), true)" .any = .ok e ∧
      (e.ResultCall nestedCall ty single ∧ ⟨none, "g()"⟩ ∈ nestedCall.arguments ∧
        "g()".length < "(f(g()), true)".length) ∧
      (∃ (edition : Edition) (bound : Bound nestedCall), edition.bind nestedCall = .ok bound ∧
        nestedBinding ∈ bound.1 ∧ ∃ a ∈ nestedCall.arguments,
          edition.reader.parse a.text nestedBinding.parameter.ty = .ok nestedBinding.expr) ∧
      ((Context.top 256).child = .ok ⟨Scope.empty, 1, 256⟩ ∧ 256 - 1 < 256 - 0) ∧
      ((Task.eval 256 Scope.empty ⟨0, []⟩ (.call nestedCall ty single)).Begins
          Session.nestedSession.registry 256 (.execute 256 Scope.empty "" ⟨0, []⟩ nestedCall) ∧
        Rank.Below (Task.execute 256 Scope.empty "" ⟨0, []⟩ nestedCall).rank
          (Task.eval 256 Scope.empty ⟨0, []⟩ (.call nestedCall ty single)).rank) := by
  obtain ⟨-, -, -, hitems, harguments, hframes, hbegins, -⟩ :=
    reading_checking_and_evaluation_end ⟨Session.nestedSession.registry, "", .top 256⟩
  have houtline : Outline.ofText (Text.trim "(f(g()), true)".toList) =
      .group "f(g()), true".toList := rfl
  have hcall : Form.read "f(g())".toList = .call "f" [⟨none, "g()"⟩] := by
    have hinner : Outline.ofText (Text.trim "f(g())".toList) = .call "f" "g()".toList := rfl
    rw [Form.read_eq, hinner]
    rfl
  have htrue : Form.read "true".toList = .boolean true := by
    have hinner : Outline.ofText (Text.trim "true".toList) = .boolean true := rfl
    rw [Form.read_eq, hinner]
  have htokens : tokenize "f(g()), true".toList = [⟨none, "f(g())"⟩, ⟨none, "true"⟩] := rfl
  have hread : Form.read "(f(g()), true)".toList =
      .list [.call "f" [⟨none, "g()"⟩], .boolean true] := by
    rw [Form.read_eq, houtline]
    simp only [htokens, List.map_cons, List.map_nil, hcall, htrue]
    rfl
  have hparse : (Session.nestedSession.registry.reader "").parse "(f(g()), true)" .any =
      .ok (.list [.call nestedCall .any true, .literal (.boolean true)] .any) := by
    rw [Reader.parse, hread]
    rfl
  have hresult : (Expr.list [.call nestedCall .any true, .literal (.boolean true)] .any).ResultCall
      nestedCall .any true := .list (List.mem_cons_self ..) .call
  obtain ⟨hshorter, hbound⟩ := harguments _ _ _ _ hparse _ _ _ hresult
  obtain ⟨bound, hbind, hnested⟩ := @Edition.exists_bind_nestedCall
    ⟨(Function.sink "f").signature, Session.nestedSession.registry.reader ""⟩ true rfl rfl rfl
  have hmem : nestedBinding ∈ bound.1 := by simp [hnested]
  have hitem : ⟨none, "f(g())"⟩ ∈ tokenize "f(g()), true".toList := List.mem_cons_self ..
  have hargument : ⟨none, "g()"⟩ ∈ nestedCall.arguments := List.mem_cons_self ..
  exact ⟨_, _, _, _, houtline, ⟨hitem, hitems _ _ houtline _ hitem⟩, hparse,
    ⟨hresult, hargument, hshorter _ hargument⟩,
    ⟨_, bound, hbind, hmem, hbound _ _ hbind _ hmem⟩,
    ⟨rfl, (hframes (.top 256) ⟨Scope.empty, 1, 256⟩ rfl).1⟩, .call, hbegins _ _ 256 .call⟩

end CallScript

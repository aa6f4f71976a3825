import CallScript.Proofs.Checking
import CallScript.Proofs.Layout

/-!
# The same run in two states

Two states may differ in what call sites remember, in the roots that are used, and in the runs that
were noted. None of this shows in the outcome of a run, as long as both states *conform* to a layout
(`State.Conforms`): what call sites remember is what they would find and bind now.

To say so, a task is compared with a *twin* of it, which may be about another root (`Task.Twin`):
evaluating an expression in one state, say, with evaluating a copy of it in the other. What is done
in one state is repeated in the other step by step, with the same outcome, and leaves two states that
conform to the layouts extended by what was read on the way (`Derives.repeats`).

Functions may draw random integers, so there are two ways to compare. If the two states have the
source of these in common, the comparison is *exact* and extends to the bodies of functions. If not,
it stops at the runs of functions and takes for granted that these end alike
(`Registry.RepeatsRuns`); this is so if what functions end with depends on their arguments and their
context alone (`Registry.IsDeterministic.repeatsRuns`).
-/

namespace CallScript

/-! ## States that conform to a layout -/

/-- A layout of all that can be got at: the state agrees with it, it leaves out what is not used
yet, and it covers the expressions that functions share between their runs. -/
structure State.Conforms (registry : Registry) (layout : Layout) (state : State) : Prop where
  agrees : state.AgreesWith registry layout
  unused : ∀ place, state.nextRoot ≤ place.root →
    layout place = none ∧ state.pins.get place = {}
  shared : ∀ f ∈ registry.functions, ∀ x ∈ f.shared,
    layout.Covers ⟨x.root, []⟩ (registry.callAt x.item)

namespace State.Conforms

variable {registry : Registry} {layout : Layout} {state after : State} {space : String}
  {place : Place} {site : CallSite}

/-- A change of what no call site remembers. -/
theorem of_eq (h : state.Conforms registry layout) (hpins : after.pins = state.pins)
    (hroot : after.nextRoot = state.nextRoot) : after.Conforms registry layout where
  agrees := h.agrees.of_pins fun place _ _ => by rw [hpins]
  unused place hplace := by
    rw [hpins]
    exact h.unused place (hroot ▸ hplace)
  shared := h.shared

/-- A call site may remember something else that agrees with its call. -/
theorem repinned (h : state.Conforms registry layout) (hplace : layout place = some (space, site))
    {pin : Pin} (hpin : state.Repinned place pin after) (hagrees : pin.Agrees registry space site) :
    after.Conforms registry layout where
  agrees := h.agrees.repinned hplace hpin hagrees
  unused other hother := by
    obtain ⟨hnone, hempty⟩ := h.unused other (hpin.nextRoot_eq ▸ hother)
    refine ⟨hnone, ?_⟩
    rw [hpin.pins_of_ne, hempty]
    rintro rfl
    rw [hnone] at hplace
    cases hplace
  shared := h.shared

/-- Whatever is read gets a root that is not used yet, and can be added to the layout there. -/
theorem freshRoot (h : state.Conforms registry layout)
    (calls : List Nat → Option (String × CallSite)) :
    layout.Extends (layout.add state.nextRoot calls) ∧
      State.Conforms registry (layout.add state.nextRoot calls)
        { state with nextRoot := state.nextRoot + 1 } := by
  have hextends : layout.Extends (layout.add state.nextRoot calls) :=
    Layout.extends_add fun place hroot => (h.unused place (Nat.le_of_eq hroot.symm)).1
  refine ⟨hextends, ?_, ?_, fun f hf x hx => (h.shared f hf x hx).mono hextends⟩
  · intro place space site hplace
    show (state.pins.get place).Agrees registry space site
    by_cases hroot : place.root = state.nextRoot
    · rw [(h.unused place (Nat.le_of_eq hroot.symm)).2]
      exact .empty ..
    · rw [Layout.add_of_ne hroot] at hplace
      exact h.agrees place space site hplace
  · intro place hplace
    rw [Layout.add_of_ne (Nat.ne_of_gt hplace)]
    exact h.unused place (Nat.le_of_succ_le hplace)

end State.Conforms

/-! ## The same task in two states -/

/-- Two states that conform to layouts of their own; if the match is to be exact, they also have the
source of random integers in common. -/
structure State.Alike (registry : Registry) (exact : Prop) (layout layout' : Layout)
    (state state' : State) : Prop where
  left : state.Conforms registry layout
  right : state'.Conforms registry layout'
  random : exact → state.random = state'.random

/-- Whether two rooted expressions are copies of one expression, each laid out at its own root. -/
structure Rooted.Copies (registry : Registry) (layout layout' : Layout) (x y : Rooted Expr) :
    Prop where
  item : y.item = x.item
  left : layout.Covers ⟨x.root, []⟩ (registry.callAt x.item)
  right : layout'.Covers ⟨y.root, []⟩ (registry.callAt x.item)

/-- The tasks that differ from a task only in the roots of the expressions they are about, where
these are laid out at both. Functions are run on both sides only if the match is to be exact. -/
def Task.Twin (registry : Registry) (exact : Prop) (layout layout' : Layout) :
    {α : Type} → Task α → Task α → Prop
  | _, eval room scope place e, other => ∃ place',
    layout.Covers place (registry.callAt e) ∧ layout'.Covers place' (registry.callAt e) ∧
      other = eval room scope place' e
  | _, evalEach room scope place index items, other => ∃ place',
    layout.CoversEach registry place index items ∧ layout'.CoversEach registry place' index items ∧
      other = evalEach room scope place' index items
  | _, execute room scope space place site, other => ∃ place',
    layout.Covers place (registry.siteAt space site) ∧
      layout'.Covers place' (registry.siteAt space site) ∧
      other = execute room scope space place' site
  | _, invoke room f arguments, other =>
    exact ∧ f ∈ registry.functions ∧ other = invoke room f arguments
  | _, @converse n room body exprs, other => ∃ exprs' : Vector (Rooted Expr) n,
    exact ∧ (∀ i (h : i < n), Rooted.Copies registry layout layout' exprs[i] exprs'[i]) ∧
      other = converse room body exprs'
  | _, validate place e, other => ∃ place',
    layout.Covers place (registry.callAt e) ∧ layout'.Covers place' (registry.callAt e) ∧
      other = validate place' e
  | _, validateEach place index items, other => ∃ place',
    layout.CoversEach registry place index items ∧ layout'.CoversEach registry place' index items ∧
      other = validateEach place' index items

/-- Whether a task ends in a state with a given outcome, and two states that were alike are alike
again afterwards. -/
def Task.Repeats {α : Type} (registry : Registry) (maxDepth : Nat) (exact : Prop)
    (layout layout' : Layout) (task : Task α) (state' : State) (outcome : Except Fault α)
    (after : State) : Prop :=
  ∃ newer newer' after', layout.Extends newer ∧ layout'.Extends newer' ∧
    State.Alike registry exact newer newer' after after' ∧
    Derives registry maxDepth .free task state' outcome after'

/-- Whether what a registered function ends with is the same in states that are alike. -/
def Registry.RepeatsRuns (registry : Registry) (maxDepth : Nat) (exact : Prop) : Prop :=
  ∀ f ∈ registry.functions, ∀ room arguments layout layout' state state' outcome after,
    State.Alike registry exact layout layout' state state' →
    Derives registry maxDepth .free (.invoke room f arguments) state outcome after →
    (Task.invoke room f arguments).Repeats registry maxDepth exact layout layout' state' outcome
      after

section

variable {registry : Registry} {maxDepth : Nat} {exact : Prop} {layout layout' : Layout}
  {state state' after : State} {space : String} {place place' : Place} {site : CallSite}

/-- A call that is prepared in one state is prepared alike in the other. -/
theorem State.Alike.prepare (h : State.Alike registry exact layout layout' state state')
    (hplace : layout place = some (space, site)) (hplace' : layout' place' = some (space, site))
    {found : Except Fault (Function × Bound site)}
    (hrun : (site.prepare registry space place).runIn state = (found, after)) :
    ∃ after', (site.prepare registry space place').runIn state' = (found, after') ∧
      State.Alike registry exact layout layout' after after' := by
  have hagrees := h.left.agrees place space site hplace
  have hagrees' := h.right.agrees place' space site hplace'
  obtain ⟨houtcome, hpin⟩ := runIn_prepare registry space place site state
  obtain ⟨houtcome', hpin'⟩ := runIn_prepare registry space place' site state'
  rw [hagrees'.prepare_fst, ← hagrees.prepare_fst, ← houtcome, hrun] at houtcome'
  rw [hrun] at hpin
  refine ⟨((site.prepare registry space place').runIn state').2, Prod.ext houtcome' rfl,
    h.left.repinned hplace hpin hagrees.prepare_snd,
    h.right.repinned hplace' hpin' hagrees'.prepare_snd, ?_⟩
  intro hexact
  exact hpin.random_eq.trans ((h.random hexact).trans hpin'.random_eq.symm)

theorem Rooted.Copies.mono {x y : Rooted Expr} (h : Rooted.Copies registry layout layout' x y)
    {newer newer' : Layout} (hextends : layout.Extends newer) (hextends' : layout'.Extends newer') :
    Rooted.Copies registry newer newer' x y :=
  ⟨h.item, h.left.mono hextends, h.right.mono hextends'⟩

namespace State.Alike

variable (h : State.Alike registry exact layout layout' state state')

include h

/-- What call sites remember does not change when runs are noted. -/
theorem noted (run : Invocation) :
    State.Alike registry exact layout layout' { state with history := run :: state.history }
      { state' with history := run :: state'.history } :=
  ⟨h.left.of_eq rfl rfl, h.right.of_eq rfl rfl, h.random⟩

/-- In states that have the source of random integers in common, the same one is drawn. -/
theorem drawn (hexact : exact) (least greatest : Int) :
    (state.drawn least greatest).1 = (state'.drawn least greatest).1 ∧
      State.Alike registry exact layout layout' (state.drawn least greatest).2
        (state'.drawn least greatest).2 := by
  have hrandom := h.random hexact
  have hconforms {layout : Layout} {state : State} (h : state.Conforms registry layout) :
      (state.drawn least greatest).2.Conforms registry layout := by
    obtain ⟨random, hdrawn⟩ := state.exists_random_of_drawn least greatest
    rw [hdrawn]
    exact h.of_eq rfl rfl
  refine ⟨?_, hconforms h.left, hconforms h.right, fun _ => ?_⟩
  · simp only [State.drawn, hrandom]
  · simp only [State.drawn, hrandom]

/-- What is read gets the next root on each side. -/
theorem freshRoot (e : Expr) :
    State.Alike registry exact (layout.add state.nextRoot (registry.callAt e))
      (layout'.add state'.nextRoot (registry.callAt e))
      { state with nextRoot := state.nextRoot + 1 }
      { state' with nextRoot := state'.nextRoot + 1 } :=
  ⟨(h.left.freshRoot _).2, (h.right.freshRoot _).2, h.random⟩

end State.Alike

namespace Task.Repeats

variable {α β : Type} {task : Task α} {other : Task β} {outcome : Except Fault α}
  {outcome' : Except Fault β}

/-- A task that ends as it begins. -/
theorem refl (h : State.Alike registry exact layout layout' state state')
    (hran : Derives registry maxDepth .free task state' outcome state') :
    task.Repeats registry maxDepth exact layout layout' state' outcome state :=
  ⟨layout, layout', state', .refl _, .refl _, h, hran⟩

/-- A task that ends as another one does. -/
theorem imp {start : State}
    (h : task.Repeats registry maxDepth exact layout layout' state' outcome after)
    (hran : ∀ {after'}, Derives registry maxDepth .free task state' outcome after' →
      Derives registry maxDepth .free other start outcome' after') :
    other.Repeats registry maxDepth exact layout layout' start outcome' after := by
  obtain ⟨newer, newer', after', hextends, hextends', hafter, htask⟩ := h
  exact ⟨newer, newer', after', hextends, hextends', hafter, hran htask⟩

/-- A task that goes on after another one. -/
theorem bind {middle start : State}
    (h : task.Repeats registry maxDepth exact layout layout' state' outcome middle)
    (hrest : ∀ {newer newer' middle'}, layout.Extends newer → layout'.Extends newer' →
      State.Alike registry exact newer newer' middle middle' →
      Derives registry maxDepth .free task state' outcome middle' →
      other.Repeats registry maxDepth exact newer newer' start outcome' after) :
    other.Repeats registry maxDepth exact layout layout' start outcome' after := by
  obtain ⟨newer, newer', middle', hextends, hextends', hmiddle, htask⟩ := h
  obtain ⟨last, last', after', hgrows, hgrows', hafter, hother⟩ :=
    hrest hextends hextends' hmiddle htask
  exact ⟨last, last', after', hextends.trans hgrows, hextends'.trans hgrows', hafter, hother⟩

end Task.Repeats

end

/-! ## Runs are repeated -/

/-- A task that is derived in one state is repeated in the other, where its twin is. -/
theorem Derives.repeats {registry : Registry} {maxDepth : Nat} {exact : Prop} {α : Type}
    {task : Task α} {state after : State} {outcome : Except Fault α}
    (h : Derives registry maxDepth .free task state outcome after)
    (hruns : task.IsCheck ∨ exact ∨ registry.RepeatsRuns maxDepth exact) {layout layout' : Layout}
    {state' : State} {other : Task α}
    (halike : State.Alike registry exact layout layout' state state')
    (htwin : task.Twin registry exact layout layout' other) :
    other.Repeats registry maxDepth exact layout layout' state' outcome after := by
  induction h generalizing layout layout' state' with
  | literal =>
    obtain ⟨_, -, -, rfl⟩ := htwin
    exact .refl halike .literal
  | template =>
    obtain ⟨_, -, -, rfl⟩ := htwin
    exact .refl halike .template
  | reference =>
    obtain ⟨_, -, -, rfl⟩ := htwin
    exact .refl halike .reference
  | list _ ih =>
    obtain ⟨_, hleft, hright, rfl⟩ := htwin
    exact (ih hruns halike ⟨_, hleft.items, hright.items, rfl⟩).imp .list
  | converted _ ih =>
    obtain ⟨_, hleft, hright, rfl⟩ := htwin
    exact (ih hruns halike ⟨_, hleft.converted, hright.converted, rfl⟩).imp .converted
  | call _ ih =>
    obtain ⟨_, hleft, hright, rfl⟩ := htwin
    exact (ih hruns halike ⟨_, hleft.call, hright.call, rfl⟩).imp .call
  | evalNil =>
    obtain ⟨_, -, -, rfl⟩ := htwin
    exact .refl halike .evalNil
  | evalFails _ ih =>
    obtain ⟨_, hleft, hright, rfl⟩ := htwin
    exact (ih hruns halike ⟨_, hleft.head, hright.head, rfl⟩).imp .evalFails
  | evalCons _ _ ih ih' =>
    obtain ⟨_, hleft, hright, rfl⟩ := htwin
    refine (ih hruns halike ⟨_, hleft.head, hright.head, rfl⟩).bind ?_
    intro newer newer' middle' hextends hextends' hmiddle hran
    exact (ih' hruns hmiddle
      ⟨_, hleft.tail.mono hextends, hright.tail.mono hextends', rfl⟩).imp (.evalCons hran)
  | unprepared prepared =>
    obtain ⟨_, hleft, hright, rfl⟩ := htwin
    obtain ⟨after', hprepared, hafter⟩ := halike.prepare hleft.here hright.here prepared
    exact ⟨layout, layout', after', .refl _, .refl _, hafter, .unprepared hprepared⟩
  | argumentFails prepared _ ih =>
    obtain ⟨_, hleft, hright, rfl⟩ := htwin
    obtain ⟨middle', hprepared, hmiddle⟩ := halike.prepare hleft.here hright.here prepared
    obtain ⟨hfresh, -⟩ := halike.left.agrees.prepared hleft.here prepared
    exact (ih hruns hmiddle ⟨_, hleft.arguments hfresh, hright.arguments hfresh, rfl⟩).imp
      (.argumentFails hprepared)
  | executed prepared _ _ invoked ih ih' =>
    obtain ⟨_, hleft, hright, rfl⟩ := htwin
    obtain ⟨middle', hprepared, hmiddle⟩ := halike.prepare hleft.here hright.here prepared
    obtain ⟨hfresh, hfound⟩ := halike.left.agrees.prepared hleft.here prepared
    refine (ih hruns hmiddle ⟨_, hleft.arguments hfresh, hright.arguments hfresh, rfl⟩).bind ?_
    intro newer newer' called' hextends hextends' hcalled hran
    -- Both sides have found the same function, and run it on the same arguments.
    have hf := Registry.mem_of_lookup hfound
    rcases hruns with hcheck | hexact | hrepeats
    · exact hcheck.elim
    · exact (ih' (.inr (.inl hexact)) hcalled ⟨hexact, hf, rfl⟩).imp
        (.executed hprepared hran trivial)
    · exact (hrepeats _ hf _ _ _ _ _ _ _ _ hcalled invoked).imp (.executed hprepared hran trivial)
  | noRoom =>
    obtain ⟨-, -, rfl⟩ := htwin
    exact .refl halike .noRoom
  | invoked _ _ ih =>
    obtain ⟨hexact, hf, rfl⟩ := htwin
    -- The body starts with the shared expressions, which are laid out on both sides.
    refine (ih (.inr (.inl hexact)) (halike.noted _) ⟨_, hexact, ?_, rfl⟩).imp
      fun hran => .invoked hran fun _ _ => trivial
    intro i hi
    exact ⟨rfl, halike.left.shared _ hf _ (Vector.getElem_mem hi),
      halike.right.shared _ hf _ (Vector.getElem_mem hi)⟩
  | done =>
    obtain ⟨_, -, -, rfl⟩ := htwin
    exact .refl halike .done
  | draw _ ih =>
    obtain ⟨_, hexact, hcopies, rfl⟩ := htwin
    obtain ⟨hsame, hdrawn⟩ := halike.drawn hexact _ _
    refine (ih (.inr (.inl hexact)) hdrawn ⟨_, hexact, hcopies, rfl⟩).imp fun hran => .draw ?_
    rwa [← hsame]
  | unread refused _ ih =>
    obtain ⟨_, hexact, hcopies, rfl⟩ := htwin
    exact (ih (.inr (.inl hexact)) halike ⟨_, hexact, hcopies, rfl⟩).imp (.unread refused)
  | @read _ _ _ _ _ e _ _ _ _ _ _ accepted _ ih =>
    obtain ⟨exprs', hexact, hcopies, rfl⟩ := htwin
    have hleft := (halike.left.freshRoot (registry.callAt e)).1
    have hright := (halike.right.freshRoot (registry.callAt e)).1
    obtain ⟨newer, newer', after', hextends, hextends', hafter, hran⟩ :=
      ih (.inr (.inl hexact)) (halike.freshRoot e)
        ⟨exprs'.push ⟨state'.nextRoot, e⟩, hexact, by
          intro i hi
          rw [Vector.getElem_push, Vector.getElem_push]
          split
          · next hold => exact (hcopies i hold).mono hleft hright
          · exact ⟨rfl, Layout.covers_add, Layout.covers_add⟩, rfl⟩
    exact ⟨newer, newer', after', hleft.trans hextends, hright.trans hextends', hafter,
      .read accepted hran⟩
  | tooDeep deep _ ih =>
    obtain ⟨_, hexact, hcopies, rfl⟩ := htwin
    exact (ih (.inr (.inl hexact)) halike ⟨_, hexact, hcopies, rfl⟩).imp (.tooDeep deep)
  | @evaluated _ _ _ _ _ _ _ _ index _ exprs enough _ _ ih ih' =>
    obtain ⟨exprs', hexact, hcopies, rfl⟩ := htwin
    have hcopy : Rooted.Copies registry layout layout' exprs[index] exprs'[index] :=
      hcopies index.1 index.2
    refine (ih (.inr (.inl hexact)) halike
      ⟨⟨exprs'[index].root, []⟩, hcopy.left, hcopy.right, rfl⟩).bind ?_
    intro newer newer' middle' hextends hextends' hmiddle hran
    rw [← hcopy.item] at hran
    exact (ih' (.inr (.inl hexact)) hmiddle
      ⟨_, hexact, fun i hi => (hcopies i hi).mono hextends hextends', rfl⟩).imp
        (.evaluated enough hran)
  | validLiteral =>
    obtain ⟨_, -, -, rfl⟩ := htwin
    exact .refl halike .validLiteral
  | validTemplate =>
    obtain ⟨_, -, -, rfl⟩ := htwin
    exact .refl halike .validTemplate
  | validReference =>
    obtain ⟨_, -, -, rfl⟩ := htwin
    exact .refl halike .validReference
  | validList _ ih =>
    obtain ⟨_, hleft, hright, rfl⟩ := htwin
    exact (ih hruns halike ⟨_, hleft.items, hright.items, rfl⟩).imp .validList
  | validConverted _ ih =>
    obtain ⟨_, hleft, hright, rfl⟩ := htwin
    exact (ih hruns halike ⟨_, hleft.converted, hright.converted, rfl⟩).imp .validConverted
  | invalidCall prepared =>
    obtain ⟨_, hleft, hright, rfl⟩ := htwin
    obtain ⟨after', hprepared, hafter⟩ := halike.prepare hleft.call.here hright.call.here prepared
    exact ⟨layout, layout', after', .refl _, .refl _, hafter, .invalidCall hprepared⟩
  | validCall prepared _ ih =>
    obtain ⟨_, hleft, hright, rfl⟩ := htwin
    obtain ⟨middle', hprepared, hmiddle⟩ := halike.prepare hleft.call.here hright.call.here prepared
    obtain ⟨hfresh, -⟩ := halike.left.agrees.prepared hleft.call.here prepared
    exact (ih hruns hmiddle
      ⟨_, hleft.call.arguments hfresh, hright.call.arguments hfresh, rfl⟩).imp
        (.validCall hprepared)
  | validNil =>
    obtain ⟨_, -, -, rfl⟩ := htwin
    exact .refl halike .validNil
  | validFails _ ih =>
    obtain ⟨_, hleft, hright, rfl⟩ := htwin
    exact (ih hruns halike ⟨_, hleft.head, hright.head, rfl⟩).imp .validFails
  | validCons _ _ ih ih' =>
    obtain ⟨_, hleft, hright, rfl⟩ := htwin
    refine (ih hruns halike ⟨_, hleft.head, hright.head, rfl⟩).bind ?_
    intro newer newer' middle' hextends hextends' hmiddle hran
    exact (ih' hruns hmiddle
      ⟨_, hleft.tail.mono hextends, hright.tail.mono hextends', rfl⟩).imp (.validCons hran)

section

variable {registry : Registry} {layout layout' : Layout} {state state' : State} {α : Type}

/-- Twins end alike in states that are alike. -/
theorem State.Alike.runIn_eq {maxDepth : Nat} {exact : Prop} {task other : Task α}
    (h : State.Alike registry exact layout layout' state state')
    (hruns : task.IsCheck ∨ exact ∨ registry.RepeatsRuns maxDepth exact)
    (htwin : task.Twin registry exact layout layout' other) :
    ((task.run registry maxDepth).runIn state).1 =
      ((other.run registry maxDepth).runIn state').1 := by
  obtain ⟨_, _, after', -, -, -, hran⟩ :=
    (derives registry maxDepth task state).repeats hruns h htwin
  rw [hran.runIn_eq]

/-- A run leaves a state that conforms to the layout and what was read on the way. -/
theorem State.Conforms.run (h : state.Conforms registry layout) {maxDepth : Nat} {task : Task α}
    (htask : task.Twin registry True layout layout task) :
    ∃ newer, layout.Extends newer ∧
      ((task.run registry maxDepth).runIn state).2.Conforms registry newer := by
  obtain ⟨newer, _, _, hextends, -, hafter, -⟩ :=
    (derives registry maxDepth task state).repeats (.inr (.inl trivial)) ⟨h, h, fun _ => rfl⟩ htask
  exact ⟨newer, hextends, hafter.left⟩

/-- Whether what the registered functions end with depends on their arguments and their context
alone: it is the same whatever random integers are drawn. What call sites remember is that of a
given state. -/
def Registry.IsDeterministic (registry : Registry) (state : State) : Prop :=
  ∀ f ∈ registry.functions, ∀ maxDepth room arguments random,
    ((registry.invoke maxDepth room f arguments).runIn { state with random }).1 =
      ((registry.invoke maxDepth room f arguments).runIn state).1

/-- What such a function ends with is the same in all states that are alike, whatever random
integers are drawn. -/
theorem Registry.IsDeterministic.repeatsRuns (h : registry.IsDeterministic state)
    (hconforms : state.Conforms registry layout) (maxDepth : Nat) :
    registry.RepeatsRuns maxDepth False := by
  intro f hf room arguments left right first second outcome after halike hran
  -- Each of the two states is compared with the given one, with its own source put there.
  have same {other : State} {otherLayout : Layout} (hother : other.Conforms registry otherLayout) :
      ∃ newer, otherLayout.Extends newer ∧
        ((registry.invoke maxDepth room f arguments).runIn other).2.Conforms registry newer ∧
        ((registry.invoke maxDepth room f arguments).runIn other).1 =
          ((registry.invoke maxDepth room f arguments).runIn state).1 := by
    have halike : State.Alike registry True otherLayout layout other
        { state with random := other.random } := ⟨hother, hconforms.of_eq rfl rfl, fun _ => rfl⟩
    have htwin : (Task.invoke room f arguments).Twin registry True otherLayout layout
        (.invoke room f arguments) := ⟨trivial, hf, rfl⟩
    obtain ⟨newer, _, _, hextends, -, hafter, hran'⟩ :=
      (derives registry maxDepth _ other).repeats (.inr (.inl trivial)) halike htwin
    refine ⟨newer, hextends, hafter.left, ?_⟩
    rw [← h f hf maxDepth room arguments other.random]
    exact (congrArg Prod.fst hran'.runIn_eq).symm
  obtain ⟨newer, hextends, hafter, houtcome⟩ := same halike.left
  obtain ⟨newer', hextends', hafter', houtcome'⟩ := same halike.right
  have hrun : (registry.invoke maxDepth room f arguments).runIn first = (outcome, after) :=
    hran.runIn_eq
  have hran' := derives registry maxDepth (.invoke room f arguments) second
  rw [hrun] at hafter houtcome
  have hsame : ((Task.run registry maxDepth (.invoke room f arguments)).runIn second).1 = outcome :=
    houtcome'.trans houtcome.symm
  rw [hsame] at hran'
  exact ⟨newer, newer', _, hextends, hextends', ⟨hafter, hafter', False.elim⟩, hran'⟩

end

end CallScript

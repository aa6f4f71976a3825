import CallScript.Proofs.ArgumentTypes
import CallScript.Proofs.Twins

/-!
# What call sites remember does not show

Call sites remember the function they call and how their arguments are bound, and this is filled
bit by bit: a call that fails to be prepared leaves it half full, an expression may have been checked
but never evaluated, and a call may be made again from inside the function that it runs. As long as
no function is registered any more, none of this can be seen from outside: a call ends as it would
at a call site that remembers nothing, and an expression is evaluated and checked as if it were read
just now (`Session.memory_does_not_show`).

The functions are registered first, and may share expressions and calls between their runs
(`Session.IsLoaded`); after that, `Session.Turn` says what may happen. The invariant is that the
state conforms to a layout that covers everything that was read and made (`Session.IsLaidOut`). Each
turn keeps it, because runs leave states that conform (`State.Conforms.run`); and where it holds, a
call or an expression and a copy of it are twins, which end alike.
-/

namespace CallScript

/-! ## What was read and made -/

namespace Session

/-- Roots tell apart what was read and made, and functions share nothing else. -/
structure IsIdentified (session : Session) : Prop where
  read : ∀ x ∈ session.read, ∀ y ∈ session.read, x.root = y.root → x = y
  sites : ∀ x ∈ session.sites, ∀ y ∈ session.sites, x.root = y.root → x = y
  apart : ∀ x ∈ session.read, ∀ site ∈ session.sites, x.root ≠ site.root
  shared : ∀ f ∈ session.registry.functions, ∀ x ∈ f.shared, session.Holds x

theorem IsIdentified.start : IsIdentified {} where
  read _ h := absurd h List.not_mem_nil
  sites _ h := absurd h List.not_mem_nil
  apart _ h := absurd h List.not_mem_nil
  shared _ h := absurd h List.not_mem_nil

/-- What is new has a root of its own. -/
theorem eq_of_root_cons {α : Type} {items : List (Rooted α)} {root : Nat} {item : α}
    (h : ∀ x ∈ items, ∀ y ∈ items, x.root = y.root → x = y) (hfresh : ∀ x ∈ items, x.root < root) :
    ∀ x ∈ ⟨root, item⟩ :: items, ∀ y ∈ ⟨root, item⟩ :: items, x.root = y.root → x = y := by
  intro x hx y hy hroot
  rcases List.mem_cons.mp hx with rfl | hx <;> rcases List.mem_cons.mp hy with rfl | hy
  · rfl
  · exact absurd hroot.symm (Nat.ne_of_lt (hfresh y hy))
  · exact absurd hroot (Nat.ne_of_lt (hfresh x hx))
  · exact h x hx y hy hroot

theorem IsIdentified.step {law : Law} {session after : Session} (h : session.IsIdentified)
    (hrooted : session.IsRooted) (hstep : Step law session after) : after.IsIdentified := by
  cases hstep with
  | register shared =>
    refine ⟨h.read, h.sites, h.apart, ?_⟩
    intro f hf
    rcases Registry.mem_register hf with rfl | hf
    · exact shared
    · exact h.shared f hf
  | @parse _ _ _ _ x _ accepted =>
    obtain ⟨-, hroot, rfl⟩ := of_runIn_parse accepted
    obtain ⟨root, e⟩ := x
    obtain rfl : root = session.state.nextRoot := hroot
    refine ⟨eq_of_root_cons h.read hrooted.read, h.sites, ?_, ?_⟩
    · intro x hx site hsite
      rcases List.mem_cons.mp hx with rfl | hx
      · exact Nat.ne_of_gt (hrooted.sites site hsite)
      · exact h.apart x hx site hsite
    · intro f hf x hx
      exact (h.shared f hf x hx).imp_left (List.mem_cons_of_mem _)
  | make site =>
    refine ⟨h.read, eq_of_root_cons h.sites hrooted.sites, ?_, ?_⟩
    · intro x hx other hother
      rcases List.mem_cons.mp hother with rfl | hother
      · exact Nat.ne_of_lt (hrooted.read x hx)
      · exact h.apart x hx other hother
    · intro f hf x hx
      refine (h.shared f hf x hx).imp_right ?_
      rintro ⟨other, hother, single, rfl⟩
      exact ⟨other, List.mem_cons_of_mem _ hother, single, rfl⟩
  | resolve | prepare | execute | validate | evaluate | reseed =>
    exact ⟨h.read, h.sites, h.apart, h.shared⟩

theorem Reached.isIdentified {law : Law} {session : Session} (h : Reached law session) :
    session.IsIdentified := by
  induction h with
  | refl => exact .start
  | tail hreached hstep ih => exact ih.step (Reached.isRooted hreached) hstep

/-- Everything is registered and no call site remembers anything. The calls that functions share are
written in the space in which their arguments will be read. -/
structure IsLoaded (space : String) (session : Session) : Prop where
  reached : Reached .free session
  unused : ∀ place, session.state.pins.get place = {}
  shared : ∀ f ∈ session.registry.functions, ∀ site ∈ session.sites, ∀ single,
    ⟨site.root, .call site.item .any single⟩ ∈ f.shared → site.item.space = space

/-- What may happen once everything is registered: texts are read, calls are made, and what was read
or made is resolved, prepared, executed, checked or evaluated, in any context, with the arguments of
the calls that were made read in one space. Random integers may come from another source. -/
inductive Turn (space : String) (session : Session) : Session → Prop where
  | parse {space' context text target x after}
      (accepted : (Evaluator.parse ⟨session.registry, space', context⟩ text target).runIn
        session.state = (.ok x, after)) :
      Turn space session { session with state := after, read := x :: session.read }
  | make (site : CallSite) :
      Turn space session
        { session with
          state := { session.state with nextRoot := session.state.nextRoot + 1 }
          sites := ⟨session.state.nextRoot, site⟩ :: session.sites }
  | resolve {site} (context : Context) (known : site ∈ session.sites) :
      Turn space session (session.moved
        ((Evaluator.resolve ⟨session.registry, space, context⟩ site).runIn session.state).2)
  | prepare {site} (context : Context) (known : site ∈ session.sites) :
      Turn space session (session.moved
        ((Evaluator.prepare ⟨session.registry, space, context⟩ site).runIn session.state).2)
  | execute {site} (context : Context) (known : site ∈ session.sites) :
      Turn space session (session.moved
        ((Evaluator.execute ⟨session.registry, space, context⟩ site).runIn session.state).2)
  | validate {x} (context : Context) (known : x ∈ session.read) :
      Turn space session (session.moved
        ((Evaluator.validate ⟨session.registry, space, context⟩ x).runIn session.state).2)
  | evaluate {x} (context : Context) (known : x ∈ session.read) :
      Turn space session (session.moved
        ((Evaluator.eval ⟨session.registry, space, context⟩ x).runIn session.state).2)
  | reseed (random : RandomSource) :
      Turn space session (session.moved { session.state with random })

/-- The state conforms to a layout that covers what was read and made. -/
structure IsLaidOut (space : String) (layout : Layout) (session : Session) : Prop where
  conforms : session.state.Conforms session.registry layout
  read : ∀ x ∈ session.read, layout.Covers ⟨x.root, []⟩ (session.registry.callAt x.item)
  sites : ∀ site ∈ session.sites,
    layout.Covers ⟨site.root, []⟩ (session.registry.siteAt space site.item)

/-- The layout of what was read and made, and of nothing else. -/
def layout (space : String) (session : Session) : Layout := fun place =>
  match session.read.find? fun x => x.root = place.root with
  | some x => session.registry.callAt x.item place.path.reverse
  | none =>
    (session.sites.find? fun site => site.root = place.root).bind fun site =>
      session.registry.siteAt space site.item place.path.reverse

/-- What is at hand is found under its root. -/
theorem find?_root {α : Type} {items : List (Rooted α)} {x : Rooted α} (hx : x ∈ items)
    (h : ∀ y ∈ items, x.root = y.root → x = y) :
    (items.find? fun y => y.root = x.root) = some x := by
  cases hfind : items.find? fun y => y.root = x.root with
  | none => exact absurd (List.find?_eq_none.mp hfind x hx) (by simp)
  | some y =>
    have hroot : y.root = x.root := by simpa using List.find?_some hfind
    rw [h y (List.mem_of_find?_eq_some hfind) hroot.symm]

theorem find?_eq_none_of_lt {α : Type} {items : List (Rooted α)} {bound root : Nat}
    (h : ∀ x ∈ items, x.root < bound) (hroot : bound ≤ root) :
    (items.find? fun x => x.root = root) = none := by
  refine List.find?_eq_none.mpr fun x hx => ?_
  have hne : x.root ≠ root := Nat.ne_of_lt (Nat.lt_of_lt_of_le (h x hx) hroot)
  simpa using hne

section

variable {space : String} {session after : Session}

theorem covers_read (h : session.IsIdentified) {x : Rooted Expr} (hx : x ∈ session.read) :
    (session.layout space).Covers ⟨x.root, []⟩ (session.registry.callAt x.item) := by
  intro path call hcall
  simp only [layout, find?_root hx (h.read x hx), List.append_nil, List.reverse_reverse]
  exact hcall

theorem covers_site (h : session.IsIdentified) {site : Rooted CallSite}
    (hsite : site ∈ session.sites) :
    (session.layout space).Covers ⟨site.root, []⟩ (session.registry.siteAt space site.item) := by
  intro path call hcall
  have hnone : (session.read.find? fun x => x.root = site.root) = none :=
    List.find?_eq_none.mpr fun x hx => by simpa using h.apart x hx site hsite
  simp only [layout, hnone, find?_root hsite (h.sites site hsite), Option.bind_some,
    List.append_nil, List.reverse_reverse]
  exact hcall

/-- At first, the layout is that of what was read and made. -/
theorem IsLoaded.isLaidOut (h : session.IsLoaded space) :
    session.IsLaidOut space (session.layout space) := by
  have hrooted := h.reached.isRooted
  have hidentified := h.reached.isIdentified
  refine ⟨⟨?_, ?_, ?_⟩, fun x => covers_read hidentified, fun site => covers_site hidentified⟩
  · intro place space site _
    rw [h.unused]
    exact .empty ..
  · intro place hplace
    refine ⟨?_, h.unused place⟩
    -- Nothing that was read or made has a root that is not used yet.
    have hread : (session.read.find? fun x => x.root = place.root) = none :=
      find?_eq_none_of_lt hrooted.read hplace
    have hsites : (session.sites.find? fun site => site.root = place.root) = none :=
      find?_eq_none_of_lt hrooted.sites hplace
    simp only [layout, hread, hsites, Option.bind_none]
  · intro f hf x hx
    rcases hidentified.shared f hf x hx with hread | ⟨site, hsite, single, rfl⟩
    · exact covers_read hidentified hread
    · rw [Registry.callAt_call, h.shared f hf site hsite single hx]
      exact covers_site hidentified hsite

end

end Session

/-! ## Turns -/

namespace Session

section

variable {space : String} {layout newer : Layout} {session after : Session}

namespace IsLaidOut

theorem moved (h : session.IsLaidOut space layout) (hextends : layout.Extends newer) {state : State}
    (hconforms : state.Conforms session.registry newer) :
    (session.moved state).IsLaidOut space newer where
  conforms := hconforms
  read x hx := (h.read x hx).mono hextends
  sites site hsite := (h.sites site hsite).mono hextends

/-- A run of what is laid out leaves a state that conforms, with what was read on the way added to
the layout. -/
theorem run (h : session.IsLaidOut space layout) {maxDepth : Nat} {α : Type} {task : Task α}
    (htask : task.Twin session.registry True layout layout task) :
    ∃ newer, layout.Extends newer ∧ (session.moved
      ((task.run session.registry maxDepth).runIn session.state).2).IsLaidOut space newer := by
  obtain ⟨newer, hextends, hconforms⟩ := h.conforms.run htask
  exact ⟨newer, hextends, h.moved hextends hconforms⟩

theorem turn (h : session.IsLaidOut space layout) (hturn : Turn space session after) :
    after.registry = session.registry ∧
      ∃ newer, layout.Extends newer ∧ after.IsLaidOut space newer := by
  cases hturn with
  | @parse _ _ _ _ x _ accepted =>
    obtain ⟨-, hroot, rfl⟩ := of_runIn_parse accepted
    obtain ⟨root, e⟩ := x
    obtain rfl : root = session.state.nextRoot := hroot
    obtain ⟨hextends, hconforms⟩ := h.conforms.freshRoot (session.registry.callAt e)
    refine ⟨rfl, _, hextends, hconforms, ?_, fun site hsite => (h.sites site hsite).mono hextends⟩
    intro x hx
    rcases List.mem_cons.mp hx with rfl | hx
    · exact Layout.covers_add
    · exact (h.read x hx).mono hextends
  | make site =>
    obtain ⟨hextends, hconforms⟩ := h.conforms.freshRoot (session.registry.siteAt space site)
    refine ⟨rfl, _, hextends, hconforms, fun x hx => (h.read x hx).mono hextends, ?_⟩
    intro other hother
    rcases List.mem_cons.mp hother with rfl | hother
    · exact Layout.covers_add
    · exact (h.sites other hother).mono hextends
  | @resolve site context known =>
    have hplace := (h.sites site known).here
    refine ⟨rfl, layout, .refl _, h.moved (.refl _) ?_⟩
    rcases of_runIn_resolve ⟨session.registry, space, context⟩ site session.state with
      hnone | ⟨f, hfound, hpin⟩
    · rw [hnone]
      exact h.conforms
    · exact h.conforms.repinned hplace hpin ((h.conforms.agrees _ _ _ hplace).resolved hfound)
  | @prepare site context known =>
    have hplace := (h.sites site known).here
    refine ⟨rfl, layout, .refl _, h.moved (.refl _) ?_⟩
    exact h.conforms.repinned hplace
      (of_runIn_prepare ⟨session.registry, space, context⟩ site session.state)
      (h.conforms.agrees _ _ _ hplace).prepare_snd
  | @execute site context known =>
    have hcovers := h.sites site known
    rw [execute_eq_run]
    exact ⟨rfl, h.run ⟨_, hcovers, hcovers, rfl⟩⟩
  | @validate x context known =>
    have hcovers := h.read x known
    rw [validate_eq_run _ _ 0]
    exact ⟨rfl, h.run ⟨_, hcovers, hcovers, rfl⟩⟩
  | @evaluate x context known =>
    have hcovers := h.read x known
    rw [eval_eq_run]
    exact ⟨rfl, h.run ⟨_, hcovers, hcovers, rfl⟩⟩
  | reseed => exact ⟨rfl, layout, .refl _, h.moved (.refl _) (h.conforms.of_eq rfl rfl)⟩

theorem turns (h : session.IsLaidOut space layout)
    (hturns : Relation.ReflTransGen (Turn space) session after) :
    after.registry = session.registry ∧
      ∃ newer, layout.Extends newer ∧ after.IsLaidOut space newer := by
  induction hturns with
  | refl => exact ⟨rfl, layout, .refl _, h⟩
  | tail _ hturn ih =>
    obtain ⟨hregistry, newer, hextends, hlaid⟩ := ih
    obtain ⟨hsame, last, hgrows, hafter⟩ := hlaid.turn hturn
    exact ⟨hsame.trans hregistry, last, hextends.trans hgrows, hafter⟩

end IsLaidOut

end

/-- What call sites remember does not show in what executing, evaluating and checking end with, in
any session that can be reached once everything is registered:

* a call that was made ends as one does that was made just now, of the same name and arguments;
* an expression that was read is evaluated and checked as if it were read just now;
* whatever happens afterwards, checking an expression ends as before. So do evaluating it and
  executing a call, if what functions end with depends on their arguments and context alone. -/
theorem memory_does_not_show (space : String) (start session : Session)
    (hstart : start.IsLoaded space) (hsession : Relation.ReflTransGen (Turn space) start session) :
    let evaluator (context : Context) : Evaluator := ⟨start.registry, space, context⟩
    let root := session.state.nextRoot
    let fresh := { session.state with nextRoot := root + 1 }
    (∀ site ∈ session.sites, ∀ context,
      (((evaluator context).execute site).runIn session.state).1 =
        (((evaluator context).execute ⟨root, site.item⟩).runIn fresh).1) ∧
    (∀ x ∈ session.read, ∀ context,
      (((evaluator context).eval x).runIn session.state).1 =
          (((evaluator context).eval ⟨root, x.item⟩).runIn fresh).1 ∧
        (((evaluator context).validate x).runIn session.state).1 =
          (((evaluator context).validate ⟨root, x.item⟩).runIn fresh).1) ∧
    ∀ later, Relation.ReflTransGen (Turn space) session later →
      (∀ x ∈ session.read, ∀ context,
        (((evaluator context).validate x).runIn later.state).1 =
          (((evaluator context).validate x).runIn session.state).1) ∧
      (start.registry.IsDeterministic session.state →
        (∀ x ∈ session.read, ∀ context,
          (((evaluator context).eval x).runIn later.state).1 =
            (((evaluator context).eval x).runIn session.state).1) ∧
        ∀ site ∈ session.sites, ∀ context,
          (((evaluator context).execute site).runIn later.state).1 =
            (((evaluator context).execute site).runIn session.state).1) := by
  obtain ⟨hregistry, layout, -, hlaid⟩ := hstart.isLaidOut.turns hsession
  rw [← hregistry]
  intro evaluator root fresh
  -- A fresh copy is laid out at the next root, beside everything else.
  have hcopy (calls : List Nat → Option (String × CallSite)) :
      State.Alike session.registry True layout (layout.add root calls) session.state fresh :=
    ⟨hlaid.conforms, (hlaid.conforms.freshRoot calls).2, fun _ => rfl⟩
  refine ⟨?_, ?_, ?_⟩
  · intro site hsite context
    rw [execute_eq_run, execute_eq_run]
    exact (hcopy (session.registry.siteAt space site.item)).runIn_eq (.inr (.inl trivial))
      ⟨⟨root, []⟩, hlaid.sites site hsite, Layout.covers_add, rfl⟩
  · intro x hx context
    have hcopy := hcopy (session.registry.callAt x.item)
    have hcovers := hlaid.read x hx
    constructor
    · rw [eval_eq_run, eval_eq_run]
      exact hcopy.runIn_eq (.inr (.inl trivial)) ⟨⟨root, []⟩, hcovers, Layout.covers_add, rfl⟩
    · rw [validate_eq_run _ _ 0, validate_eq_run _ _ 0]
      exact hcopy.runIn_eq (.inl trivial) ⟨⟨root, []⟩, hcovers, Layout.covers_add, rfl⟩
  · intro later hlater
    obtain ⟨hsame, newer, hextends, hafter⟩ := hlaid.turns hlater
    have halike : State.Alike session.registry False newer layout later.state session.state :=
      ⟨hsame ▸ hafter.conforms, hlaid.conforms, False.elim⟩
    refine ⟨?_, ?_⟩
    · intro x hx context
      have hcovers := hlaid.read x hx
      rw [validate_eq_run _ _ 0]
      exact halike.runIn_eq (.inl trivial) ⟨_, hcovers.mono hextends, hcovers, rfl⟩
    · intro hdeterministic
      have hruns (maxDepth : Nat) := hdeterministic.repeatsRuns hlaid.conforms maxDepth
      constructor
      · intro x hx context
        have hcovers := hlaid.read x hx
        rw [eval_eq_run]
        exact halike.runIn_eq (.inr (.inr (hruns _))) ⟨_, hcovers.mono hextends, hcovers, rfl⟩
      · intro site hsite context
        have hcovers := hlaid.sites site hsite
        rw [execute_eq_run]
        exact halike.runIn_eq (.inr (.inr (hruns _))) ⟨_, hcovers.mono hextends, hcovers, rfl⟩

end Session

/-! ## A call that is made again from inside -/

/-- The call that is written `g()`. -/
def plainCall : CallSite := ⟨"", "g", []⟩

/-- A function that makes the call again that it was called by, and returns a truth value however
that ends. -/
def Function.again : Function where
  signature := ⟨"", "g", [], some .boolean, true⟩
  sharedCount := 1
  shared := #v[⟨0, .call plainCall .any true⟩]
  body _ _ := .evaluate ⟨0, Scope.empty⟩ 0 fun _ => .done (.ok [.boolean true])

section

variable (registry : Registry) (maxDepth room : Nat) (arguments : Bundle)

/-- The call that the function makes again ends in some way, and then the function goes on. -/
theorem exists_derives_again (state : State) :
    ∃ after, Derives registry maxDepth .free (.invoke (room + 1) .again arguments) state
      (.ok [.boolean true]) after :=
  ⟨_, .invoked (.evaluated (Nat.zero_le _) (derives ..) .done) fun _ _ => trivial⟩

theorem again_ends_alike (state other : State) :
    ((registry.invoke maxDepth room .again arguments).runIn state).1 =
      ((registry.invoke maxDepth room .again arguments).runIn other).1 := by
  cases room with
  | zero =>
    have hran (state : State) :=
      (@Derives.noRoom registry maxDepth .free .again arguments state).runIn_eq
    exact (congrArg Prod.fst (hran state)).trans (congrArg Prod.fst (hran other)).symm
  | succ room =>
    obtain ⟨_, hran⟩ := exists_derives_again registry maxDepth room arguments state
    obtain ⟨_, hran'⟩ := exists_derives_again registry maxDepth room arguments other
    exact (congrArg Prod.fst hran.runIn_eq).trans (congrArg Prod.fst hran'.runIn_eq).symm

end

namespace Session

/-- A session in which the call was made, and then the function registered that makes it again. -/
def againSession : Session where
  registry := ({} : Registry).register .again
  state := { nextRoot := 1 }
  sites := [⟨0, plainCall⟩]

theorem isLoaded_againSession : againSession.IsLoaded "" where
  reached := by
    have hmade : Reached .free _ := Relation.ReflTransGen.refl.tail (.make plainCall)
    refine hmade.tail (.register (f := .again) ?_)
    intro x hx
    have hshared : x ∈ #v[(⟨0, .call plainCall .any true⟩ : Rooted Expr)] := hx
    obtain rfl : x = ⟨0, .call plainCall .any true⟩ := by simpa using hshared
    exact .inr ⟨⟨0, plainCall⟩, List.mem_singleton_self _, true, rfl⟩
  unused place := Pins.get_empty place
  shared f hf site hsite single _ := by
    rw [List.mem_singleton.mp hsite]
    rfl

theorem isDeterministic_againSession (state : State) :
    againSession.registry.IsDeterministic state := by
  intro f hf maxDepth room arguments random
  obtain rfl : f = .again := by simpa [againSession, Registry.register] using hf
  exact again_ends_alike ..

/-- The text `g()` is read, and the call is executed, which makes it again from inside. Its memory
is filled then. Executing it ends as at a call site that remembers nothing, and evaluating and
checking the text end as they did before. -/
theorem memory_does_not_show_again :
    let evaluator : Evaluator := ⟨againSession.registry, "", .top 256⟩
    let site : Rooted CallSite := ⟨0, plainCall⟩
    let x : Rooted Expr := ⟨1, .call plainCall .boolean true⟩
    againSession.IsLoaded "" ∧ ∃ session later,
      Relation.ReflTransGen (Turn "") againSession session ∧ site ∈ session.sites ∧
      x ∈ session.read ∧ Relation.ReflTransGen (Turn "") session later ∧
      (later.state.pins.get ⟨0, []⟩).callee = some .again ∧
      ((evaluator.execute site).runIn later.state).1 = .ok (some (.single (.boolean true))) ∧
      ((evaluator.execute ⟨later.state.nextRoot, plainCall⟩).runIn
        { later.state with nextRoot := later.state.nextRoot + 1 }).1 =
          .ok (some (.single (.boolean true))) ∧
      ((evaluator.eval x).runIn later.state).1 = ((evaluator.eval x).runIn session.state).1 ∧
      ((evaluator.validate x).runIn later.state).1 =
        ((evaluator.validate x).runIn session.state).1 := by
  intro evaluator site x
  have hparse : (againSession.registry.reader "").parse "g()" .any = .ok x.item := by
    rw [Reader.parse, Form.read_nested]
    rfl
  have hparsed : (evaluator.parse "g()" .any).runIn againSession.state =
      (.ok x, { nextRoot := 2 }) := by
    rw [Evaluator.parse, hparse]
    rfl
  have hparses : Turn "" againSession _ := .parse hparsed
  have hsession := Relation.ReflTransGen.single hparses
  have hsite : site ∈ againSession.sites := List.mem_singleton_self _
  have hexecutes : Turn "" { againSession with state := { nextRoot := 2 }, read := [x] } _ :=
    .execute (.top 256) hsite
  have hlater := Relation.ReflTransGen.single hexecutes
  obtain ⟨after, hran, hcallee⟩ : ∃ after, Derives againSession.registry 256 .free
      (.execute (255 + 1) Scope.empty "" ⟨0, []⟩ plainCall) { nextRoot := 2 }
        (.ok (some (.single (.boolean true)))) after ∧
      (after.pins.get ⟨0, []⟩).callee = some .again :=
    exists_derives_plainCall [.boolean true] (Pins.get_empty _) rfl rfl (fun _ => trivial)
      (exists_derives_again againSession.registry 256 255)
  have hrun : (evaluator.execute site).runIn { nextRoot := 2 } =
    (.ok (some (.single (.boolean true))), after) := hran.runIn_eq
  -- The outcomes after the execution are those before it.
  obtain ⟨-, -, hsame⟩ := memory_does_not_show "" _ _ isLoaded_againSession hsession
  obtain ⟨hvalidate, hdeterministic⟩ := hsame _ hlater
  obtain ⟨heval, hexecute⟩ := hdeterministic (isDeterministic_againSession _)
  obtain ⟨hfresh, -⟩ := memory_does_not_show "" _ _ isLoaded_againSession (hsession.trans hlater)
  have hvalue := (hexecute site hsite (.top 256)).trans (congrArg Prod.fst hrun)
  have hx : x ∈ [x] := List.mem_singleton_self _
  refine ⟨isLoaded_againSession, _, _, hsession, hsite, hx, hlater, ?_, hvalue,
    (hfresh site hsite (.top 256)).symm.trans hvalue, heval x hx (.top 256),
    hvalidate x hx (.top 256)⟩
  show (((evaluator.execute site).runIn { nextRoot := 2 }).2.pins.get ⟨0, []⟩).callee = _
  rw [hrun]
  exact hcallee

end Session

end CallScript

import CallScript.Proofs.Derivation

/-!
# What an evaluation leaves alone

An evaluation only adds to the state (`Derives.extends`): what a call site remembers it remembers
for good, roots are used up and never given back, and the history grows at its front.

Beyond that, it touches only the memory of expressions it can get at: the one it evaluates, those
that functions share between their runs, and those it reads itself. `Derives.confined` says so for
any set of roots and any set of functions that are closed in this sense. Two of its uses are below.
A state is *settled* if nothing in it knows of a root that is not used yet, neither a call site nor
a function; this is so at first and stays so (`Derives.settled`). And an expression that was just
read keeps its memory to itself while functions run (`Derives.frame`).
-/

namespace CallScript

/-- What a state keeps of an earlier one. -/
structure State.Extends (state after : State) : Prop where
  nextRoot : state.nextRoot ≤ after.nextRoot
  callee : ∀ place f, (state.pins.get place).callee = some f →
    (after.pins.get place).callee = some f
  edition : ∀ place edition, (state.pins.get place).edition = some edition →
    (after.pins.get place).edition = some edition
  history : state.history <:+ after.history

namespace State.Extends

variable {state middle after : State}

theorem refl (state : State) : state.Extends state :=
  ⟨Nat.le_refl _, fun _ _ h => h, fun _ _ h => h, List.suffix_refl _⟩

theorem trans (h : state.Extends middle) (h' : middle.Extends after) : state.Extends after where
  nextRoot := Nat.le_trans h.nextRoot h'.nextRoot
  callee place f hf := h'.callee place f (h.callee place f hf)
  edition place edition he := h'.edition place edition (h.edition place edition he)
  history := h.history.trans h'.history

/-- Preparing a call fills what is not filled yet. -/
theorem of_prepare {registry : Registry} {space : String} {place : Place} {site : CallSite}
    {outcome : Except Fault (Function × Bound site)}
    (h : (site.prepare registry space place).runIn state = (outcome, after)) :
    state.Extends after := by
  obtain ⟨-, hpin⟩ := runIn_prepare registry space place site state
  rw [h] at hpin
  refine ⟨Nat.le_of_eq hpin.nextRoot_eq.symm, ?_, ?_, hpin.history_eq ▸ List.suffix_refl _⟩
  · intro other f hf
    rw [hpin.pins]
    split
    · next hother => rw [Pin.callee_prepare, hother, hf, Option.some_or]
    · exact hf
  · intro other edition he
    rw [hpin.pins]
    split
    · next hother =>
      subst hother
      cases hpure : ((state.pins.get place).prepare registry space site).1 with
      | error cause => rw [Pin.edition_prepare_of_error hpure, he]
      | ok prepared => rw [Pin.edition_prepare_of_ok hpure, he, Option.getD_some]
    · exact he

end State.Extends

variable {registry : Registry} {maxDepth : Nat} {law : Law} {α : Type} {task : Task α}
  {state after : State} {outcome : Except Fault α}

/-- An evaluation only adds to the state. -/
theorem Derives.extends (h : Derives registry maxDepth law task state outcome after) :
    state.Extends after := by
  induction h with
  | literal | template | reference | evalNil | noRoom | done => exact .refl _
  | validLiteral | validTemplate | validReference | validNil => exact .refl _
  | list _ ih | converted _ ih | call _ ih | evalFails _ ih => exact ih
  | unread _ _ ih | tooDeep _ _ ih => exact ih
  | validList _ ih | validConverted _ ih | validFails _ ih => exact ih
  | evalCons _ _ ih ih' | evaluated _ _ _ ih ih' | validCons _ _ ih ih' => exact ih.trans ih'
  | unprepared prepared | invalidCall prepared => exact .of_prepare prepared
  | argumentFails prepared _ ih | validCall prepared _ ih =>
    exact (State.Extends.of_prepare prepared).trans ih
  | executed prepared _ _ _ ih ih' => exact ((State.Extends.of_prepare prepared).trans ih).trans ih'
  | invoked _ _ ih =>
    refine State.Extends.trans ?_ ih
    exact ⟨Nat.le_refl _, fun _ _ h => h, fun _ _ h => h, List.suffix_cons _ _⟩
  | draw _ ih =>
    -- Only the source of random integers is changed.
    obtain ⟨random, hdrawn⟩ := State.exists_random_of_drawn _ _ _
    rw [hdrawn] at ih
    refine State.Extends.trans ?_ ih
    exact ⟨Nat.le_refl _, fun _ _ h => h, fun _ _ h => h, List.suffix_refl _⟩
  | read _ _ ih =>
    refine State.Extends.trans ?_ ih
    exact ⟨Nat.le_succ _, fun _ _ h => h, fun _ _ h => h, List.suffix_refl _⟩

/-! ## What can be got at -/

/-- Whether a task starts from known functions and from allowed roots. -/
def Task.Within (known : Function → Prop) (allowed : Nat → Prop) : {α : Type} → Task α → Prop
  | _, eval _ _ place _ => allowed place.root
  | _, evalEach _ _ place _ _ => allowed place.root
  | _, execute _ _ _ place _ => allowed place.root
  | _, invoke _ f _ => known f
  | _, converse _ _ exprs => ∀ x ∈ exprs, allowed x.root
  | _, validate place _ => allowed place.root
  | _, validateEach place _ _ => allowed place.root

theorem Task.Within.mono {known known' : Function → Prop} {allowed allowed' : Nat → Prop}
    (hknown : ∀ f, known f → known' f) (hallowed : ∀ root, allowed root → allowed' root)
    (h : task.Within known allowed) : task.Within known' allowed' := by
  cases task with
  | eval | evalEach | execute | validate | validateEach => exact hallowed _ h
  | invoke => exact hknown _ h
  | converse => exact fun x hx => hallowed _ (h x hx)

/-- Every function that a call site remembers is known. -/
def State.Recalls (state : State) (known : Function → Prop) : Prop :=
  ∀ place f, (state.pins.get place).callee = some f → known f

theorem Registry.mem_of_lookup {name space : String} {f : Function}
    (h : registry.lookup name space = some f) : f ∈ registry.functions := by
  rw [lookup] at h
  split at h
  · next hown =>
    cases h
    exact List.mem_of_find?_eq_some hown
  · exact List.mem_of_find?_eq_some h

/-- A function that is recalled or looked up is known. -/
theorem known_of_found {known : Function → Prop} {place : Place} {site : CallSite} {f : Function}
    (hregistry : ∀ f ∈ registry.functions, known f) (hrecalls : state.Recalls known)
    (h : (state.pins.get place).callee.or (registry.lookup site.name site.space) = some f) :
    known f := by
  cases hcallee : (state.pins.get place).callee with
  | some g =>
    rw [hcallee, Option.some_or] at h
    cases h
    exact hrecalls place _ hcallee
  | none =>
    rw [hcallee, Option.none_or] at h
    exact hregistry f (Registry.mem_of_lookup h)

/-- Preparing a call recalls or looks up a function, and changes no other call site. -/
theorem recalls_of_prepare {known : Function → Prop} {space : String} {place : Place}
    {site : CallSite} {found : Except Fault (Function × Bound site)}
    (hregistry : ∀ f ∈ registry.functions, known f) (hrecalls : state.Recalls known)
    (h : (site.prepare registry space place).runIn state = (found, after)) :
    after.Recalls known ∧ ∀ other, place ≠ other → after.pins.get other = state.pins.get other := by
  obtain ⟨-, hpin⟩ := runIn_prepare registry space place site state
  rw [h] at hpin
  refine ⟨?_, fun other hother => hpin.pins_of_ne hother⟩
  intro other f hf
  rw [hpin.pins] at hf
  split at hf
  · rw [Pin.callee_prepare] at hf
    exact known_of_found hregistry hrecalls hf
  · exact hrecalls other f hf

/-- The function that a prepared call turns out to call is known. -/
theorem known_of_prepare {known : Function → Prop} {space : String} {place : Place}
    {site : CallSite} {f : Function} {bound : Bound site}
    (hregistry : ∀ f ∈ registry.functions, known f) (hrecalls : state.Recalls known)
    (h : (site.prepare registry space place).runIn state = (.ok (f, bound), after)) : known f := by
  obtain ⟨hpure, -⟩ := prepare_of_runIn_ok h
  exact known_of_found hregistry hrecalls (Pin.prepare_eq_ok.mp hpure).1

/-- An evaluation that starts from known functions and allowed roots recalls known functions only,
and leaves alone what is kept under any other root. -/
theorem Derives.confined {known : Function → Prop} {allowed : Nat → Prop}
    (h : Derives registry maxDepth law task state outcome after)
    (hregistry : ∀ f ∈ registry.functions, known f)
    (hshared : ∀ f, known f → ∀ x ∈ f.shared, allowed x.root)
    (hfresh : ∀ root, state.nextRoot ≤ root → root < after.nextRoot → allowed root)
    (hrecalls : state.Recalls known) (htask : task.Within known allowed) :
    after.Recalls known ∧
      ∀ place, ¬allowed place.root → after.pins.get place = state.pins.get place := by
  -- Preparing a call at an allowed place, for the four rules that do it.
  have prepared {space place site} {found : Except Fault (Function × Bound site)} {state middle}
      (hprepared : (site.prepare registry space place).runIn state = (found, middle))
      (hrecalls : state.Recalls known) (hplace : allowed place.root) :
      middle.Recalls known ∧
        ∀ other, ¬allowed other.root → middle.pins.get other = state.pins.get other := by
    obtain ⟨hmiddle, hother⟩ := recalls_of_prepare hregistry hrecalls hprepared
    exact ⟨hmiddle, fun other hallowed => hother other fun e => hallowed (e ▸ hplace)⟩
  induction h with
  | literal | template | reference | evalNil | noRoom | done => exact ⟨hrecalls, fun _ _ => rfl⟩
  | validLiteral | validTemplate | validReference | validNil => exact ⟨hrecalls, fun _ _ => rfl⟩
  | list _ ih | converted _ ih | call _ ih | evalFails _ ih => exact ih hfresh hrecalls htask
  | validList _ ih | validConverted _ ih | validFails _ ih => exact ih hfresh hrecalls htask
  | unread _ _ ih | tooDeep _ _ ih => exact ih hfresh hrecalls htask
  | unprepared hprepared | invalidCall hprepared => exact prepared hprepared hrecalls htask
  | evalCons head rest ih ih' | validCons head rest ih ih' =>
    have hhead := head.extends.nextRoot
    have hrest := rest.extends.nextRoot
    obtain ⟨hmiddle, hpins⟩ := ih (fun root h h' => hfresh root h (Nat.lt_of_lt_of_le h' hrest))
      hrecalls htask
    obtain ⟨hafter, hpins'⟩ := ih' (fun root h => hfresh root (Nat.le_trans hhead h)) hmiddle htask
    exact ⟨hafter, fun place hplace => (hpins' place hplace).trans (hpins place hplace)⟩
  | argumentFails hprepared _ ih | validCall hprepared _ ih =>
    have hstart := (State.Extends.of_prepare hprepared).nextRoot
    obtain ⟨hmiddle, hpins⟩ := prepared hprepared hrecalls htask
    obtain ⟨hafter, hpins'⟩ := ih (fun root h => hfresh root (Nat.le_trans hstart h)) hmiddle htask
    exact ⟨hafter, fun place hplace => (hpins' place hplace).trans (hpins place hplace)⟩
  | executed hprepared arguments _ invoked ih ih' =>
    have hstart := (State.Extends.of_prepare hprepared).nextRoot
    have hbound := arguments.extends.nextRoot
    have hrun := invoked.extends.nextRoot
    obtain ⟨hmiddle, hpins⟩ := prepared hprepared hrecalls htask
    -- The function that was found is known, and so may be run.
    obtain ⟨hcalled, hpins'⟩ := ih
      (fun root h h' => hfresh root (Nat.le_trans hstart h) (Nat.lt_of_lt_of_le h' hrun))
      hmiddle htask
    obtain ⟨hafter, hpins''⟩ := ih'
      (fun root h => hfresh root (Nat.le_trans hstart (Nat.le_trans hbound h))) hcalled
      (known_of_prepare hregistry hrecalls hprepared)
    refine ⟨hafter, ?_⟩
    intro place hplace
    rw [hpins'' place hplace, hpins' place hplace, hpins place hplace]
  | invoked _ _ ih =>
    -- A body starts with the shared expressions at hand, and a known function shares allowed ones.
    obtain ⟨hafter, hpins⟩ := ih hfresh hrecalls (hshared _ htask)
    exact ⟨hafter, hpins⟩
  | draw _ ih =>
    obtain ⟨random, hdrawn⟩ := State.exists_random_of_drawn _ _ _
    rw [hdrawn] at ih
    obtain ⟨hafter, hpins⟩ := ih hfresh hrecalls htask
    exact ⟨hafter, hpins⟩
  | read _ rest ih =>
    -- The root of what is read now is used up on the way, so it is allowed.
    have hrest := rest.extends.nextRoot
    obtain ⟨hafter, hpins⟩ := ih (fun root h => hfresh root (Nat.le_of_succ_le h)) hrecalls
      fun x hx => by
        rcases Vector.mem_push.mp hx with hx | rfl
        · exact htask x hx
        · exact hfresh _ (Nat.le_refl _) hrest
    exact ⟨hafter, hpins⟩
  | evaluated _ answered rest ih ih' =>
    have hanswer := answered.extends.nextRoot
    have hrest := rest.extends.nextRoot
    obtain ⟨hmiddle, hpins⟩ := ih (fun root h h' => hfresh root h (Nat.lt_of_lt_of_le h' hrest))
      hrecalls (htask _ (Vector.getElem_mem _))
    obtain ⟨hafter, hpins'⟩ :=
      ih' (fun root h => hfresh root (Nat.le_trans hanswer h)) hmiddle htask
    exact ⟨hafter, fun place hplace => (hpins' place hplace).trans (hpins place hplace)⟩

/-- Whether the expressions that a function shares between its runs have roots below a bound. -/
def Function.SharesBelow (bound : Nat) (f : Function) : Prop := ∀ x ∈ f.shared, x.root < bound

/-- Nothing knows of a root that is not used yet. -/
structure State.Settled (registry : Registry) (state : State) : Prop where
  unused : ∀ place, state.nextRoot ≤ place.root → state.pins.get place = {}
  registered : ∀ f ∈ registry.functions, f.SharesBelow state.nextRoot
  recalled : state.Recalls (Function.SharesBelow state.nextRoot)

theorem Function.SharesBelow.mono {bound bound' : Nat} {f : Function} (h : f.SharesBelow bound)
    (hle : bound ≤ bound') : f.SharesBelow bound' := fun x hx => Nat.lt_of_lt_of_le (h x hx) hle

/-- At first nothing is remembered, and no functions are registered. -/
theorem State.Settled.start : State.Settled {} {} where
  unused place _ := Pins.get_empty place
  registered f hf := absurd hf List.not_mem_nil
  recalled place f hf := by
    rw [Pins.get_empty] at hf
    cases hf

/-- Using up roots leaves a settled state settled. -/
theorem State.Settled.freshRoot (h : state.Settled registry) :
    State.Settled registry { state with nextRoot := state.nextRoot + 1 } where
  unused place hplace := h.unused place (Nat.le_of_succ_le hplace)
  registered f hf := (h.registered f hf).mono (Nat.le_succ _)
  recalled place f hf := (h.recalled place f hf).mono (Nat.le_succ _)

/-- A function may be registered that shares expressions which were read before. -/
theorem State.Settled.register (h : state.Settled registry) {f : Function}
    (hf : f.SharesBelow state.nextRoot) : state.Settled (registry.register f) where
  unused := h.unused
  registered g hg := by
    rcases Registry.mem_register hg with rfl | hg
    · exact hf
    · exact h.registered g hg
  recalled := h.recalled

/-- A call site may remember another function that was registered. -/
theorem State.Settled.repinned (h : state.Settled registry) {place : Place} {pin : Pin}
    (hpin : state.Repinned place pin after) (hplace : place.root < state.nextRoot)
    (hcallee : ∀ f, pin.callee = some f → f.SharesBelow state.nextRoot) :
    after.Settled registry where
  unused other hother := by
    rw [hpin.nextRoot_eq] at hother
    rw [hpin.pins_of_ne fun e => by rw [e] at hplace; omega]
    exact h.unused other hother
  registered f hf := by
    rw [hpin.nextRoot_eq]
    exact h.registered f hf
  recalled other f hf := by
    rw [hpin.nextRoot_eq]
    rw [hpin.pins] at hf
    split at hf
    · exact hcallee f hf
    · exact h.recalled other f hf

/-- An evaluation of what is there leaves a settled state settled. -/
theorem Derives.settled (h : Derives registry maxDepth law task state outcome after)
    (hsettled : state.Settled registry)
    (htask : task.Within (Function.SharesBelow state.nextRoot) (· < state.nextRoot)) :
    after.Settled registry := by
  have hgrows := h.extends.nextRoot
  have hwithin : task.Within (Function.SharesBelow state.nextRoot) (· < after.nextRoot) :=
    htask.mono (fun _ hf => hf) fun _ hroot => Nat.lt_of_lt_of_le hroot hgrows
  obtain ⟨hrecalls, hpins⟩ := h.confined hsettled.registered (fun f hf x hx => hf.mono hgrows x hx)
    (fun _ _ hroot => hroot) hsettled.recalled hwithin
  refine ⟨?_, fun f hf => (hsettled.registered f hf).mono hgrows,
    fun place f hf => (hrecalls place f hf).mono hgrows⟩
  -- What is not used afterwards was not used before, and nothing has got at it.
  intro place hplace
  rw [hpins place (Nat.not_lt_of_le hplace)]
  exact hsettled.unused place (Nat.le_trans hgrows hplace)

/-- While functions run, an expression that none of them can get at keeps its memory to itself. -/
theorem Derives.frame {root : Nat} (h : Derives registry maxDepth law task state outcome after)
    (hregistry : ∀ f ∈ registry.functions, ∀ x ∈ f.shared, x.root ≠ root)
    (hroot : root < state.nextRoot)
    (hrecalls : state.Recalls fun f => ∀ x ∈ f.shared, x.root ≠ root)
    (htask : task.Within (fun f => ∀ x ∈ f.shared, x.root ≠ root) (· ≠ root)) {place : Place}
    (hplace : place.root = root) : after.pins.get place = state.pins.get place :=
  (h.confined hregistry (fun _ hf => hf) (fun _ hused _ => by omega) hrecalls htask).2 place
    (not_not_intro hplace)

end CallScript

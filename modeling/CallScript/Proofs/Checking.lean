import Mathlib.Data.List.TakeWhile
import CallScript.Evaluator
import CallScript.Proofs.Frame

/-!
# Checking foretells what evaluation finds

Checking a text prepares every call in it and runs nothing; evaluating it prepares the same calls,
but values have to be converted and functions run in between, and that may fail as well. Both go
through the calls in one order, a call before its arguments and these from left to right. The order
and what is found at each call follow from the expression and the registry alone
(`Registry.visits`), and both computations are read off that list:

* checking stops at the first call that cannot be prepared, and fails with its error;
* evaluation prepares the same calls up to where it ends. So if a call of the text fails it, it is
  that one; otherwise it has failed before it came that far.

Both are instances of one notion, `Follows`, and of one induction, `Derives.follows`. What
evaluation does between two calls of the text cannot disturb it, because no function gets at an
expression that was only just read (`Derives.frame`). The result is `check_foretells_evaluate`.
-/

namespace CallScript

/-! ## How tasks fail -/

/-- Whether a fault shows only when something is run. -/
def Fault.IsRuntime : Fault → Prop
  | .own (.conversion _ _) => True
  | .own (.recursionLimit _) => True
  | .own _ => False
  | .ofBody _ => True

/-- Whether a fault is that of a call that cannot be prepared. -/
def Fault.IsCall (fault : Fault) : Prop := ∃ callee cause, fault = .own (.call callee cause)

theorem Fault.not_isRuntime_of_isCall {fault : Fault} (h : fault.IsCall) : ¬fault.IsRuntime := by
  obtain ⟨callee, cause, rfl⟩ := h
  exact id

/-- The ways in which a task may fail. -/
def Task.MayFail : {α : Type} → Task α → Fault → Prop
  | _, eval _ _ _ _, fault => fault.IsRuntime ∨ fault.IsCall
  | _, evalEach _ _ _ _ _, fault => fault.IsRuntime ∨ fault.IsCall
  | _, execute _ _ _ _ _, fault => fault.IsRuntime ∨ fault.IsCall
  | _, invoke _ _ _, fault => fault.IsRuntime
  | _, converse _ _ _, fault => fault.IsRuntime
  | _, validate _ _, fault => fault.IsCall
  | _, validateEach _ _ _, fault => fault.IsCall

theorem isRuntime_of_convertAll {target : Ty} {values : List Value} {fault : Fault}
    (h : convertAll target values = .error fault) : fault.IsRuntime := by
  obtain ⟨_, -, -, rfl⟩ := exists_of_convertAll_eq_error h
  trivial

variable {registry : Registry} {maxDepth : Nat} {law : Law} {α : Type} {task : Task α}
  {state after : State} {outcome : Except Fault α}

theorem Derives.mayFail (h : Derives registry maxDepth law task state outcome after)
    {fault : Fault} (hfault : outcome = .error fault) : task.MayFail fault := by
  induction h generalizing fault with
  | literal | template | reference | evalNil => cases hfault
  | validLiteral | validTemplate | validReference | validNil => cases hfault
  | list _ ih | call _ ih => exact ih (eq_error_of_map hfault)
  | evalCons _ _ _ ih => exact ih (eq_error_of_map hfault)
  | executed _ _ _ _ _ ih =>
    -- What fails inside the function is an error of its body, also if it is that of a call there.
    exact .inl (ih (eq_error_of_map hfault))
  | converted _ ih =>
    rcases error_of_bind_eq_error hfault with hpart | ⟨values, -, hconvert⟩
    · exact ih hpart
    · exact .inl (isRuntime_of_convertAll hconvert)
  | unprepared prepared =>
    cases hfault
    obtain ⟨cause, -, rfl, -⟩ := prepare_of_runIn_error prepared
    exact .inr ⟨_, cause, rfl⟩
  | noRoom => cases hfault; trivial
  | done =>
    obtain ⟨e, -, rfl⟩ := exists_of_mapError_eq_error hfault
    trivial
  | evalFails _ ih | argumentFails _ _ ih => cases hfault; exact ih rfl
  | invoked _ _ ih | draw _ ih | unread _ _ ih | read _ _ ih | tooDeep _ _ ih => exact ih hfault
  | evaluated _ _ _ _ ih => exact ih hfault
  | validList _ ih | validConverted _ ih | validCall _ _ ih => exact ih hfault
  | invalidCall prepared =>
    cases hfault
    obtain ⟨cause, -, rfl, -⟩ := prepare_of_runIn_error prepared
    exact ⟨_, cause, rfl⟩
  | validFails _ ih => cases hfault; exact ih rfl
  | validCons _ _ _ ih => exact ih hfault

/-! ## The calls in an expression -/

/-- A call in an expression: where it is, and the error if it cannot be prepared. -/
structure Visit where
  place : Place
  failure : Option Error

/-- Whether the call can be prepared. -/
def Visit.succeeds (visit : Visit) : Bool := visit.failure.isNone

mutual

/-- The calls in an expression, a call before its arguments. What is behind a call that cannot be
prepared is not known. -/
def Registry.visits (registry : Registry) (place : Place) : Expr → List Visit
  | .list items _ => registry.visitsEach place 0 items
  | .converted inner _ => registry.visits place inner
  | .call site _ _ =>
    match (({} : Pin).prepare registry site.space site).1 with
    | .error cause => [⟨place, some (.call site.name cause)⟩]
    | .ok (_, ⟨bindings, _⟩) =>
      ⟨place, none⟩ :: registry.visitsEach place 0 (bindings.map Binding.expr)
  | _ => []
termination_by e => (e.reach, sizeOf e)

/-- The calls in some expressions, the parts of the one at `place` from `index` on. -/
def Registry.visitsEach (registry : Registry) (place : Place) (index : Nat) :
    List Expr → List Visit
  | [] => []
  | item :: items =>
    registry.visits (place.child index) item ++ registry.visitsEach place (index + 1) items
termination_by items => (Expr.reachAll items, sizeOf items)
decreasing_by
  · exact descends (Nat.le_max_left _ _) (by simp only [List.cons.sizeOf_spec]; omega)
  · exact descends (Nat.le_max_right _ _) (by simp only [List.cons.sizeOf_spec]; omega)

end

/-- The error of the first call that cannot be prepared. -/
def firstFailure (visits : List Visit) : Option Error := visits.findSome? Visit.failure

/-- Preparing the calls of `visits` in order and nothing else, a computation ended after those in
`done`. If it succeeded these are all. If a call failed it, that was the first one that cannot be
prepared. -/
structure Follows {α : Type} (visits done : List Visit) (outcome : Except Fault α) : Prop where
  start : done <+: visits.takeWhile Visit.succeeds
  finish : ∀ a, outcome = .ok a → done = visits
  failed : ∀ callee cause, outcome = .error (.own (.call callee cause)) →
    done = visits.takeWhile Visit.succeeds ∧ firstFailure visits = some (.call callee cause)

theorem firstFailure_eq_none {visits : List Visit} :
    firstFailure visits = none ↔ visits.takeWhile Visit.succeeds = visits := by
  rw [firstFailure, List.findSome?_eq_none_iff, List.takeWhile_eq_self_iff]
  simp only [Visit.succeeds, Option.isNone_iff_eq_none]

/-- The first call that cannot be prepared comes after those that can. -/
theorem exists_of_firstFailure {visits : List Visit} {error : Error}
    (h : firstFailure visits = some error) :
    ∃ failing later, visits = visits.takeWhile Visit.succeeds ++ failing :: later ∧
      failing.failure = some error := by
  induction visits with
  | nil => cases h
  | cons visit visits ih =>
    rw [firstFailure, List.findSome?_cons] at h
    cases hfailure : visit.failure with
    | some error' =>
      rw [hfailure] at h
      cases h
      exact ⟨visit, visits, by simp [Visit.succeeds, hfailure], hfailure⟩
    | none =>
      rw [hfailure] at h
      obtain ⟨failing, later, hvisits, hfailing⟩ := ih h
      refine ⟨failing, later, ?_, hfailing⟩
      rw [List.takeWhile_cons_of_pos (by simp [Visit.succeeds, hfailure]), List.cons_append,
        ← hvisits]

theorem takeWhile_append_of_failure {visits : List Visit} (later : List Visit)
    (h : firstFailure visits ≠ none) :
    (visits ++ later).takeWhile Visit.succeeds = visits.takeWhile Visit.succeeds := by
  rw [List.takeWhile_append, if_neg]
  intro hlength
  exact h (firstFailure_eq_none.mpr
    ((List.takeWhile_prefix _).eq_of_length hlength))

namespace Follows

variable {α β : Type} {visits done later done' : List Visit} {outcome : Except Fault α}

/-- All of the calls can be prepared if the computation succeeds. -/
theorem takeWhile_eq {a : α} (h : Follows visits done (.ok a)) :
    visits.takeWhile Visit.succeeds = visits := by
  have hstart := h.start
  rw [h.finish a rfl] at hstart
  exact (List.takeWhile_prefix _).eq_of_length
    (Nat.le_antisymm (List.takeWhile_prefix _).length_le hstart.length_le)

/-- A computation that succeeds has met no call that cannot be prepared. -/
theorem firstFailure_of_ok {a : α} (h : Follows visits done outcome) (hok : outcome = .ok a) :
    firstFailure visits = none := by
  subst hok
  exact firstFailure_eq_none.mpr h.takeWhile_eq

/-- A computation that fails because of calls only fails at the first that cannot be prepared. -/
theorem eq_error_of_firstFailure {callee : String} {cause : BindError}
    (h : Follows visits done outcome) (hfirst : firstFailure visits = some (.call callee cause))
    (hcall : ∀ fault, outcome = .error fault → fault.IsCall) :
    outcome = .error (.own (.call callee cause)) := by
  cases outcome with
  | ok a => rw [h.firstFailure_of_ok rfl] at hfirst; cases hfirst
  | error fault =>
    obtain ⟨callee', cause', rfl⟩ := hcall fault rfl
    obtain ⟨-, hfirst'⟩ := h.failed callee' cause' rfl
    rw [hfirst] at hfirst'
    cases hfirst'
    rfl

/-- A computation that meets a call that cannot be prepared fails there, or at run time before. -/
theorem exists_of_firstFailure {callee : String} {cause : BindError}
    (h : Follows visits done outcome) (hfirst : firstFailure visits = some (.call callee cause))
    (hfails : ∀ fault, outcome = .error fault → fault.IsRuntime ∨ fault.IsCall) :
    ∃ fault, outcome = .error fault ∧
      (fault = .own (.call callee cause) ∧ done = visits.takeWhile Visit.succeeds ∨
        fault.IsRuntime ∧ done <+: visits.takeWhile Visit.succeeds) := by
  cases outcome with
  | ok a => rw [h.firstFailure_of_ok rfl] at hfirst; cases hfirst
  | error fault =>
    refine ⟨fault, rfl, ?_⟩
    rcases hfails fault rfl with hruntime | ⟨callee', cause', rfl⟩
    · exact .inr ⟨hruntime, h.start⟩
    · obtain ⟨hdone, hfirst'⟩ := h.failed callee' cause' rfl
      rw [hfirst] at hfirst'
      cases hfirst'
      exact .inl ⟨rfl, hdone⟩

/-- Nothing is to be done, and nothing fails. -/
theorem nil (a : α) : Follows [] [] (.ok a) :=
  ⟨List.prefix_refl _, fun _ _ => rfl, fun _ _ h => by cases h⟩

theorem map (h : Follows visits done outcome) (f : α → β) :
    Follows visits done (outcome.map f) where
  start := h.start
  finish b hb := by
    obtain ⟨a, ha, -⟩ := exists_of_map_eq_ok hb
    exact h.finish a ha
  failed callee cause hfault := h.failed callee cause (eq_error_of_map hfault)

/-- An error keeps its meaning where another kind of result was wanted. -/
theorem of_error {fault : Fault} (h : Follows visits done (.error fault : Except Fault α)) :
    Follows visits done (.error fault : Except Fault β) where
  start := h.start
  finish _ hb := by cases hb
  failed callee cause hfault := by
    cases hfault
    exact h.failed callee cause rfl

theorem bind (h : Follows visits done outcome) {f : α → Except Fault β}
    (hf : ∀ a fault, f a = .error fault → fault.IsRuntime) :
    Follows visits done (outcome.bind f) where
  start := h.start
  finish b hb := by
    obtain ⟨a, ha, -⟩ := exists_of_bind_eq_ok hb
    exact h.finish a ha
  failed callee cause hfault := by
    rcases error_of_bind_eq_error hfault with hfault | ⟨a, -, hfault⟩
    · exact h.failed callee cause hfault
    · exact absurd (hf a _ hfault) id

/-- After the calls, something else may fail the computation. -/
theorem of_ok {a : α} (h : Follows visits done (.ok a)) {outcome : Except Fault β}
    (hother : ∀ callee cause, outcome ≠ .error (.own (.call callee cause))) :
    Follows visits done outcome where
  start := h.start
  finish _ _ := h.finish a rfl
  failed callee cause hfault := absurd hfault (hother callee cause)

/-- A computation that ends within the first calls does not come to the later ones. -/
theorem append_of_error {fault : Fault} (h : Follows visits done (.error fault : Except Fault α))
    (later : List Visit) : Follows (visits ++ later) done (.error fault : Except Fault β) where
  start := by
    obtain ⟨rest, hrest⟩ := h.start
    by_cases hfailure : firstFailure visits = none
    · -- Something else has failed, and the first calls can all be prepared.
      rw [List.takeWhile_append, if_pos (by rw [firstFailure_eq_none.mp hfailure])]
      rw [firstFailure_eq_none.mp hfailure] at hrest
      exact ⟨rest ++ later.takeWhile Visit.succeeds, by rw [← List.append_assoc, hrest]⟩
    · rw [takeWhile_append_of_failure later hfailure]
      exact h.start
  finish _ h := by cases h
  failed callee cause hfault := by
    cases hfault
    obtain ⟨hdone, hfailure⟩ := h.failed callee cause rfl
    rw [takeWhile_append_of_failure later (by rw [hfailure]; simp), firstFailure,
      List.findSome?_append]
    refine ⟨hdone, ?_⟩
    rw [← firstFailure, hfailure, Option.some_or]

/-- A computation that gets through the first calls goes on with the later ones. -/
theorem append {a : α} (h : Follows visits done (.ok a)) {outcome : Except Fault β}
    (h' : Follows later done' outcome) : Follows (visits ++ later) (done ++ done') outcome := by
  have hall := h.takeWhile_eq
  obtain rfl : done = visits := h.finish a rfl
  have htake : (done ++ later).takeWhile Visit.succeeds =
      done ++ later.takeWhile Visit.succeeds := by
    rw [List.takeWhile_append, if_pos (by rw [hall])]
  refine ⟨?_, ?_, ?_⟩
  · rw [htake, List.prefix_append_right_inj]
    exact h'.start
  · intro b hb
    rw [h'.finish b hb]
  · intro callee cause hfault
    obtain ⟨hdone, hfailure⟩ := h'.failed callee cause hfault
    refine ⟨by rw [htake, hdone], ?_⟩
    rw [firstFailure, List.findSome?_append, ← firstFailure, firstFailure_eq_none.mpr hall,
      Option.none_or]
    exact hfailure

/-- A call that can be prepared comes first. -/
theorem cons (place : Place) (h : Follows visits done outcome) :
    Follows (⟨place, none⟩ :: visits) (⟨place, none⟩ :: done) outcome :=
  have hfirst : Follows [⟨place, none⟩] [⟨place, none⟩] (.ok () : Except Fault Unit) :=
    ⟨List.prefix_refl _, fun _ _ => rfl, fun _ _ h => by cases h⟩
  hfirst.append h

end Follows

/-! ## Where the calls of an expression are -/

/-- Whether a place is in the expression at another place, or is that place. -/
def Place.Contains (place other : Place) : Prop :=
  place.root = other.root ∧ place.path <:+ other.path

namespace Place

variable {place other : Place} {i j : Nat}

theorem contains_self (place : Place) : place.Contains place := ⟨rfl, List.suffix_refl _⟩

theorem contains_of_child (h : (place.child i).Contains other) : place.Contains other :=
  ⟨h.1, (List.suffix_cons i place.path).trans h.2⟩

/-- Different parts of an expression have no place in common. -/
theorem index_eq_of_contains (h : (place.child i).Contains other)
    (h' : (place.child j).Contains other) : i = j := by
  have hsuffix := List.suffix_of_suffix_length_le h.2 h'.2 (by simp [child])
  have hpath : (place.child i).path = (place.child j).path :=
    hsuffix.eq_of_length (by simp [child])
  exact (List.cons.inj hpath).1

theorem ne_of_child_contains (h : (place.child i).Contains other) : place ≠ other := by
  rintro rfl
  exact absurd h.2.length_le (by simp [child])

end Place

/-- The places of the expressions that a task goes through. -/
def Task.Region : {α : Type} → Task α → Place → Prop
  | _, eval _ _ place _ => place.Contains
  | _, evalEach _ _ place index _ => fun other => ∃ i ≥ index, (place.child i).Contains other
  | _, execute _ _ _ place _ => place.Contains
  | _, validate place _ => place.Contains
  | _, validateEach place index _ => fun other => ∃ i ≥ index, (place.child i).Contains other
  | _, invoke _ _ _ => fun _ => False
  | _, converse _ _ _ => fun _ => False

/-- The calls that a task goes through. -/
def Task.visits (registry : Registry) : {α : Type} → Task α → List Visit
  | _, eval _ _ place e => registry.visits place e
  | _, evalEach _ _ place index items => registry.visitsEach place index items
  | _, execute _ _ _ place site => registry.visits place (.call site .any true)
  | _, validate place e => registry.visits place e
  | _, validateEach place index items => registry.visitsEach place index items
  | _, invoke _ _ _ => []
  | _, converse _ _ _ => []

/-- Whether a task is about the expression with a root. -/
def Task.IsOf (root : Nat) : {α : Type} → Task α → Prop
  | _, eval _ _ place _ => place.root = root
  | _, evalEach _ _ place _ _ => place.root = root
  | _, execute _ _ space place site => place.root = root ∧ space = site.space
  | _, validate place _ => place.root = root
  | _, validateEach place _ _ => place.root = root
  | _, invoke _ _ _ => False
  | _, converse _ _ _ => False

theorem Task.IsOf.root_eq {root : Nat} {place : Place} (h : task.IsOf root)
    (hplace : task.Region place) : place.root = root := by
  cases task with
  | eval | validate => exact hplace.1 ▸ h
  | execute => exact hplace.1 ▸ h.1
  | evalEach | validateEach =>
    obtain ⟨i, -, hplace⟩ := hplace
    exact hplace.1 ▸ h
  | invoke | converse => exact hplace.elim

/-- From one state to the next, the arguments of the calls in `done` were bound, among the calls
under a root, and nothing is changed there outside of a region. -/
structure Binds (root : Nat) (region : Place → Prop) (done : List Visit) (state after : State) :
    Prop where
  bound : ∀ place, place.root = root → ((after.pins.get place).edition.isSome ↔
    (state.pins.get place).edition.isSome ∨ place ∈ done.map Visit.place)
  outside : ∀ place, place.root = root → ¬region place →
    after.pins.get place = state.pins.get place

namespace Binds

variable {root : Nat} {region region' : Place → Prop} {done done' : List Visit}
  {state middle after : State}

theorem nil (h : ∀ place, place.root = root → after.pins.get place = state.pins.get place) :
    Binds root region [] state after where
  bound place hplace := by simp [h place hplace]
  outside place hplace _ := h place hplace

theorem append (h : Binds root region done state middle)
    (h' : Binds root region' done' middle after) :
    Binds root (fun place => region place ∨ region' place) (done ++ done') state after where
  bound place hplace := by
    rw [h'.bound place hplace, h.bound place hplace, List.map_append, List.mem_append, or_assoc]
  outside place hplace hregion := by
    rw [not_or] at hregion
    rw [h'.outside place hplace hregion.2, h.outside place hplace hregion.1]

theorem mono (h : Binds root region done state after)
    (hregion : ∀ place, region place → region' place) : Binds root region' done state after where
  bound := h.bound
  outside place hplace hnot := h.outside place hplace fun hin => hnot (hregion place hin)

/-- Running functions in between changes nothing. -/
theorem trans (h : Binds root region done state middle)
    (hsame : ∀ place, place.root = root → after.pins.get place = middle.pins.get place) :
    Binds root region done state after where
  bound place hplace := by rw [hsame place hplace, h.bound place hplace]
  outside place hplace hregion := by rw [hsame place hplace, h.outside place hplace hregion]

/-- The later parts of an expression are as they were after the first one was dealt with. -/
theorem fresh_rest {place : Place} {index : Nat}
    (h : Binds root (place.child index).Contains done state middle) (hplace : place.root = root)
    (hfresh : ∀ other, (∃ i ≥ index, (place.child i).Contains other) → state.pins.get other = {})
    (other : Place) (hother : ∃ i ≥ index + 1, (place.child i).Contains other) :
    middle.pins.get other = {} := by
  obtain ⟨i, hi, hin⟩ := hother
  rw [h.outside other (hin.1 ▸ hplace)]
  · exact hfresh other ⟨i, Nat.le_of_succ_le hi, hin⟩
  · intro hhead
    have hindex := Place.index_eq_of_contains hhead hin
    omega

/-- The parts of an expression from a number on are the one of that number and those after it. -/
theorem append_parts {place : Place} {index : Nat}
    (h : Binds root (place.child index).Contains done state middle)
    (h' : Binds root (fun other => ∃ i ≥ index + 1, (place.child i).Contains other) done' middle
      after) :
    Binds root (fun other => ∃ i ≥ index, (place.child i).Contains other) (done ++ done') state
      after := by
  apply (h.append h').mono
  intro other hother
  rcases hother with hother | ⟨i, hi, hother⟩
  · exact ⟨index, Nat.le_refl _, hother⟩
  · exact ⟨i, Nat.le_of_succ_le hi, hother⟩

end Binds

/-! ## Preparing a call that was not prepared before -/

theorem visits_call (place : Place) (site : CallSite) (ty : Ty) (single : Bool) :
    registry.visits place (.call site ty single) =
      match (({} : Pin).prepare registry site.space site).1 with
      | .error cause => [⟨place, some (.call site.name cause)⟩]
      | .ok (_, bound) =>
        ⟨place, none⟩ :: registry.visitsEach place 0 (bound.1.map Binding.expr) := by
  rw [Registry.visits]
  split
  · next hfound => simp only [hfound]
  · next hfound => simp only [hfound]

section

variable {place : Place} {site : CallSite} {ty : Ty} {single : Bool} {state middle after : State}
  {α : Type}

/-- A call that cannot be prepared. -/
theorem follows_of_unprepared {fault : Fault} (hfresh : state.pins.get place = {})
    (h : (site.prepare registry site.space place).runIn state = (.error fault, after)) :
    Follows (registry.visits place (.call site ty single)) [] (.error fault : Except Fault α) ∧
      Binds place.root place.Contains [] state after := by
  obtain ⟨cause, hpure, rfl, hpin⟩ := prepare_of_runIn_error h
  rw [hfresh] at hpure hpin
  rw [visits_call, hpure]
  refine ⟨⟨List.nil_prefix, ?_, ?_⟩, ?_, ?_⟩
  · intro a ha
    cases ha
  · intro callee cause' hfault
    cases hfault
    exact ⟨rfl, rfl⟩
  · intro other _
    by_cases hother : place = other
    · subst hother
      rw [hpin.pins_self, Pin.edition_prepare_of_error hpure, hfresh]
      simp
    · rw [hpin.pins_of_ne hother]
      simp
  · intro other _ hnot
    exact hpin.pins_of_ne fun e => hnot (e ▸ place.contains_self)

/-- The arguments of a call are as they were after it was prepared. -/
theorem fresh_of_prepared {found : Except Fault (Function × Bound site)} {space : String}
    (h : (site.prepare registry space place).runIn state = (found, middle))
    (hfresh : ∀ other, place.Contains other → state.pins.get other = {}) (other : Place)
    (hother : ∃ i ≥ 0, (place.child i).Contains other) : middle.pins.get other = {} := by
  obtain ⟨i, -, hin⟩ := hother
  obtain ⟨-, hpin⟩ := runIn_prepare registry space place site state
  rw [h] at hpin
  rw [hpin.pins_of_ne (Place.ne_of_child_contains hin)]
  exact hfresh other (Place.contains_of_child hin)

/-- A call that can be prepared, and what happens to its arguments. -/
theorem follows_of_prepared {f : Function} {bound : Bound site} {done : List Visit}
    {outcome : Except Fault α} (hfresh : state.pins.get place = {})
    (h : (site.prepare registry site.space place).runIn state = (.ok (f, bound), middle))
    (hfollows : Follows (registry.visitsEach place 0 (bound.1.map Binding.expr)) done outcome)
    (hbinds : Binds place.root (fun other => ∃ i ≥ 0, (place.child i).Contains other) done middle
      after) :
    Follows (registry.visits place (.call site ty single)) (⟨place, none⟩ :: done) outcome ∧
      Binds place.root place.Contains (⟨place, none⟩ :: done) state after := by
  obtain ⟨hpure, hpin⟩ := prepare_of_runIn_ok h
  rw [hfresh] at hpure hpin
  rw [visits_call, hpure]
  refine ⟨hfollows.cons place, ?_⟩
  have hfirst : Binds place.root place.Contains [⟨place, none⟩] state middle := by
    refine ⟨?_, ?_⟩
    · intro other _
      by_cases hother : place = other
      · subst hother
        rw [hpin.pins_self, Pin.edition_prepare_of_ok hpure]
        simp
      · rw [hpin.pins_of_ne hother]
        simp [Ne.symm hother]
    · intro other _ hnot
      exact hpin.pins_of_ne fun e => hnot (e ▸ place.contains_self)
  -- The place of a call contains those of its arguments.
  apply (hfirst.append hbinds).mono
  intro other hother
  rcases hother with hother | ⟨i, -, hother⟩
  · exact hother
  · exact Place.contains_of_child hother

end

/-! ## Evaluation and checking follow the calls -/

/-- Nothing but the evaluation of the expression itself gets at its memory. -/
structure State.Keeps (registry : Registry) (root : Nat) (state : State) : Prop where
  used : root < state.nextRoot
  registered : ∀ f ∈ registry.functions, ∀ x ∈ f.shared, x.root ≠ root
  recalled : state.Recalls fun f => ∀ x ∈ f.shared, x.root ≠ root

theorem State.Keeps.of_prepare {root : Nat} {space : String} {place : Place} {site : CallSite}
    {found : Except Fault (Function × Bound site)} (hkeeps : state.Keeps registry root)
    (h : (site.prepare registry space place).runIn state = (found, after)) :
    after.Keeps registry root where
  used := Nat.lt_of_lt_of_le hkeeps.used (State.Extends.of_prepare h).nextRoot
  registered := hkeeps.registered
  recalled := (recalls_of_prepare hkeeps.registered hkeeps.recalled h).1

theorem Derives.keeps {root : Nat} (h : Derives registry maxDepth law task state outcome after)
    (hkeeps : state.Keeps registry root)
    (htask : task.Within (fun f => ∀ x ∈ f.shared, x.root ≠ root) fun _ => True) :
    after.Keeps registry root where
  used := Nat.lt_of_lt_of_le hkeeps.used h.extends.nextRoot
  registered := hkeeps.registered
  recalled := (h.confined hkeeps.registered (fun _ _ _ _ => trivial) (fun _ _ _ => trivial)
    hkeeps.recalled htask).1

/-- Evaluation and checking of an expression that was not evaluated or checked before prepare its
calls in order, and no others. -/
theorem Derives.follows {root : Nat} (h : Derives registry maxDepth law task state outcome after)
    (hkeeps : state.Keeps registry root) (htask : task.IsOf root)
    (hfresh : ∀ place, task.Region place → state.pins.get place = {}) :
    ∃ done, Follows (task.visits registry) done outcome ∧
      Binds root task.Region done state after := by
  induction h with
  | literal | template | reference | evalNil =>
    simp only [Task.visits, Registry.visits, Registry.visitsEach]
    exact ⟨[], .nil _, .nil fun _ _ => rfl⟩
  | validLiteral | validTemplate | validReference | validNil =>
    simp only [Task.visits, Registry.visits, Registry.visitsEach]
    exact ⟨[], .nil _, .nil fun _ _ => rfl⟩
  | list _ ih =>
    obtain ⟨done, hfollows, hbinds⟩ := ih hkeeps htask
      fun other ⟨i, _, hother⟩ => hfresh other (Place.contains_of_child hother)
    refine ⟨done, ?_, hbinds.mono fun other ⟨i, _, hother⟩ => Place.contains_of_child hother⟩
    simp only [Task.visits, Registry.visits]
    exact hfollows.map _
  | converted part ih =>
    -- A value without a counterpart is an error of run time.
    obtain ⟨done, hfollows, hbinds⟩ := ih hkeeps htask hfresh
    refine ⟨done, ?_, hbinds⟩
    simp only [Task.visits, Registry.visits]
    exact hfollows.bind fun values fault => isRuntime_of_convertAll
  | call _ ih =>
    obtain ⟨done, hfollows, hbinds⟩ := ih hkeeps ⟨htask, rfl⟩ hfresh
    refine ⟨done, ?_, hbinds⟩
    simp only [Task.visits, visits_call] at hfollows ⊢
    exact hfollows.map _
  | evalFails head ih =>
    -- The later parts are not come to.
    obtain ⟨done, hfollows, hbinds⟩ := ih hkeeps htask
      fun other hother => hfresh other ⟨_, Nat.le_refl _, hother⟩
    refine ⟨done, ?_, hbinds.mono fun other hother => ⟨_, Nat.le_refl _, hother⟩⟩
    simp only [Task.visits, Registry.visitsEach]
    exact hfollows.append_of_error _
  | evalCons head rest ih ih' =>
    -- The first part leaves the memory of the later ones alone.
    obtain ⟨done, hfollows, hbinds⟩ := ih hkeeps htask
      fun other hother => hfresh other ⟨_, Nat.le_refl _, hother⟩
    obtain ⟨done', hfollows', hbinds'⟩ := ih' (head.keeps hkeeps trivial) htask
      (hbinds.fresh_rest htask hfresh)
    refine ⟨done ++ done', ?_, hbinds.append_parts hbinds'⟩
    simp only [Task.visits, Registry.visitsEach]
    exact (hfollows.append hfollows').map _
  | unprepared prepared =>
    obtain ⟨rfl, rfl⟩ := htask
    exact ⟨[], follows_of_unprepared (hfresh _ (Place.contains_self _)) prepared⟩
  | argumentFails prepared _ ih =>
    obtain ⟨rfl, rfl⟩ := htask
    obtain ⟨done, hfollows, hbinds⟩ := ih (hkeeps.of_prepare prepared) rfl
      (fresh_of_prepared prepared hfresh)
    exact ⟨_, follows_of_prepared (hfresh _ (Place.contains_self _)) prepared
      (hfollows.of_error) hbinds⟩
  | executed prepared arguments _ invoked ih =>
    -- The function runs after the arguments. It cannot get at the memory of this expression, and
    -- it fails at run time only.
    obtain ⟨rfl, rfl⟩ := htask
    have hmiddle := hkeeps.of_prepare prepared
    obtain ⟨done, hfollows, hbinds⟩ := ih hmiddle rfl (fresh_of_prepared prepared hfresh)
    have hcalled := arguments.keeps hmiddle trivial
    have hknown := known_of_prepare hkeeps.registered hkeeps.recalled prepared
    have hframe (place : Place) (hplace : place.root = _) :=
      invoked.frame hcalled.registered hcalled.used hcalled.recalled hknown hplace
    refine ⟨_, follows_of_prepared (hfresh _ (Place.contains_self _)) prepared
      (hfollows.of_ok ?_) (hbinds.trans hframe)⟩
    intro callee cause hfault
    exact Fault.not_isRuntime_of_isCall ⟨callee, cause, rfl⟩
      (invoked.mayFail (eq_error_of_map hfault))
  | noRoom | invoked | done | draw | unread | read | tooDeep | evaluated => exact htask.elim
  | validList _ ih =>
    obtain ⟨done, hfollows, hbinds⟩ := ih hkeeps htask
      fun other ⟨i, _, hother⟩ => hfresh other (Place.contains_of_child hother)
    refine ⟨done, ?_, hbinds.mono fun other ⟨i, _, hother⟩ => Place.contains_of_child hother⟩
    simp only [Task.visits, Registry.visits]
    exact hfollows
  | validConverted _ ih =>
    obtain ⟨done, hfollows, hbinds⟩ := ih hkeeps htask hfresh
    refine ⟨done, ?_, hbinds⟩
    simp only [Task.visits, Registry.visits]
    exact hfollows
  | invalidCall prepared =>
    cases htask
    exact ⟨[], follows_of_unprepared (hfresh _ (Place.contains_self _)) prepared⟩
  | validCall prepared _ ih =>
    cases htask
    obtain ⟨done, hfollows, hbinds⟩ := ih (hkeeps.of_prepare prepared) rfl
      (fresh_of_prepared prepared hfresh)
    exact ⟨_, follows_of_prepared (hfresh _ (Place.contains_self _)) prepared hfollows hbinds⟩
  | validFails head ih =>
    obtain ⟨done, hfollows, hbinds⟩ := ih hkeeps htask
      fun other hother => hfresh other ⟨_, Nat.le_refl _, hother⟩
    refine ⟨done, ?_, hbinds.mono fun other hother => ⟨_, Nat.le_refl _, hother⟩⟩
    simp only [Task.visits, Registry.visitsEach]
    exact hfollows.append_of_error _
  | validCons head rest ih ih' =>
    obtain ⟨done, hfollows, hbinds⟩ := ih hkeeps htask
      fun other hother => hfresh other ⟨_, Nat.le_refl _, hother⟩
    obtain ⟨done', hfollows', hbinds'⟩ := ih' (head.keeps hkeeps trivial) htask
      (hbinds.fresh_rest htask hfresh)
    refine ⟨done ++ done', ?_, hbinds.append_parts hbinds'⟩
    simp only [Task.visits, Registry.visitsEach]
    exact hfollows.append hfollows'

/-- Whether a task is a check. -/
def Task.IsCheck : {α : Type} → Task α → Prop
  | _, validate _ _ => True
  | _, validateEach _ _ _ => True
  | _, _ => False

/-- Checking runs no function. -/
theorem Derives.history_eq (h : Derives registry maxDepth law task state outcome after)
    (htask : task.IsCheck) : after.history = state.history := by
  induction h with
  | validLiteral | validTemplate | validReference | validNil => rfl
  | validList _ ih | validConverted _ ih | validFails _ ih => exact ih trivial
  | invalidCall prepared => exact history_of_prepare prepared
  | validCall prepared _ ih => exact (ih trivial).trans (history_of_prepare prepared)
  | validCons _ _ ih ih' => exact (ih' trivial).trans (ih trivial)
  | _ => exact htask.elim

/-! ## Checking and evaluating a text -/

/-- A state is settled if what it will hand out next is not yet known to anything in it. -/
theorem State.Settled.keeps (h : state.Settled registry) :
    State.Keeps registry state.nextRoot { state with nextRoot := state.nextRoot + 1 } where
  used := Nat.lt_succ_self _
  registered f hf x hx := Nat.ne_of_lt (h.registered f hf x hx)
  recalled place f hf x hx := Nat.ne_of_lt (h.recalled place f hf x hx)

/-- The call sites under a root whose arguments are bound are exactly those of some calls. -/
def State.HasBound (state : State) (root : Nat) (visits : List Visit) : Prop :=
  ∀ place, place.root = root →
    ((state.pins.get place).edition.isSome ↔ place ∈ visits.map Visit.place)

namespace Evaluator

variable {evaluator : Evaluator} {text : String} {e : Expr}

theorem runIn_read_of_error {failure : ParseFailure}
    (h : (evaluator.registry.reader evaluator.space).parse text .any = .error failure) :
    (evaluator.read text).runIn state = (.error (.own (.parse [] failure text)), state) := by
  rw [read, Attempt.runIn_adapt, parse, h]
  rfl

theorem runIn_read_of_ok
    (h : (evaluator.registry.reader evaluator.space).parse text .any = .ok e) :
    (evaluator.read text).runIn state =
      (.ok ⟨state.nextRoot, e⟩, { state with nextRoot := state.nextRoot + 1 }) := by
  rw [read, Attempt.runIn_adapt, parse, h]
  rfl

/-- A computation on an expression that was just read goes through its calls. -/
theorem exists_follows (hsettled : state.Settled registry)
    (h : Derives registry maxDepth law task { state with nextRoot := state.nextRoot + 1 } outcome
      after) (htask : task.IsOf state.nextRoot) :
    ∃ done, Follows (task.visits registry) done outcome ∧ after.HasBound state.nextRoot done := by
  have hunused (place : Place) (hplace : place.root = state.nextRoot) :
      state.pins.get place = {} := hsettled.unused place (Nat.le_of_eq hplace.symm)
  obtain ⟨done, hfollows, hbinds⟩ := h.follows hsettled.keeps htask
    fun place hplace => hunused place (htask.root_eq hplace)
  refine ⟨done, hfollows, ?_⟩
  intro place hplace
  rw [hbinds.bound place hplace, hunused place hplace]
  simp

/-- Checking a text foretells what evaluating it finds.

The two fail alike at a text that cannot be read, and for no other reason with a parse error. Where
evaluation fails because of a call of the text, checking fails with the same error. Where checking
fails because of a call of the text, that is the first one in evaluation order that cannot be
prepared, and evaluation fails with the same error; or it fails with one that shows only at run
time, and then it has prepared no other calls of the text than an initial part of those before.
Where checking succeeds, evaluation fails only with errors that show at run time. Checking runs no
function.

Only settled states occur, see `Session.Reached.isRooted`. -/
theorem check_foretells_evaluate (evaluator : Evaluator) (text : String) (state : State)
    (hsettled : state.Settled evaluator.registry) :
    let parsed := (evaluator.registry.reader evaluator.space).parse text .any
    let (checked, checkedState) := (evaluator.check text).runIn state
    let (evaluated, evaluatedState) := (evaluator.evaluate text).runIn state
    ((∃ lines failure source, checked = .error (.own (.parse lines failure source))) ↔
      ∃ failure, parsed = .error failure) ∧
    (∀ failure, parsed = .error failure →
      checked = .error (.own (.parse [] failure text)) ∧
      evaluated = .error (.own (.parse [] failure text))) ∧
    (∀ callee cause, evaluated = .error (.own (.call callee cause)) →
      checked = .error (.own (.call callee cause))) ∧
    (∀ callee cause, checked = .error (.own (.call callee cause)) →
      ∃ e before failing later, parsed = .ok e ∧
        evaluator.registry.visits ⟨state.nextRoot, []⟩ e = before ++ failing :: later ∧
        (∀ visit ∈ before, visit.succeeds = true) ∧
        failing.failure = some (.call callee cause) ∧
        checkedState.HasBound state.nextRoot before ∧
        ∃ fault, evaluated = .error fault ∧
          (fault = .own (.call callee cause) ∧ evaluatedState.HasBound state.nextRoot before ∨
            fault.IsRuntime ∧ ∃ reached, reached <+: before ∧
              evaluatedState.HasBound state.nextRoot reached)) ∧
    (checked = .ok () → ∀ fault, evaluated = .error fault → fault.IsRuntime) ∧
    checkedState.history = state.history := by
  cases hparse : (evaluator.registry.reader evaluator.space).parse text .any with
  | error failure =>
    rw [check, evaluate, Attempt.runIn_bind_of_error (runIn_read_of_error hparse),
      Attempt.runIn_bind_of_error (runIn_read_of_error hparse)]
    refine ⟨⟨fun _ => ⟨failure, rfl⟩, fun _ => ⟨[], failure, text, rfl⟩⟩, ?_, ?_, ?_, ?_, rfl⟩
    · intro failure' hfailure
      cases hfailure
      exact ⟨rfl, rfl⟩
    · intro callee cause hfault
      cases hfault
    · intro callee cause hfault
      cases hfault
    · intro hok
      cases hok
  | ok e =>
    rw [check, evaluate, Attempt.runIn_bind_of_ok (runIn_read_of_ok hparse),
      Attempt.runIn_bind_of_ok (runIn_read_of_ok hparse)]
    have hcheck := derives evaluator.registry evaluator.context.maxDepth
      (.validate ⟨state.nextRoot, []⟩ e) { state with nextRoot := state.nextRoot + 1 }
    have heval := derives evaluator.registry evaluator.context.maxDepth
      (.eval (evaluator.context.maxDepth - evaluator.context.depth) evaluator.context.scope
        ⟨state.nextRoot, []⟩ e) { state with nextRoot := state.nextRoot + 1 }
    obtain ⟨prepared, hchecked, hcheckedBound⟩ := exists_follows hsettled hcheck rfl
    obtain ⟨reached, hevaluated, hevaluatedBound⟩ := exists_follows hsettled heval rfl
    refine ⟨⟨?_, ?_⟩, ?_, ?_, ?_, ?_, hcheck.history_eq trivial⟩
    · rintro ⟨lines, failure, source, hfault⟩
      obtain ⟨callee, cause, hcall⟩ := hcheck.mayFail hfault
      cases hcall
    · rintro ⟨failure, hfailure⟩
      cases hfailure
    · intro failure hfailure
      cases hfailure
    · -- Both follow the same calls, so the first that fails is the same.
      intro callee cause hfault
      obtain ⟨-, hfirst⟩ := hevaluated.failed callee cause hfault
      exact hchecked.eq_error_of_firstFailure hfirst fun fault => hcheck.mayFail
    · -- Evaluation comes to that call as well, unless something fails it before.
      intro callee cause hfault
      obtain ⟨rfl, hfirst⟩ := hchecked.failed callee cause hfault
      obtain ⟨failing, later, hvisits, hfailing⟩ := exists_of_firstFailure hfirst
      refine ⟨e, _, failing, later, rfl, hvisits, fun visit => List.mem_takeWhile_imp, hfailing,
        hcheckedBound, ?_⟩
      obtain ⟨fault, hfault, hcases⟩ :=
        hevaluated.exists_of_firstFailure hfirst fun fault => heval.mayFail
      refine ⟨fault, hfault, ?_⟩
      rcases hcases with ⟨rfl, rfl⟩ | ⟨hruntime, hreached⟩
      · exact .inl ⟨rfl, hevaluatedBound⟩
      · exact .inr ⟨hruntime, reached, hreached, hevaluatedBound⟩
    · intro hok fault hfault
      have hnone := hchecked.firstFailure_of_ok hok
      rcases heval.mayFail hfault with hruntime | ⟨callee, cause, rfl⟩
      · exact hruntime
      · obtain ⟨-, hfirst⟩ := hevaluated.failed callee cause hfault
        exact absurd (hfirst.symm.trans hnone) (by simp)

/-- A text that calls a function which is not there fails the same way in both. -/
theorem check_foretells_evaluate_unknown :
    State.Settled ({} : Evaluator).registry {} ∧
      ((({} : Evaluator).evaluate "f()").runIn {}).1 =
        .error (.own (.call "f" (.unknownCallee "f" ""))) ∧
      ((({} : Evaluator).check "f()").runIn {}).1 =
        .error (.own (.call "f" (.unknownCallee "f" ""))) := by
  have hform : Form.read "f()".toList = .call "f" [] := by
    rw [Form.read_eq, show Outline.ofText (Text.trim "f()".toList) = .call "f" [] from rfl]
    rfl
  have hparse : (({} : Evaluator).registry.reader "").parse "f()" .any =
      .ok (.call ⟨"", "f", []⟩ .any true) := by
    rw [Reader.parse, hform]
    rfl
  have hevaluated : ((({} : Evaluator).evaluate "f()").runIn {}).1 =
      .error (.own (.call "f" (.unknownCallee "f" ""))) := by
    rw [evaluate, Attempt.runIn_bind_of_ok (runIn_read_of_ok hparse)]
    have hprepared := (runIn_prepare {} "" ⟨0, []⟩ ⟨"", "f", []⟩ { nextRoot := 1 }).1
    rw [Pins.get_empty] at hprepared
    have hcall := @Derives.call {} 256 .free 256 Scope.empty ⟨0, []⟩ ⟨"", "f", []⟩ .any true _ _ _
      (.unprepared (Prod.ext hprepared rfl))
    exact congrArg Prod.fst hcall.runIn_eq
  exact ⟨.start, hevaluated,
    (check_foretells_evaluate {} "f()" {} .start).2.2.1 "f" (.unknownCallee "f" "") hevaluated⟩

end Evaluator

end CallScript

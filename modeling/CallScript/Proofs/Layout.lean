import CallScript.Proofs.Frame

/-!
# Which call is where

While no function is registered, what a call site comes to remember can be told beforehand: the
function that is found now, and the bindings that are made now. Then also the expressions are known
that its arguments are bound to, and so the call sites in these, and so on all the way down. A
`Layout` writes this down: it says which call is at a place, and in which space its arguments are
read.

* `Registry.callAt` finds the call that is a given way down an expression, through the arguments of
  the calls above it. A layout *covers* these calls at a place if it has each of them where the way
  leads from there.
* A pin *agrees* with a call if it remembers nothing but what would be found now (`Pin.Agrees`).

In a state that agrees with a layout (`State.AgreesWith`), preparing a call that the layout has ends
as it does at a call site that remembers nothing, and leaves a state that agrees with the layout
(`State.AgreesWith.prepare`). So the memory of call sites does not show, as long as the state agrees
with a layout that covers what is evaluated.
-/

namespace CallScript

/-! ## Pins that remember what would be found -/

/-- Whether a call site remembers nothing but what it would find and bind now. -/
structure Pin.Agrees (registry : Registry) (space : String) (site : CallSite) (pin : Pin) :
    Prop where
  callee : ∀ f, pin.callee = some f → registry.lookup site.name site.space = some f
  edition : ∀ edition, pin.edition = some edition →
    ∃ f, registry.lookup site.name site.space = some f ∧
      edition = ⟨f.signature, registry.reader space⟩

namespace Pin.Agrees

variable {registry : Registry} {space : String} {site : CallSite} {pin : Pin}

theorem empty (registry : Registry) (space : String) (site : CallSite) :
    ({} : Pin).Agrees registry space site where
  callee _ h := by cases h
  edition _ h := by cases h

theorem callee_or (h : pin.Agrees registry space site) :
    pin.callee.or (registry.lookup site.name site.space) =
      registry.lookup site.name site.space := by
  cases hcallee : pin.callee with
  | none => rfl
  | some f => rw [Option.some_or, h.callee f hcallee]

theorem edition_getD (h : pin.Agrees registry space site) {f : Function}
    (hf : registry.lookup site.name site.space = some f) :
    pin.edition.getD ⟨f.signature, registry.reader space⟩ =
      ⟨f.signature, registry.reader space⟩ := by
  cases hedition : pin.edition with
  | none => rfl
  | some edition =>
    obtain ⟨g, hg, rfl⟩ := h.edition edition hedition
    rw [hf] at hg
    cases hg
    rfl

/-- What was remembered does not show. -/
theorem prepare_fst (h : pin.Agrees registry space site) :
    (pin.prepare registry space site).1 = (({} : Pin).prepare registry space site).1 := by
  rw [Pin.prepare, Pin.prepare, h.callee_or, Option.none_or]
  cases hf : registry.lookup site.name site.space with
  | none => rfl
  | some f =>
    dsimp only
    rw [h.edition_getD hf, Option.getD_none]
    split <;> rfl

/-- What is remembered from now on is what was found now. -/
theorem prepare_snd (h : pin.Agrees registry space site) :
    (pin.prepare registry space site).2.Agrees registry space site where
  callee f hf := by rwa [Pin.callee_prepare, h.callee_or] at hf
  edition edition he := by
    cases hprepared : (pin.prepare registry space site).1 with
    | error cause => exact h.edition edition (by rwa [Pin.edition_prepare_of_error hprepared] at he)
    | ok prepared =>
      have hf := (Pin.prepare_eq_ok.mp hprepared).1
      rw [h.callee_or] at hf
      rw [Pin.edition_prepare_of_ok hprepared, h.edition_getD hf] at he
      exact ⟨prepared.1, hf, (Option.some.inj he).symm⟩

/-- What is remembered once the function was found. -/
theorem resolved (h : pin.Agrees registry space site) {f : Function}
    (hf : pin.callee.or (registry.lookup site.name site.space) = some f) :
    Pin.Agrees registry space site { pin with callee := some f } where
  callee g hg := by
    cases hg
    rwa [h.callee_or] at hf
  edition := h.edition

end Pin.Agrees

/-! ## The calls in an expression -/

/-- The expression that an argument of a call is bound to, by number. -/
def Registry.argumentAt (registry : Registry) (space : String) (site : CallSite) (index : Nat) :
    Option Expr :=
  match (({} : Pin).prepare registry space site).1 with
  | .error _ => none
  | .ok (_, bound) => (bound.1.map Binding.expr)[index]?

/-- The call that a way leads to from an expression, and the space in which its arguments are read.
The way goes through the items of lists and the arguments of calls, the outermost step first. -/
def Registry.callAt (registry : Registry) : Expr → List Nat → Option (String × CallSite)
  | .list items _, index :: path => items[index]?.bind fun item => registry.callAt item path
  | .converted inner _, path => registry.callAt inner path
  | .call site _ _, [] => some (site.space, site)
  | .call site _ _, index :: path =>
    (registry.argumentAt site.space site index).bind fun e => registry.callAt e path
  | _, _ => none
termination_by e path => (path.length, sizeOf e)

/-- The call that a way leads to from a call whose arguments are read in a space. -/
def Registry.siteAt (registry : Registry) (space : String) (site : CallSite) :
    List Nat → Option (String × CallSite)
  | [] => some (space, site)
  | index :: path => (registry.argumentAt space site index).bind fun e => registry.callAt e path

section

variable (registry : Registry)

theorem Registry.callAt_list (items : List Expr) (ty : Ty) (index : Nat) (path : List Nat) :
    registry.callAt (.list items ty) (index :: path) =
      items[index]?.bind fun item => registry.callAt item path := by
  rw [callAt]

theorem Registry.callAt_converted (inner : Expr) (target : Ty) :
    registry.callAt (.converted inner target) = registry.callAt inner := by
  funext path
  rw [callAt]

theorem Registry.callAt_call (site : CallSite) (ty : Ty) (single : Bool) :
    registry.callAt (.call site ty single) = registry.siteAt site.space site := by
  funext path
  cases path with
  | nil => rw [callAt, siteAt]
  | cons index path => rw [callAt, siteAt]

end

/-! ## Layouts -/

/-- Which call is at a place, and in which space its arguments are read. -/
abbrev Layout := Place → Option (String × CallSite)

namespace Layout

/-- The layout in which no place has a call. -/
def empty : Layout := fun _ => none

/-- Whether what is at a place in one layout is there in another. -/
def Extends (layout newer : Layout) : Prop :=
  ∀ place call, layout place = some call → newer place = some call

theorem Extends.refl (layout : Layout) : layout.Extends layout := fun _ _ h => h

theorem Extends.trans {layout middle newer : Layout} (h : layout.Extends middle)
    (h' : middle.Extends newer) : layout.Extends newer :=
  fun place call hcall => h' place call (h place call hcall)

/-- Whether a layout has calls where the ways to them lead from a place. -/
def Covers (layout : Layout) (place : Place) (calls : List Nat → Option (String × CallSite)) :
    Prop :=
  ∀ path call, calls path = some call → layout ⟨place.root, path.reverse ++ place.path⟩ = some call

namespace Covers

variable {layout newer : Layout} {place : Place} {calls : List Nat → Option (String × CallSite)}
  {registry : Registry} {space : String} {site : CallSite} {index : Nat}

theorem mono (h : layout.Covers place calls) (hextends : layout.Extends newer) :
    newer.Covers place calls := fun path call hcall => hextends _ _ (h path call hcall)

/-- The ways that lead on from a part. -/
theorem child (h : layout.Covers place calls) (index : Nat) :
    layout.Covers (place.child index) fun path => calls (index :: path) := by
  intro path call hcall
  have hplace := h (index :: path) call hcall
  rwa [List.reverse_cons, List.append_assoc, List.singleton_append] at hplace

theorem item {items : List Expr} {ty : Ty} {item : Expr}
    (h : layout.Covers place (registry.callAt (.list items ty)))
    (hitem : items[index]? = some item) :
    layout.Covers (place.child index) (registry.callAt item) := by
  have hchild := h.child index
  simpa only [registry.callAt_list, hitem, Option.bind_some] using hchild

theorem converted {inner : Expr} {target : Ty}
    (h : layout.Covers place (registry.callAt (.converted inner target))) :
    layout.Covers place (registry.callAt inner) := by
  rwa [registry.callAt_converted] at h

theorem call {ty : Ty} {single : Bool}
    (h : layout.Covers place (registry.callAt (.call site ty single))) :
    layout.Covers place (registry.siteAt site.space site) := by
  rwa [registry.callAt_call] at h

theorem here (h : layout.Covers place (registry.siteAt space site)) :
    layout place = some (space, site) := h [] (space, site) rfl

end Covers

/-- The layout that also has calls under a root. -/
def add (layout : Layout) (root : Nat) (calls : List Nat → Option (String × CallSite)) : Layout :=
  fun place => if place.root = root then calls place.path.reverse else layout place

section

variable {layout : Layout} {root : Nat} {calls : List Nat → Option (String × CallSite)}

theorem covers_add : (layout.add root calls).Covers ⟨root, []⟩ calls := by
  intro path call hcall
  simpa [add] using hcall

theorem add_of_ne {place : Place} (h : place.root ≠ root) :
    layout.add root calls place = layout place := if_neg h

theorem extends_add (h : ∀ place, place.root = root → layout place = none) :
    layout.Extends (layout.add root calls) := by
  intro place call hcall
  rw [add_of_ne]
  · exact hcall
  · intro hroot
    rw [h place hroot] at hcall
    cases hcall

end

/-- Whether a layout covers the calls in some expressions, the parts of the one at `place` from
`index` on. -/
def CoversEach (registry : Registry) (layout : Layout) (place : Place) (index : Nat)
    (items : List Expr) : Prop :=
  ∀ i item, items[i]? = some item → layout.Covers (place.child (index + i)) (registry.callAt item)

namespace CoversEach

variable {layout newer : Layout} {registry : Registry} {place : Place} {index : Nat} {item : Expr}
  {items : List Expr}

theorem mono (h : CoversEach registry layout place index items) (hextends : layout.Extends newer) :
    CoversEach registry newer place index items := fun i item hitem =>
  (h i item hitem).mono hextends

theorem head (h : CoversEach registry layout place index (item :: items)) :
    layout.Covers (place.child index) (registry.callAt item) := h 0 item rfl

theorem tail (h : CoversEach registry layout place index (item :: items)) :
    CoversEach registry layout place (index + 1) items := by
  intro i other hother
  have hplace := h (i + 1) other hother
  rwa [Nat.add_comm i 1, ← Nat.add_assoc] at hplace

end CoversEach

theorem Covers.items {layout : Layout} {registry : Registry} {place : Place} {items : List Expr}
    {ty : Ty} (h : layout.Covers place (registry.callAt (.list items ty))) :
    CoversEach registry layout place 0 items := by
  intro i item hitem
  rw [Nat.zero_add]
  exact h.item hitem

/-- The bound arguments of a call are covered with it. -/
theorem Covers.arguments {layout : Layout} {registry : Registry} {place : Place} {space : String}
    {site : CallSite} (h : layout.Covers place (registry.siteAt space site)) {f : Function}
    {bound : Bound site}
    (hprepared : (({} : Pin).prepare registry space site).1 = .ok (f, bound)) :
    CoversEach registry layout place 0 (bound.1.map Binding.expr) := by
  intro i e he
  have hargument : registry.argumentAt space site i = some e := by
    rw [Registry.argumentAt, hprepared]
    exact he
  have hchild := h.child i
  rw [Nat.zero_add]
  simpa only [Registry.siteAt, hargument, Option.bind_some] using hchild

end Layout

/-! ## States that agree with a layout -/

/-- Whether the call sites that a layout has remember nothing but what they would find and bind
now. -/
def State.AgreesWith (registry : Registry) (layout : Layout) (state : State) : Prop :=
  ∀ place space site, layout place = some (space, site) →
    (state.pins.get place).Agrees registry space site

namespace State.AgreesWith

variable {registry : Registry} {layout : Layout} {space : String} {site : CallSite} {place : Place}
  {state after : State}

/-- What is not laid out does not matter. -/
theorem of_pins (h : state.AgreesWith registry layout)
    (hpins : ∀ place call, layout place = some call →
      after.pins.get place = state.pins.get place) : after.AgreesWith registry layout := by
  intro place space site hplace
  rw [hpins place _ hplace]
  exact h place space site hplace

/-- A call site may remember something else that agrees with its call. -/
theorem repinned (h : state.AgreesWith registry layout) (hplace : layout place = some (space, site))
    {pin : Pin} (hpin : state.Repinned place pin after) (hagrees : pin.Agrees registry space site) :
    after.AgreesWith registry layout := by
  intro other space' site' hother
  rw [hpin.pins]
  split
  · next hsame =>
    rw [← hsame, hplace] at hother
    cases hother
    exact hagrees
  · exact h other space' site' hother

/-- Preparing a call that is laid out ends as at a call site that remembers nothing. -/
theorem prepare (h : state.AgreesWith registry layout)
    (hplace : layout place = some (space, site)) :
    ((site.prepare registry space place).runIn state).1 =
        (({} : Pin).prepare registry space site).1.mapError
          (fun cause => .own (.call site.name cause)) ∧
      ((site.prepare registry space place).runIn state).2.AgreesWith registry layout := by
  have hagrees := h place space site hplace
  obtain ⟨houtcome, hpin⟩ := runIn_prepare registry space place site state
  rw [hagrees.prepare_fst] at houtcome
  exact ⟨houtcome, h.repinned hplace hpin hagrees.prepare_snd⟩

/-- The function and the bindings of a prepared call that is laid out are those that would be found
and made now. -/
theorem prepared (h : state.AgreesWith registry layout) (hplace : layout place = some (space, site))
    {f : Function} {bound : Bound site}
    (hrun : (site.prepare registry space place).runIn state = (.ok (f, bound), after)) :
    (({} : Pin).prepare registry space site).1 = .ok (f, bound) ∧
      registry.lookup site.name site.space = some f := by
  obtain ⟨hprepared, -⟩ := prepare_of_runIn_ok hrun
  rw [(h place space site hplace).prepare_fst] at hprepared
  refine ⟨hprepared, ?_⟩
  simpa using (Pin.prepare_eq_ok.mp hprepared).1

end State.AgreesWith

end CallScript

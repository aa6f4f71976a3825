import Std.Data.HashMap
import CallScript.Binding
import CallScript.Registry

/-!
# What call sites remember

The first time a call site finds a function under its name, it keeps that function; the first time
its arguments can be bound, it keeps how. Later registrations change neither. A search or a
binding that fails is not kept, so it is tried again the next time.

How arguments were bound follows from what they were bound against: the signature, the space the
argument texts were read in, and the declarations found there at the time. So a call site keeps
that, its `Edition`, rather than the expressions, and `Edition.bind` gives the same bindings
whenever it is asked (`reach_of_bind` says that their expressions reach less far than the call
site, which is why evaluation ends). What one call site keeps is its `Pin`.

Call sites are found by their `Place`: the number of the expression they belong to, and the way
down from its root. The items of a list and the bound arguments of a call are numbered, the
innermost step comes first.
-/

namespace CallScript

/-- Where a call site is: in which expression, and which way down from its root. -/
structure Place where
  root : Nat
  path : List Nat := []
  deriving DecidableEq, Repr

instance : Hashable Place where
  hash place := place.path.foldl (fun h index => 31 * h + index.toUInt64 + 1) place.root.toUInt64

/-- The place of the part with the given number. -/
def Place.child (place : Place) (index : Nat) : Place := ⟨place.root, index :: place.path⟩

/-- What the arguments of a call site are bound against. -/
structure Edition where
  signature : Signature
  reader : Reader

/-- The bindings of a call site, whose expressions reach less far than the call site. -/
def Bound (site : CallSite) :=
  { bindings : List Binding // Expr.reachAll (bindings.map Binding.expr) < site.reach }

/-- Bindings made by a reader reach less far than the call site they are made for. -/
theorem reach_of_bind {edition : Edition} {site : CallSite} {bindings : List Binding}
    (h : bindArguments edition.reader.parse edition.signature site.arguments = .ok bindings) :
    Expr.reachAll (bindings.map Binding.expr) < site.reach := by
  refine Nat.lt_succ_of_le (Expr.reachAll_le fun e he => ?_)
  obtain ⟨b, hb, rfl⟩ := List.mem_map.mp he
  obtain ⟨a, ha, hp⟩ := exists_of_mem_bindArguments h hb
  exact Nat.le_trans (Reader.reach_parse_le hp) (length_text_le_longest ha)

/-- The bindings of a call site in an edition. -/
def Edition.bind (edition : Edition) (site : CallSite) : Except BindError (Bound site) :=
  match h : bindArguments edition.reader.parse edition.signature site.arguments with
  | .error e => .error e
  | .ok bindings => .ok ⟨bindings, reach_of_bind h⟩

/-- Binding succeeds with what `bindArguments` gives. -/
theorem Edition.bind_of_ok {edition : Edition} {site : CallSite} {bindings : List Binding}
    (h : bindArguments edition.reader.parse edition.signature site.arguments = .ok bindings) :
    edition.bind site = .ok ⟨bindings, reach_of_bind h⟩ := by
  unfold Edition.bind
  split
  · next e he => rw [h] at he; cases he
  · next found hfound => rw [h] at hfound; cases hfound; rfl

/-- Binding fails as `bindArguments` does. -/
theorem Edition.bind_of_error {edition : Edition} {site : CallSite} {e : BindError}
    (h : bindArguments edition.reader.parse edition.signature site.arguments = .error e) :
    edition.bind site = .error e := by
  unfold Edition.bind
  split
  · next e' he => rw [h] at he; cases he; rfl
  · next found hfound => rw [h] at hfound; cases hfound

/-- What a call site remembers: the function it calls, and what its arguments were bound against. -/
structure Pin where
  callee : Option Function := none
  edition : Option Edition := none

/-- What all call sites remember. -/
structure Pins where
  table : Std.HashMap Place Pin := {}

namespace Pins

/-- What the call site at a place remembers, which is nothing at first. -/
def get (pins : Pins) (place : Place) : Pin := pins.table.getD place {}

/-- Changes what the call site at a place remembers. -/
def set (pins : Pins) (place : Place) (pin : Pin) : Pins := ⟨pins.table.insert place pin⟩

@[simp] theorem get_empty (place : Place) : ({} : Pins).get place = {} := by
  simp [get]

theorem get_set (pins : Pins) (place other : Place) (pin : Pin) :
    (pins.set place pin).get other = if place = other then pin else pins.get other := by
  simp [get, set, Std.HashMap.getD_insert]

end Pins

/-- One run of a function: which, with what arguments, and how deep in the chain of calls. -/
structure Invocation where
  function : Function
  arguments : Bundle
  depth : Nat

/-- Where random integers come from: a tape of numbers, of which so many have been used. Nothing is
assumed of the numbers, so what holds for every source holds whatever is drawn. -/
structure RandomSource where
  tape : Nat → Nat := fun _ => 0
  used : Nat := 0

/-- Takes the next number from the tape. -/
def RandomSource.next (source : RandomSource) : Nat × RandomSource :=
  (source.tape source.used, { source with used := source.used + 1 })

/-- Everything that evaluation leaves behind: what call sites remember, the next unused root, the
runs so far with the last one first, and where random integers come from. -/
structure State where
  pins : Pins := {}
  nextRoot : Nat := 0
  history : List Invocation := []
  random : RandomSource := {}

/-- How often a function that is not built in was run under exactly this space and name. -/
def State.runs (state : State) (space name : String) : Nat :=
  state.history.countP fun run => Registry.isNamed space name run.function && !run.function.builtin

end CallScript

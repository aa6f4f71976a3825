import CallScript.Function
import CallScript.Typing

/-!
# The registry of functions

Functions are known by a space and a name, one function for each pair. A name is looked up in the
space of the call first and then in the global space, whose name is empty; registering a function
replaces the one it shares space and name with.

So a lookup finds the function that was registered last under its space and name
(`get?_register`). What holds of every function that is registered is kept by registering one more
of which it holds: no other function gets in (`mem_register`).
-/

namespace CallScript

/-- The registered functions. -/
structure Registry where
  functions : List Function := []

namespace Registry

/-- Whether a function goes by this space and name. -/
def isNamed (space name : String) (f : Function) : Bool :=
  f.signature.space = space && f.signature.name = name

/-- The function registered under exactly this space and name. -/
def get? (registry : Registry) (space name : String) : Option Function :=
  registry.functions.find? (isNamed space name)

/-- The registry with a function added, or put in the place of the one it replaces. -/
def register (registry : Registry) (f : Function) : Registry :=
  ⟨f :: registry.functions.filter fun g => !isNamed f.signature.space f.signature.name g⟩

/-- The function that a call in `space` finds under a name: its own space comes first. -/
def lookup (registry : Registry) (name space : String) : Option Function :=
  match registry.get? space name with
  | some f => some f
  | none => registry.get? "" name

/-- The number of registered functions. -/
def size (registry : Registry) : Nat := registry.functions.length

/-- What texts in a space are read against. -/
def reader (registry : Registry) (space : String) : Reader :=
  ⟨space, fun name => (registry.lookup name space).map Function.signature⟩

/-- A listing of the registered functions, sorted, each with its space unless that is global. -/
def listing (registry : Registry) : String :=
  let names := registry.functions.map fun f =>
    if f.signature.space = "" then f.signature.name
    else f.signature.space ++ "::" ++ f.signature.name
  let quoted := (names.mergeSort fun a b => a ≤ b).map Text.quotedText
  "Registry \x7b functions: [" ++ ", ".intercalate quoted ++ "] \x7d"

theorem get?_register (registry : Registry) (f : Function) (space name : String) :
    (registry.register f).get? space name =
      if f.signature.space = space ∧ f.signature.name = name then some f
      else registry.get? space name := by
  unfold get? register
  rw [List.find?_cons]
  by_cases h : f.signature.space = space ∧ f.signature.name = name
  · simp [isNamed, h]
  · have hf : isNamed space name f = false := by simpa [isNamed] using h
    rw [hf, if_neg h, List.find?_filter]
    dsimp only
    congr 1
    funext g
    grind [isNamed]

/-- Registering a function adds no other. -/
theorem mem_register {registry : Registry} {f g : Function}
    (h : g ∈ (registry.register f).functions) : g = f ∨ g ∈ registry.functions := by
  rcases List.mem_cons.mp h with hsame | hold
  · exact .inl hsame
  · exact .inr (List.mem_filter.mp hold).1

end Registry

end CallScript

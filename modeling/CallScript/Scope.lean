import CallScript.Reference
import CallScript.Value

/-!
# Variables, and texts that refer to them

A scope gives every variable its list of values; a variable that was never set has none.

`Scope.interpolate` puts values into a text: each `{name}` in it is replaced by the values of the
variable, shown and separated by a space. The name may carry the mark `::*`, which changes nothing
here, and it may itself contain references, which are replaced first, so `{x{i}}` names a variable
indirectly. Braces nest, so a reference ends where its brace is closed; a brace that is never
closed stays as it is, with everything after it. What was inserted is not looked at again.
-/

namespace CallScript

/-- The values of all variables. -/
def Scope := String → List Value

namespace Scope

/-- The scope in which no variable is set. -/
def empty : Scope := fun _ => []

/-- The values of a variable, none if it is not set. -/
def get (scope : Scope) (name : String) : List Value := scope name

/-- The scope after a variable was set. -/
def set (scope : Scope) (name : String) (values : List Value) : Scope :=
  fun other => if other = name then values else scope other

@[simp] theorem get_empty (name : String) : empty.get name = [] := rfl

theorem get_set (scope : Scope) (name other : String) (values : List Value) :
    (scope.set name values).get other = if other = name then values else scope.get other := rfl

/-- The values that a reference stands for: the first one, if there is one, or all. -/
def resolve (scope : Scope) (target : Reference) : List Value :=
  if target.all then scope.get target.name else (scope.get target.name).take 1

/-- Splits a text, read from inside a brace with `depth` more braces open, where that brace is
closed: what comes before the closing brace, and what comes after it. -/
def splitReference (depth : Nat) : List Char → Option (List Char × List Char)
  | [] => none
  | c :: rest =>
    if c = '\x7b' then (splitReference (depth + 1) rest).map fun (s, t) => (c :: s, t)
    else if c = '\x7d' then
      if depth = 0 then some ([], rest)
      else (splitReference (depth - 1) rest).map fun (s, t) => (c :: s, t)
    else (splitReference depth rest).map fun (s, t) => (c :: s, t)

/-- The two parts and the brace between them make up the text. -/
theorem eq_append_of_splitReference {depth : Nat} {s inner after : List Char}
    (h : splitReference depth s = some (inner, after)) : s = inner ++ '\x7d' :: after := by
  induction s generalizing depth inner with
  | nil => simp [splitReference] at h
  | cons c rest ih =>
    simp only [splitReference] at h
    split at h
    · obtain ⟨p, hp, he⟩ := Option.map_eq_some_iff.mp h
      cases he
      simp [ih hp]
    · split at h
      · next hc =>
        split at h
        · cases h; simp [hc]
        · obtain ⟨p, hp, he⟩ := Option.map_eq_some_iff.mp h
          cases he
          simp [ih hp]
      · obtain ⟨p, hp, he⟩ := Option.map_eq_some_iff.mp h
        cases he
        simp [ih hp]

theorem length_splitReference {depth : Nat} {s inner after : List Char}
    (h : splitReference depth s = some (inner, after)) :
    s.length = inner.length + after.length + 1 := by
  simp [eq_append_of_splitReference h, Nat.add_assoc]

/-- The text with every reference replaced by the values it stands for. -/
def interpolate (scope : Scope) : List Char → List Char
  | [] => []
  | c :: rest =>
    if c = '\x7b' then
      match _h : splitReference 0 rest with
      | none => c :: rest
      | some (inner, after) =>
        let target := Reference.ofText (interpolate scope inner)
        (displayAll " " (scope.get target.name)).toList ++ interpolate scope after
    else c :: interpolate scope rest
termination_by s => s.length
decreasing_by
  · have h := length_splitReference _h
    simp only [List.length_cons]
    omega
  · have h := length_splitReference _h
    simp only [List.length_cons]
    omega
  · simp

end Scope

end CallScript

import CallScript.Error

/-!
# Evaluated arguments

What a function is given when it runs: the values of every bound parameter, by name, in the order
in which the call bound them. A parameter that the call did not bind is absent, which a function
can tell from one that is bound to no values.

What setting a parameter changes is said by `names_insert` and `get_insert`.
-/

namespace CallScript

/-- The evaluated arguments of one run of a function. -/
structure Bundle where
  entries : List (String × List Value) := []
  deriving DecidableEq

namespace Bundle

/-- Sets the values of a parameter: in its place if it is there already, else at the end. -/
def insert (bundle : Bundle) (name : String) (values : List Value) : Bundle :=
  if bundle.entries.any fun entry => entry.1 = name then
    ⟨bundle.entries.map fun entry => if entry.1 = name then (name, values) else entry⟩
  else ⟨bundle.entries ++ [(name, values)]⟩

/-- All values of a parameter, none if it is absent. -/
def get (bundle : Bundle) (name : String) : List Value :=
  match bundle.entries.find? fun entry => entry.1 = name with
  | some entry => entry.2
  | none => []

/-- The first value of a parameter. -/
def single? (bundle : Bundle) (name : String) : Option Value := (bundle.get name).head?

/-- Whether a parameter is bound. -/
def contains (bundle : Bundle) (name : String) : Bool :=
  bundle.entries.any fun entry => entry.1 = name

/-- The bound parameters, in order. -/
def names (bundle : Bundle) : List String := bundle.entries.map Prod.fst

/-- The number of bound parameters. -/
def size (bundle : Bundle) : Nat := bundle.entries.length

/-- The first value of a parameter, which must be a number. `callee` is named in the error. -/
def number (bundle : Bundle) (callee name : String) : Except RunError Float :=
  match bundle.single? name with
  | none => .error (.missingValue callee name)
  | some v =>
    match v.number? with
    | some x => .ok x
    | none => .error (.notANumber callee v)

/-- The first value of a parameter as a text. `callee` is named in the error. -/
def text (bundle : Bundle) (callee name : String) : Except RunError String :=
  match bundle.single? name with
  | none => .error (.missingValue callee name)
  | some v => .ok v.display

/-! ## What a bundle holds after a parameter was set -/

/-- A parameter is bound if its name is among those of the bundle. -/
theorem contains_iff {bundle : Bundle} {name : String} :
    bundle.contains name = true ↔ name ∈ bundle.names := by
  simp [contains, names]

/-- Setting a parameter adds its name at the end unless it is there already. -/
theorem names_insert (bundle : Bundle) (name : String) (values : List Value) :
    (bundle.insert name values).names =
      if name ∈ bundle.names then bundle.names else bundle.names ++ [name] := by
  have hmem : name ∈ bundle.names ↔ bundle.entries.any (fun entry => entry.1 = name) = true :=
    contains_iff.symm
  rw [insert]
  by_cases h : name ∈ bundle.names
  · rw [if_pos h, if_pos (hmem.mp h)]
    simp only [names, List.map_map]
    refine List.map_congr_left fun entry _ => ?_
    by_cases he : entry.1 = name
    · simp [he]
    · simp [he]
  · rw [if_neg h, if_neg fun ha => h (hmem.mpr ha)]
    simp [names]

/-- A parameter has the values it was set to last. -/
theorem get_insert (bundle : Bundle) (name other : String) (values : List Value) :
    (bundle.insert name values).get other =
      if other = name then values else bundle.get other := by
  obtain ⟨entries⟩ := bundle
  have found : ∀ entries : List (String × List Value),
      (Bundle.mk (entries.map fun entry =>
          if entry.1 = name then (name, values) else entry)).get other =
        if other = name then
          if entries.any (fun entry => entry.1 = name) then values else []
        else (Bundle.mk entries).get other := by
    intro entries
    induction entries with
    | nil => simp [get]
    | cons entry rest ih =>
      obtain ⟨key, old⟩ := entry
      simp only [get, List.map_cons, List.find?_cons, List.any_cons] at ih ⊢
      by_cases he : key = name
      · subst he
        by_cases ho : other = key
        · simp [ho]
        · have : ¬key = other := fun e => ho e.symm
          simpa [ho, this] using ih
      · by_cases ho : other = name
        · subst ho
          simp only [he, decide_false, Bool.false_or, ↓reduceIte] at ih ⊢
          exact ih
        · by_cases hn : key = other
          · simp [hn, ho]
          · simpa [he, ho, hn] using ih
  rw [insert]
  by_cases h : entries.any (fun entry => entry.1 = name) = true
  · rw [if_pos h]
    simpa [h] using found entries
  · rw [if_neg h]
    simp only [get, List.find?_append]
    by_cases ho : other = name
    · have hnone : entries.find? (fun entry => entry.1 = name) = none :=
        List.find?_eq_none.mpr fun e he hd => h (List.any_eq_true.mpr ⟨e, he, hd⟩)
      simp [ho, hnone]
    · have : ¬name = other := fun e => ho e.symm
      rw [if_neg ho]
      cases hf : entries.find? (fun entry => entry.1 = other) <;> simp [this]

end Bundle

end CallScript

/-!
# References to variables

A script refers to a variable by its name between braces. The name may carry the mark `::*` at
its end, which asks for all values of the variable rather than the first.
-/

namespace CallScript

/-- The mark that asks for all values of a variable. -/
def listMark : List Char := [':', ':', '*']

/-- A text without the mark `::*`, if it ends in it. -/
def stripListMark? (s : List Char) : Option (List Char) :=
  if listMark.isSuffixOf s then some (s.take (s.length - listMark.length)) else none

/-- The name of a variable, and whether all its values are meant or only the first. -/
structure Reference where
  name : String
  all : Bool
  deriving DecidableEq, Repr

/-- The reference that is written between a pair of braces. -/
def Reference.ofText (s : List Char) : Reference :=
  match stripListMark? s with
  | some name => ⟨String.ofList name, true⟩
  | none => ⟨String.ofList s, false⟩

/-- Whether an expression may refer to the variable: its name is not empty and holds neither a
brace nor a quote. -/
def Reference.isWritable (r : Reference) : Bool :=
  let name := r.name.toList
  !name.isEmpty && name.all fun c => c ≠ '\x7b' && c ≠ '\x7d' && c ≠ '"'

end CallScript

import CallScript.Function

/-!
# Built-in functions on texts

`join` puts texts together, `length` counts characters, `strpos` finds a part of a text and
`substr` cuts one out. Positions count characters from zero.

The three that deal with positions agree: where `strpos` finds a needle, `substr` of the needle's
length gives the needle back. They do so because all of them see a text as its list of characters
(`firstIndex?`, `slice`). `substr` takes whatever positions it is given: what it cuts out begins and
ends within the text (`bounds`).
-/

namespace CallScript.Builtin

/-- The least position, counted from `index`, at which `needle` starts in a list. -/
def indexFrom? {α : Type} [BEq α] (needle : List α) (index : Nat) : List α → Option Nat
  | [] => if needle.isEmpty then some index else none
  | c :: rest =>
    if needle.isPrefixOf (c :: rest) then some index else indexFrom? needle (index + 1) rest

/-- The least position at which `needle` starts in a list. -/
def firstIndex? {α : Type} [BEq α] (needle text : List α) : Option Nat := indexFrom? needle 0 text

/-- The greatest position. What lies beyond counts as it. -/
def greatestIndex : Nat := Number.twoPow 64 - 1

/-- Where the part of a text of `size` characters begins and ends that is asked for from `start` on,
`length` characters long, or up to the end. -/
def bounds (size start : Nat) (length : Option Nat) : Nat × Nat :=
  let first := min start size
  match length with
  | none => (first, size)
  | some n => (first, min (min (first + n) greatestIndex) size)

/-- The part of a text that is asked for from `start` on, `length` characters long, or up to the
end. -/
def slice (start : Nat) (length : Option Nat) (text : List Char) : List Char :=
  let (first, last) := bounds text.length start length
  text.extract first last

/-- A number as a position or a length: a whole number that is not negative. One that is too
large for 64 bits counts as the largest that is not. -/
def index (callee role : String) (x : Float) : Except RunError Nat :=
  if x < 0 || !Number.isWhole x then .error (.notAnIndex callee x role)
  else .ok (Number.toIntWithin 0 greatestIndex x).toNat

/-- `join(values, delimiter)`: the texts with the delimiter between them, a space if there is
none. -/
def join : Function :=
  .ofPure
    { space := "", name := "join",
      parameters := [⟨"values", .text, false, false⟩, ⟨"delimiter", .text, true, true⟩],
      returns := some .text, single := true }
    fun arguments =>
      let delimiter := ((arguments.single? "delimiter").map Value.display).getD " "
      .ok [.text (displayAll delimiter (arguments.get "values"))]

/-- `length(text)`: how many characters a text has. -/
def length : Function :=
  .ofPure
    { space := "", name := "length", parameters := [⟨"text", .text, true, false⟩],
      returns := some .number, single := true }
    fun arguments => do
      let text ← arguments.text "length" "text"
      .ok [.number (Float.ofNat text.length)]

/-- `strpos(text, needle)`: where the needle first occurs in the text, or -1. -/
def strpos : Function :=
  .ofPure
    { space := "", name := "strpos",
      parameters := [⟨"text", .text, true, false⟩, ⟨"needle", .text, true, false⟩],
      returns := some .number, single := true }
    fun arguments => do
      let text ← arguments.text "strpos" "text"
      let needle ← arguments.text "strpos" "needle"
      match firstIndex? needle.toList text.toList with
      | some i => .ok [.number (Float.ofNat i)]
      | none => .ok [.number (-1)]

/-- `substr(text, start, length)`: the part of a text from a position on, up to its end if no
length is given. -/
def substr : Function :=
  .ofPure
    { space := "", name := "substr",
      parameters :=
        [⟨"text", .text, true, false⟩, ⟨"start", .number, true, false⟩,
          ⟨"length", .number, true, true⟩],
      returns := some .text, single := true }
    fun arguments => do
      let text ← arguments.text "substr" "text"
      let start ← index "substr" "start index" (← arguments.number "substr" "start")
      let length ←
        if arguments.contains "length" then
          some <$> index "substr" "length" (← arguments.number "substr" "length")
        else pure none
      .ok [.text (String.ofList (slice start length text.toList))]

end CallScript.Builtin

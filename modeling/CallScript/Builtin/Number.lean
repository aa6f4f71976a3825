import CallScript.Arithmetic
import CallScript.Function

/-!
# Built-in functions on numbers

`math` evaluates an arithmetic text, `floor` rounds down, `random` draws an integer, `range` lists
the whole numbers between two others, and `count` counts the values it is given.
-/

namespace CallScript.Builtin

/-- `count(values)`: how many values there are. -/
def count : Function :=
  .ofPure
    { space := "", name := "count", parameters := [⟨"values", .any, false, false⟩],
      returns := some .number, single := true }
    fun arguments => .ok [.number (Float.ofNat (arguments.get "values").length)]

/-- `math(expression)`: the value of an arithmetic text. -/
def math : Function :=
  .ofPure
    { space := "", name := "math", parameters := [⟨"expression", .text, true, false⟩],
      returns := some .number, single := true }
    fun arguments => do
      let text ← arguments.text "math" "expression"
      let x ← (Arithmetic.evaluate text.toList).mapError (RunError.arithmetic "math")
      .ok [.number x]

/-- `floor(n)`: the greatest whole number not above `n`. -/
def floor : Function :=
  .ofPure
    { space := "", name := "floor", parameters := [⟨"n", .number, true, false⟩],
      returns := some .number, single := true }
    fun arguments => do
      let x ← arguments.number "floor" "n"
      .ok [.number (Number.floor x)]

/-- The greatest integer that `random` draws. -/
def greatestDraw : Int := (Number.twoPow 63 : Int) - 1

/-- One end of the range to draw from: a whole number, held within 64 bits with a sign. -/
def drawBound (arguments : Bundle) (name : String) (standard : Int) : Except RunError Int :=
  if arguments.contains name then do
    let x ← arguments.number "random" name
    if Number.isWhole x then .ok (Number.toIntWithin (-greatestDraw - 1) greatestDraw x)
    else .error (.notAnInteger "random" x)
  else .ok standard

/-- The range to draw from, which must not be empty. -/
def drawBounds (arguments : Bundle) : Except RunError (Int × Int) := do
  let greatest ← drawBound arguments "max" greatestDraw
  let least ← drawBound arguments "min" 0
  if greatest < least then .error (.emptyRange "random" least greatest) else .ok (least, greatest)

/-- `random(max, min)`: an integer between the two, both included. -/
def random : Function :=
  .simple
    { space := "", name := "random",
      parameters := [⟨"max", .number, true, true⟩, ⟨"min", .number, true, true⟩],
      returns := some .number, single := true }
    fun arguments _ =>
      match drawBounds arguments with
      | .error e => .done (.error (.run e))
      | .ok (least, greatest) =>
        .draw least greatest fun n => .done (.ok [.number (Float.ofInt n)])

/-- How many numbers a range may have. -/
def longestRange : Float := 1000000

/-- The whole numbers from `start` to `stop`, both included, upwards or downwards. -/
def rangeValues (start stop : Float) : Except RunError (List Value) :=
  let distance := (stop - start).abs
  if start.isFinite && stop.isFinite && distance < longestRange then
    let step : Float := if start ≤ stop then 1 else -1
    let size := (Number.toIntWithin 0 ((Number.twoPow 64 : Int) - 1) distance).toNat + 1
    .ok ((List.range size).map fun i => .number (start + step * Float.ofNat i))
  else .error (.tooLong "range" start stop)

/-- `range(start, end)`: the whole numbers from the one to the other, each rounded first. -/
def range : Function :=
  .ofPure
    { space := "", name := "range",
      parameters := [⟨"start", .number, true, false⟩, ⟨"end", .number, true, false⟩],
      returns := some .number, single := false }
    fun arguments => do
      let start ← arguments.number "range" "start"
      let stop ← arguments.number "range" "end"
      rangeValues (Number.round start) (Number.round stop)

end CallScript.Builtin

import CallScript.Number.Binary

/-!
# The shortest text of a number

A number is written with the fewest decimal digits that read back as the same number; of two
texts with as many digits the one nearer to the number is taken, and of two that are equally
near the larger. The text is always positional: an integer has no point, a fraction has digits
on both sides of it, and there is never an exponent.

The search is exact. A finite number is `m · 2 ^ q`, and that is `m · s · 10 ^ t` for whole
numbers `s` and `t ≤ 0`. The reals that round to it form the interval between the midpoints to
its two neighbours, which on the same scale, taken four times as fine, are whole numbers too
(`Interval`); the ends belong to it iff `m` is even. On the grid of the decimals with `n` digits
only the two points around the number can be nearest, so it is enough to look at those, for
`n = 1, 2, …, 17` in turn.
-/

namespace CallScript.Number

/-- A finite number beside the interval of reals that round to it, all in units of
`10 ^ exponent / 4`. -/
structure Interval where
  low : Nat
  value : Nat
  high : Nat
  isClosed : Bool
  exponent : Int
  deriving DecidableEq, Repr

/-- The interval of `m · 2 ^ q`. Below a power of two the neighbour is only half as far away,
unless the exponent is least already. -/
def Interval.ofDyadic (m : Nat) (q : Int) : Interval :=
  let scale := if 0 ≤ q then twoPow q.toNat else Nat.pow 5 (-q).toNat
  let below := if m = twoPow 52 ∧ -1074 < q then 1 else 2
  { low := (4 * m - below) * scale
    value := 4 * m * scale
    high := (4 * m + 2) * scale
    isClosed := m % 2 = 0
    exponent := min q 0 }

/-- Whether the interval holds `c` units of `10 ^ exponent`. -/
def Interval.holds (i : Interval) (c : Nat) : Bool :=
  if i.isClosed then i.low ≤ 4 * c && 4 * c ≤ i.high else i.low < 4 * c && 4 * c < i.high

/-- The decimal digits of a number, the first one first. -/
def digitsOf (n : Nat) : List Char := Nat.toDigits 10 n

/-- A decimal: `coefficient · 10 ^ exponent`. -/
structure Decimal where
  coefficient : Nat
  exponent : Int
  deriving DecidableEq, Repr

/-- Of the two grid points around the value, `c` and `c + 1` times `10 ^ drop`, the one that lies
in the interval and is nearest; of two equally near ones the larger. -/
def Interval.nearest? (i : Interval) (drop : Nat) : Option Decimal :=
  let unit := Nat.pow 10 drop
  let c := i.value / (4 * unit)
  let below := c * unit
  let above := (c + 1) * unit
  let found : Nat → Option Decimal := fun n => some ⟨n, i.exponent + drop⟩
  if i.holds below then
    if i.holds above && 4 * above - i.value ≤ i.value - 4 * below then found (c + 1) else found c
  else if i.holds above then found (c + 1)
  else none

/-- The shortest decimal in the interval: the first grid that has a point in it decides. With 17
digits there always is one; the exact value stands in for the rest. -/
def Interval.shortest (i : Interval) : Decimal :=
  let size := (digitsOf (i.value / 4)).length
  let found := (List.range 17).findSome? fun n =>
    if n + 1 < size then i.nearest? (size - (n + 1)) else some ⟨i.value / 4, i.exponent⟩
  found.getD ⟨i.value / 4, i.exponent⟩

/-- The digits without the zeros at their end, which move into the exponent. -/
def dropZeros (digits : List Char) (exponent : Int) : List Char × Int :=
  let kept := (digits.reverse.dropWhile (· = '0')).reverse
  (kept, exponent + (digits.length - kept.length : Nat))

/-- A positive decimal in positional notation. -/
def Decimal.text (d : Decimal) : List Char :=
  let (digits, exponent) := dropZeros (digitsOf d.coefficient) d.exponent
  if 0 ≤ exponent then digits ++ List.replicate exponent.toNat '0'
  else
    let places := (-exponent).toNat
    let whole := digits.length - places
    if digits.length ≤ places then
      '0' :: '.' :: (List.replicate (places - digits.length) '0' ++ digits)
    else digits.take whole ++ '.' :: digits.drop whole

/-- The shortest text of a number. A negative zero is `-0`, and what is not a finite number is
`NaN`, `inf` or `-inf`. -/
def shortestText (x : Float) : String :=
  let sign (negative : Bool) (s : List Char) := String.ofList (if negative then '-' :: s else s)
  match read x with
  | .notANumber => "NaN"
  | .infinite negative => sign negative ['i', 'n', 'f']
  | .finite negative m q =>
    if m = 0 then sign negative ['0'] else sign negative (Interval.ofDyadic m q).shortest.text

end CallScript.Number

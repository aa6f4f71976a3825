/-!
# Numbers as exact binary fractions

A number is an IEEE double, and its 64 bits say exactly which one: not a number, an infinity,
or a sign, a mantissa `m` and an exponent `q` that stand for `± m · 2 ^ q`. Reading the bits
this way (`read`) turns the questions a script asks of a number into integer arithmetic: is it
whole, what is its integral part, which whole number is nearest, what does it leave when
divided by another. None of these rounds, so none of them hangs on an order of operations.

Arithmetic that does round (`+`, `-`, `*`, `/`) is that of `Float`.
-/

namespace CallScript.Number

/-- The `n`-th power of two. -/
def twoPow (n : Nat) : Nat := Nat.pow 2 n

/-- What the bits of a number stand for. -/
inductive Reading where
  | notANumber
  | infinite (negative : Bool)
  | finite (negative : Bool) (mantissa : Nat) (exponent : Int)
  deriving DecidableEq, Repr

/-- The reading of a number. Numbers below `2 ^ -1022` share the least exponent and have no
leading one. -/
def read (x : Float) : Reading :=
  let bits := x.toBits.toNat
  let negative := decide (twoPow 63 ≤ bits)
  let exponent : Nat := bits / twoPow 52 % twoPow 11
  let fraction := bits % twoPow 52
  if exponent = 2047 then
    if fraction = 0 then .infinite negative else .notANumber
  else if exponent = 0 then .finite negative fraction (-1074)
  else .finite negative (twoPow 52 + fraction) ((exponent : Int) - 1075)

/-- Positive infinity. -/
def infinity : Float := Float.ofBits 0x7FF0000000000000

/-- The value that is not a number. -/
def notANumber : Float := Float.ofBits 0x7FF8000000000000

/-- The number `± m · 2 ^ q`, for `m < 2 ^ 53` and `q ≥ -1074` small enough not to overflow: the
mantissa moves left until it has 53 bits or the exponent is least. -/
def ofDyadic (negative : Bool) (m : Nat) (q : Int) : Float :=
  let shift := min (52 - m.log2) (q + 1074).toNat
  let mantissa := m * twoPow shift
  let exponent := (q - shift + 1075).toNat
  let magnitude :=
    if mantissa < twoPow 52 then mantissa else exponent * twoPow 52 + (mantissa - twoPow 52)
  Float.ofBits (UInt64.ofNat (if negative then twoPow 63 + magnitude else magnitude))

/-- The integral part of `m · 2 ^ q`. -/
def wholePart (m : Nat) (q : Int) : Nat :=
  if 0 ≤ q then m * twoPow q.toNat else m / twoPow (-q).toNat

/-- Whether `m · 2 ^ q` is a whole number. -/
def isWholeDyadic (m : Nat) (q : Int) : Bool :=
  0 ≤ q || m % twoPow (-q).toNat = 0

/-- Whether a number is finite and has no fractional part. -/
def isWhole (x : Float) : Bool :=
  match read x with
  | .finite _ m q => isWholeDyadic m q
  | _ => false

/-- An integer with the sign of a number read as `negative`. -/
def signed (negative : Bool) (n : Nat) : Int := if negative then -(n : Int) else n

/-- The integer that a number is, if it is one. -/
def whole? (x : Float) : Option Int :=
  match read x with
  | .finite negative m q =>
    if isWholeDyadic m q then some (signed negative (wholePart m q)) else none
  | _ => none

/-- The greatest whole number not above `x`. A number without a fractional part, and one that
is not finite, stays as it is, so the floor of `-0` keeps its sign. -/
def floor (x : Float) : Float :=
  match read x with
  | .finite negative m q =>
    if isWholeDyadic m q then x
    else if negative then -(Float.ofNat (wholePart m q + 1)) else Float.ofNat (wholePart m q)
  | _ => x

/-- The whole number nearest to `x`; a half goes away from zero. The sign stays, also that of a
zero. -/
def round (x : Float) : Float :=
  match read x with
  | .finite negative m q =>
    if isWholeDyadic m q then x
    else
      let nearest := Float.ofNat ((wholePart m (q + 1) + 1) / 2)
      if negative then -nearest else nearest
  | _ => x

/-- The exact remainder of `x` by `y`, with the sign of `x`: what is left of `x` when `y` has been
taken away from its magnitude as often as it goes. -/
def remainder (x y : Float) : Float :=
  match read x, read y with
  | .finite negative m q, .finite _ n r =>
    if n = 0 then notANumber
    else
      let least := min q r
      let left := m * twoPow (q - least).toNat % (n * twoPow (r - least).toNat)
      ofDyadic negative left least
  | .finite .., .infinite _ => x
  | _, _ => notANumber

/-- The integral part of `x`, held between `lo` and `hi`; zero for what is not a number. -/
def toIntWithin (lo hi : Int) (x : Float) : Int :=
  match read x with
  | .notANumber => 0
  | .infinite negative => if negative then lo else hi
  | .finite negative m q => max lo (min hi (signed negative (wholePart m q)))

end CallScript.Number

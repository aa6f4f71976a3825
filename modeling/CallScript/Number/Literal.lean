import CallScript.Number.Binary

/-!
# Reading a number

The text of a number is an optional sign and then digits with at most one point among them and
at least one digit, with an optional exponent: `e` or `E`, an optional sign and digits. The words
`inf`, `infinity` and `nan`, in any case, are read too, but no script can write them: a literal
is a text that reads as a *finite* number (`readFinite?`), and a decimal too large for a double
reads as an infinity.

A decimal is read exactly as an integer and a power of ten, and rounded once.
-/

namespace CallScript.Number

/-- The number that a run of digits writes. -/
def digitsValue (digits : List Char) : Nat :=
  digits.foldl (fun n c => 10 * n + (c.toNat - '0'.toNat)) 0

/-- The double nearest to `m · 10 ^ e`. -/
def ofDecimal (m : Nat) (e : Int) : Float := Float.ofScientific m (e < 0) e.natAbs

/-- An exponent after its letter: an optional sign and at least one digit. -/
def readExponent? : List Char → Option Int
  | '-' :: digits => if digits.isEmpty || !digits.all Char.isDigit then none
      else some (-(digitsValue digits : Int))
  | '+' :: digits => if digits.isEmpty || !digits.all Char.isDigit then none
      else some (digitsValue digits)
  | digits => if digits.isEmpty || !digits.all Char.isDigit then none
      else some (digitsValue digits)

/-- The digits after a point, if there is one, and what follows them. -/
def splitFraction : List Char → List Char × List Char
  | '.' :: rest => (rest.takeWhile Char.isDigit, rest.dropWhile Char.isDigit)
  | rest => ([], rest)

/-- A decimal without a sign. -/
def readDecimal? (s : List Char) : Option Float :=
  let whole := s.takeWhile Char.isDigit
  let (fraction, rest) := splitFraction (s.dropWhile Char.isDigit)
  let mantissa := digitsValue (whole ++ fraction)
  if whole.isEmpty && fraction.isEmpty then none
  else match rest with
    | [] => some (ofDecimal mantissa (-(fraction.length : Int)))
    | c :: exponent =>
      if c = 'e' || c = 'E' then
        (readExponent? exponent).map fun e => ofDecimal mantissa (e - fraction.length)
      else none

/-- A number without a sign: a decimal, or one of the words for what is not finite. -/
def readUnsigned? (s : List Char) : Option Float :=
  let word := s.map Char.toLower
  if word = ['i', 'n', 'f'] || word = ['i', 'n', 'f', 'i', 'n', 'i', 't', 'y'] then some infinity
  else if word = ['n', 'a', 'n'] then some notANumber
  else readDecimal? s

/-- The number that the whole of a text writes. -/
def read? : List Char → Option Float
  | '-' :: s => (readUnsigned? s).map Float.neg
  | '+' :: s => readUnsigned? s
  | s => readUnsigned? s

/-- The finite number that the whole of a text writes: what counts as a literal. -/
def readFinite? (s : List Char) : Option Float := (read? s).filter Float.isFinite

end CallScript.Number

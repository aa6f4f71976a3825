import CallScript.Error
import CallScript.Number.Binary
import CallScript.Number.Literal

/-!
# Arithmetic

An arithmetic text is a sum of products of signed numbers and sums in parentheses:

* a *sum* is products joined by `+` and `-`;
* a *product* is unaries joined by `*`, `/` and `%`;
* a *unary* is a primary, with at most one sign in front;
* a *primary* is a sum in parentheses, or a run of digits and points that reads as a number.

Both kinds of operator associate to the left, and blanks may stand before every token and at the
end. Parentheses nest at most 128 deep; those side by side do not add up. Dividing by zero, or
taking a remainder by it, is an error, which is noticed before anything that follows it is read.

Each of the four kinds is read by a function of its own, which gives the value and the text after
it. The rest comes with the proof that it is shorter, or not longer, and the recursion follows
that.
-/

namespace CallScript.Arithmetic

/-- How deep parentheses may nest. -/
def maxNesting : Nat := 128

/-- The result of reading some of `s`, and what is left of it, which is shorter. -/
abbrev Step (s : List Char) :=
  Except ArithmeticError (Float × { rest : List Char // rest.length < s.length })

/-- The result of reading on at `s`, possibly nothing, and what is left of it. -/
abbrev Tail (s : List Char) :=
  Except ArithmeticError (Float × { rest : List Char // rest.length ≤ s.length })

/-- A run of digits and points at the start of a text. -/
def isLiteralChar (c : Char) : Bool := c.isDigit || c = '.'

/-- A number at the start of a text without blanks before it. -/
def literal (s : List Char) : Step s :=
  match h : s.takeWhile isLiteralChar with
  | [] => .error (.noNumber s.head?)
  | c :: digits =>
    match Number.readDecimal? (c :: digits) with
    | none => .error (.badLiteral (String.ofList (c :: digits)))
    | some x => .ok (x, ⟨s.dropWhile isLiteralChar, by
        have := congrArg List.length (List.takeWhile_append_dropWhile (p := isLiteralChar) (l := s))
        simp only [h, List.length_append, List.length_cons] at this
        omega⟩)

/-- The value of two numbers joined by an operator of a product. -/
def multiply (operator : Char) (x y : Float) : Except ArithmeticError Float :=
  if operator = '*' then .ok (x * y)
  else if y == 0 then .error (if operator = '/' then .divisionByZero else .moduloByZero)
  else if operator = '/' then .ok (x / y)
  else .ok (Number.remainder x y)

mutual

/-- A sum, inside `nesting` parentheses. -/
def sum (nesting : Nat) (s : List Char) : Step s := do
  let (x, ⟨rest, h⟩) ← product nesting s
  let (y, ⟨rest', h'⟩) ← sumTail nesting x rest
  .ok (y, ⟨rest', Nat.lt_of_le_of_lt h' h⟩)
termination_by 5 * s.length + 4

/-- What is added to `x`, or taken away from it. -/
def sumTail (nesting : Nat) (x : Float) (s : List Char) : Tail s :=
  match h : Text.trimStart s with
  | [] => .ok (x, ⟨[], Nat.zero_le _⟩)
  | c :: rest =>
    have hle : rest.length + 1 ≤ s.length := by
      have := Text.length_trimStart_le s
      rwa [h] at this
    if c = '+' || c = '-' then do
      let (y, ⟨rest', h'⟩) ← product nesting rest
      let (z, ⟨rest'', h''⟩) ← sumTail nesting (if c = '+' then x + y else x - y) rest'
      .ok (z, ⟨rest'', by omega⟩)
    else .ok (x, ⟨c :: rest, hle⟩)
termination_by 5 * s.length + 0

/-- A product, inside `nesting` parentheses. -/
def product (nesting : Nat) (s : List Char) : Step s := do
  let (x, ⟨rest, h⟩) ← unary nesting s
  let (y, ⟨rest', h'⟩) ← productTail nesting x rest
  .ok (y, ⟨rest', Nat.lt_of_le_of_lt h' h⟩)
termination_by 5 * s.length + 3

/-- What `x` is multiplied with, or divided by. -/
def productTail (nesting : Nat) (x : Float) (s : List Char) : Tail s :=
  match h : Text.trimStart s with
  | [] => .ok (x, ⟨[], Nat.zero_le _⟩)
  | c :: rest =>
    have hle : rest.length + 1 ≤ s.length := by
      have := Text.length_trimStart_le s
      rwa [h] at this
    if c = '*' || c = '/' || c = '%' then do
      let (y, ⟨rest', h'⟩) ← unary nesting rest
      let z ← multiply c x y
      let (w, ⟨rest'', h''⟩) ← productTail nesting z rest'
      .ok (w, ⟨rest'', by omega⟩)
    else .ok (x, ⟨c :: rest, hle⟩)
termination_by 5 * s.length + 0

/-- A primary with at most one sign in front. -/
def unary (nesting : Nat) (s : List Char) : Step s :=
  match h : Text.trimStart s with
  | [] => .error (.noNumber none)
  | c :: rest =>
    have hle : rest.length + 1 ≤ s.length := by
      have := Text.length_trimStart_le s
      rwa [h] at this
    if c = '-' || c = '+' then do
      let (x, ⟨rest', h'⟩) ← primary nesting rest
      .ok (if c = '-' then -x else x, ⟨rest', by omega⟩)
    else do
      let (x, ⟨rest', h'⟩) ← primary nesting (c :: rest)
      .ok (x, ⟨rest', Nat.lt_of_lt_of_le h' hle⟩)
termination_by 5 * s.length + 2

/-- A sum in parentheses, or a number. -/
def primary (nesting : Nat) (s : List Char) : Step s :=
  match h : Text.trimStart s with
  | [] => .error (.noNumber none)
  | c :: rest =>
    have hle : rest.length + 1 ≤ s.length := by
      have := Text.length_trimStart_le s
      rwa [h] at this
    if c = '(' then
      if nesting = maxNesting then .error (.tooDeep maxNesting)
      else do
        let (x, ⟨rest', h'⟩) ← sum (nesting + 1) rest
        match h'' : Text.trimStart rest' with
        | [] => .error (.unclosed none)
        | d :: rest'' =>
          have hle' : rest''.length + 1 ≤ rest'.length := by
            have := Text.length_trimStart_le rest'
            rwa [h''] at this
          if d = ')' then .ok (x, ⟨rest'', by omega⟩) else .error (.unclosed (some d))
    else do
      let (x, ⟨rest', h'⟩) ← literal (c :: rest)
      .ok (x, ⟨rest', Nat.lt_of_lt_of_le h' hle⟩)
termination_by 5 * s.length + 1

end

/-- The value of an arithmetic text. -/
def evaluate (s : List Char) : Except ArithmeticError Float := do
  let (x, ⟨rest, _⟩) ← sum 0 s
  match Text.trimStart rest with
  | [] => .ok x
  | c :: _ => .error (.unexpected c)

end CallScript.Arithmetic

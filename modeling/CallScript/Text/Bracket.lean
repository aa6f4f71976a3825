/-!
# Where a bracket closes

Parentheses and braces nest, and a double quote hides them: inside quotes no bracket counts.
`closesAtEnd` answers the one question a reader of expressions asks: is the bracket that a text
opens closed by its very last character? The two kinds of bracket share one depth, so the
scan does not compare a closer with the opener it matches. The depth has no bounds: texts with 2^31
or more brackets open at once, for which 32 bits would not do, are left out.
-/

namespace CallScript.Text

/-- Reads on at bracket depth `depth`, inside quotes if `isQuoted`. The answer is known at the
first closer that brings the depth back to zero: it must be the last character. -/
def closesFrom (depth : Int) (isQuoted : Bool) : List Char → Bool
  | [] => false
  | c :: rest =>
    if c = '"' then closesFrom depth (!isQuoted) rest
    else if isQuoted then closesFrom depth isQuoted rest
    else if c = '(' ∨ c = '\x7b' then closesFrom (depth + 1) isQuoted rest
    else if c = ')' ∨ c = '\x7d' then
      if depth = 1 then rest.isEmpty else closesFrom (depth - 1) isQuoted rest
    else closesFrom depth isQuoted rest

/-- Whether the bracket that a text opens is closed by its last character. -/
def closesAtEnd (s : List Char) : Bool := closesFrom 0 false s

end CallScript.Text

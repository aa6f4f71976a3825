/-!
# Texts between double quotes

A text is written between double quotes with every quote inside it written twice. `unquote?`
reads the whole of a text as one such literal: it takes the two outer quotes away and pairs up
the inner ones, and a quote that stands alone makes the text no literal at all.
-/

namespace CallScript.Text

/-- Halves the quotes of a text; `none` if one of them stands alone. -/
def halveQuotes? : List Char → Option (List Char)
  | [] => some []
  | '"' :: '"' :: rest => (halveQuotes? rest).map ('"' :: ·)
  | c :: rest => if c = '"' then none else (halveQuotes? rest).map (c :: ·)

/-- The content of a text that is one literal between double quotes. -/
def unquote? : List Char → Option (List Char)
  | '"' :: rest => if rest.getLast? = some '"' then halveQuotes? rest.dropLast else none
  | _ => none

end CallScript.Text

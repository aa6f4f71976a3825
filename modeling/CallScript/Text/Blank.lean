/-!
# Blank characters and trimming

A text may be surrounded by *blank* characters, which mean nothing: the twenty-five
characters with the Unicode property `White_Space`. That set is wider than the one of
`Char.isWhitespace`, which knows ASCII only and leaves out form feed and vertical tab; every
character of the core class is blank (`isBlank_of_isWhitespace`).

Everything here works on `List Char`, the form in which the readers of this library look at a
text. The one fact they lean on is `length_trim_le`: trimming never makes a text longer, so a
reader that trims and then looks inside brackets still moves to a shorter text.
-/

namespace CallScript.Text

/-- Whether a character has the Unicode property `White_Space`. -/
def isBlank (c : Char) : Bool :=
  (9 ≤ c.toNat && c.toNat ≤ 13) || c.toNat = 0x20 || c.toNat = 0x85 || c.toNat = 0xA0 ||
    c.toNat = 0x1680 || (0x2000 ≤ c.toNat && c.toNat ≤ 0x200A) || c.toNat = 0x2028 ||
    c.toNat = 0x2029 || c.toNat = 0x202F || c.toNat = 0x205F || c.toNat = 0x3000

/-- The text without the blanks it starts with. -/
def trimStart (s : List Char) : List Char := s.dropWhile isBlank

/-- The text without the blanks it ends with. -/
def trimEnd (s : List Char) : List Char := (s.reverse.dropWhile isBlank).reverse

/-- The text without the blanks around it. -/
def trim (s : List Char) : List Char := trimEnd (trimStart s)

theorem isBlank_of_isWhitespace {c : Char} (h : c.isWhitespace = true) : isBlank c = true := by
  simp only [Char.isWhitespace, Bool.or_eq_true, decide_eq_true_eq, or_assoc] at h
  rcases h with rfl | rfl | rfl | rfl <;> decide

theorem length_trimStart_le (s : List Char) : (trimStart s).length ≤ s.length :=
  (List.dropWhile_sublist isBlank).length_le

theorem length_trimEnd_le (s : List Char) : (trimEnd s).length ≤ s.length := by
  simpa [trimEnd] using (List.dropWhile_sublist (l := s.reverse) isBlank).length_le

/-- Trimming never makes a text longer. -/
theorem length_trim_le (s : List Char) : (trim s).length ≤ s.length :=
  Nat.le_trans (length_trimEnd_le _) (length_trimStart_le s)

end CallScript.Text

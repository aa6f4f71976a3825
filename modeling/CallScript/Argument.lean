import CallScript.Text.Blank
import CallScript.Text.Letter

/-!
# Splitting an argument list

What is written between the parentheses of a call is one text. `tokenize` reads it once, from left
to right, cuts it at its *top-level* commas and finds out on the way whether each argument is
named.

A comma is at top level where the nesting before it is zero and no quote is open. The nesting is
one signed count: an opening bracket or an opening quote adds one, a closing bracket or a
closing quote takes one away, and brackets count inside quotes too. So a bracket that is never
closed hides every comma after it, and a stray closer does the same from below zero. Splitting
never fails; what is wrong with such a text shows when its arguments are read. The count has no
bounds here: texts of so many brackets that it leaves the 32-bit range, which takes 2^31 of them
open at once, are left out.

An argument is named if it starts, after blanks, with a word directly followed by a colon. While
it may still turn out to be named, the `Scanner` keeps the word beside the text; any other
character decides that it is not, and what was read so far starts its text. The fact that
recursion over texts needs is `length_text_le_of_mem_tokenize`: no argument is longer than the
list it was cut from.
-/

namespace CallScript

/-- One argument of a call, not yet read: its name, if one is written, and its text. -/
structure RawArgument where
  name : Option String
  text : String
  deriving DecidableEq, Repr, Inhabited

/-- How deep inside brackets and quotes a position is. -/
structure Nesting where
  depth : Int := 0
  isQuoted : Bool := false
  deriving DecidableEq, Repr

namespace Nesting

/-- The nesting after one more character. -/
def after (n : Nesting) (c : Char) : Nesting :=
  if c = '"' then
    if n.isQuoted then ⟨n.depth - 1, false⟩ else ⟨n.depth + 1, true⟩
  else if c = '(' ∨ c = '\x7b' then ⟨n.depth + 1, n.isQuoted⟩
  else if c = ')' ∨ c = '\x7d' then ⟨n.depth - 1, n.isQuoted⟩
  else n

/-- Whether a comma here separates two arguments. -/
def isTop (n : Nesting) : Bool := n.depth = 0 && !n.isQuoted

end Nesting

/-- What is decided about the argument that is being read. -/
inductive Phase where
  /-- Nothing yet: blanks and a word were read, which may turn out to be its name. -/
  | naming
  /-- It has no name. -/
  | positional
  /-- Its name and the colon were read. -/
  | named
  deriving DecidableEq, Repr

/-- How far an argument list was read: the arguments that are complete, and of the one being read
the word that may be its name and its text. All three are kept with the last part first. -/
structure Scanner where
  phase : Phase := .naming
  nesting : Nesting := {}
  name : List Char := []
  text : List Char := []
  arguments : List RawArgument := []

namespace Scanner

/-- Completes the argument, and starts with the next one. -/
def emit (scanner : Scanner) : Scanner :=
  let name :=
    if scanner.phase = .named then some (String.ofList (Text.trim scanner.name.reverse)) else none
  let argument : RawArgument := ⟨name, String.ofList (Text.trim scanner.text.reverse)⟩
  { nesting := scanner.nesting, arguments := argument :: scanner.arguments }

/-- Reads a character of the text of an argument, or the comma after it. -/
def read (scanner : Scanner) (c : Char) : Scanner :=
  if c = ',' && scanner.nesting.isTop then scanner.emit
  else { scanner with nesting := scanner.nesting.after c, text := c :: scanner.text }

/-- Reads a character. -/
def step (scanner : Scanner) (c : Char) : Scanner :=
  match scanner.phase with
  | .naming =>
    if Text.isWordChar c then
      { scanner with name := c :: scanner.name, text := c :: scanner.text }
    else if Text.isBlank c && scanner.name.isEmpty then
      { scanner with text := c :: scanner.text }
    else if c = ':' && scanner.nesting.depth = 0 && !scanner.name.isEmpty then
      { scanner with phase := .named, text := [] }
    else read { scanner with phase := .positional, name := [] } c
  | .positional => scanner.read c
  | .named => scanner.read c

/-- The scanner after a text. -/
def after (s : List Char) : Scanner := s.foldl step {}

end Scanner

/-- The arguments of an argument list. An empty list has none; any other has one more than it has
top-level commas. -/
def tokenize (raw : List Char) : List RawArgument :=
  if raw.isEmpty then [] else (Scanner.after raw).emit.arguments.reverse

/-! ## No argument is longer than its list -/

namespace Scanner

/-- No text that the scanner holds is longer than `n`. -/
def Within (n : Nat) (scanner : Scanner) : Prop :=
  scanner.text.length ≤ n ∧ ∀ a ∈ scanner.arguments, a.text.length ≤ n

theorem within_emit {n : Nat} {scanner : Scanner} (h : scanner.Within n) :
    scanner.emit.Within n := by
  refine ⟨Nat.zero_le n, fun a ha => ?_⟩
  rcases List.mem_cons.mp ha with rfl | ha
  · have hle := Text.length_trim_le scanner.text.reverse
    rw [List.length_reverse] at hle
    simpa using Nat.le_trans hle h.1
  · exact h.2 a ha

theorem within_read {n : Nat} {scanner : Scanner} (c : Char) (h : scanner.Within n) :
    (scanner.read c).Within (n + 1) := by
  have hsucc : ∀ a ∈ scanner.arguments, a.text.length ≤ n + 1 := fun a ha =>
    Nat.le_succ_of_le (h.2 a ha)
  rw [read]
  split
  · exact within_emit ⟨Nat.le_succ_of_le h.1, hsucc⟩
  · exact ⟨Nat.succ_le_succ h.1, hsucc⟩

theorem within_step {n : Nat} {scanner : Scanner} (c : Char) (h : scanner.Within n) :
    (scanner.step c).Within (n + 1) := by
  have hsucc : ∀ a ∈ scanner.arguments, a.text.length ≤ n + 1 := fun a ha =>
    Nat.le_succ_of_le (h.2 a ha)
  rw [step]
  split
  · split
    · exact ⟨Nat.succ_le_succ h.1, hsucc⟩
    · split
      · exact ⟨Nat.succ_le_succ h.1, hsucc⟩
      · split
        · exact ⟨Nat.zero_le _, hsucc⟩
        · exact within_read c h
  · exact within_read c h
  · exact within_read c h

theorem within_foldl {n : Nat} {scanner : Scanner} (s : List Char) (h : scanner.Within n) :
    (s.foldl step scanner).Within (n + s.length) := by
  induction s generalizing n scanner with
  | nil => exact h
  | cons c rest ih =>
    have hrest := ih (within_step c h)
    rwa [Nat.add_assoc, Nat.add_comm 1] at hrest

end Scanner

/-- No argument is longer than the list it was cut from. -/
theorem length_text_le_of_mem_tokenize {raw : List Char} {a : RawArgument}
    (h : a ∈ tokenize raw) : a.text.length ≤ raw.length := by
  have hstart : Scanner.Within 0 {} := ⟨Nat.le_refl 0, fun a ha => by simp at ha⟩
  have hraw := Scanner.within_emit (Scanner.within_foldl raw hstart)
  rw [Nat.zero_add] at hraw
  rw [tokenize] at h
  split at h
  · simp at h
  · exact hraw.2 a (List.mem_reverse.mp h)

/-- The length of the longest text among some arguments. -/
def longest (arguments : List RawArgument) : Nat :=
  arguments.foldr (fun a n => max a.text.length n) 0

theorem length_text_le_longest {arguments : List RawArgument} {a : RawArgument}
    (h : a ∈ arguments) : a.text.length ≤ longest arguments := by
  induction arguments with
  | nil => simp at h
  | cons b rest ih =>
    rw [longest, List.foldr_cons]
    rcases List.mem_cons.mp h with rfl | h
    · exact Nat.le_max_left _ _
    · exact Nat.le_trans (ih h) (Nat.le_max_right _ _)

theorem longest_le {arguments : List RawArgument} {n : Nat}
    (h : ∀ a ∈ arguments, a.text.length ≤ n) : longest arguments ≤ n := by
  induction arguments with
  | nil => exact Nat.zero_le n
  | cons b rest ih =>
    rw [longest, List.foldr_cons]
    exact Nat.max_le.mpr ⟨h b (by simp), ih fun a ha => h a (by simp [ha])⟩

end CallScript

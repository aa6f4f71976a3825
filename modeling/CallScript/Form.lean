import CallScript.Argument
import CallScript.Reference
import CallScript.Value
import CallScript.Text.Bracket
import CallScript.Text.Quotation

/-!
# What a text is

Before types come in, a text already shows what it is: a quoted text, a truth value, a number, a
variable between braces, a list between parentheses, or a call. The kinds are tried in this
order, and the first that fits decides. A `Form` records the answer. Reading never fails: a text
that is nothing of all this is the form `unreadable`, and so is a part of a list that is none,
which leaves it to the typing to say which part of a text is at fault first.

Forms know nothing of functions or wanted types, so a text has one form. Parentheses around one
item only group it, and the form of such a text is the form of the item. The arguments of a call
stay unread; they are read when the call is bound to a function.

The main fact is `reach_read_le`: whatever arguments are left unread in the form of a text are
shorter than the text.
-/

namespace CallScript

/-- What a text is on its outside. The content of a group, and of a call, is not yet looked at. -/
inductive Outline where
  | unreadable
  | text (content : String)
  | boolean (value : Bool)
  | number (value : Float)
  | reference (target : Reference)
  | group (inner : List Char)
  | call (name : String) (inner : List Char)

namespace Outline

/-- A number literal: a finite number whose text starts with a digit, a sign or a point. -/
def number? (s : List Char) : Option Float :=
  match s with
  | [] => none
  | c :: _ =>
    if c.isDigit || c = '-' || c = '+' || c = '.' then Number.readFinite? s else none

/-- A text that starts with neither a quote nor a bracket: a call if there is an identifier before
the first parenthesis, and that is closed by the last character. -/
def ofCall (s : List Char) : Outline :=
  let name := s.takeWhile (· ≠ '(')
  match s.dropWhile (· ≠ '(') with
  | [] => unreadable
  | c :: rest =>
    if Text.isIdentifier name && Text.closesAtEnd (c :: rest) then
      call (String.ofList name) rest.dropLast
    else unreadable

/-- A text that is no literal. -/
def ofBracketed : List Char → Outline
  | [] => unreadable
  | c :: rest =>
    if c = '\x7b' then
      let r := Reference.ofText rest.dropLast
      if Text.closesAtEnd (c :: rest) && r.isWritable then reference r
      else unreadable
    else if c = '(' then
      if Text.closesAtEnd (c :: rest) then group rest.dropLast else unreadable
    else ofCall (c :: rest)

/-- What a text without blanks around it is. -/
def ofText (s : List Char) : Outline :=
  match Text.unquote? s with
  | some content => text (String.ofList content)
  | none =>
    match Value.readBoolean? s with
    | some b => boolean b
    | none =>
      match number? s with
      | some x => number x
      | none => ofBracketed s

/-- What is still to be read inside an outline. -/
def inner : Outline → List Char
  | group s => s
  | call _ s => s
  | _ => []

/-- What is inside an outline is shorter than the text, unless there is nothing at all. -/
theorem length_inner_ofCall (s : List Char) : (ofCall s).inner.length ≤ s.length - 1 := by
  simp only [ofCall]
  split
  · simp [inner]
  · next c rest h =>
    split
    · have hle := (List.dropWhile_sublist (l := s) (· ≠ '(')).length_le
      rw [h, List.length_cons] at hle
      simp only [inner, List.length_dropLast]
      omega
    · simp [inner]

theorem length_inner_ofBracketed (s : List Char) :
    (ofBracketed s).inner.length ≤ s.length - 1 := by
  cases s with
  | nil => simp [ofBracketed, inner]
  | cons c rest =>
    simp only [ofBracketed]
    split
    · split <;> simp [inner]
    · split
      · split <;> simp [inner]
      · exact length_inner_ofCall (c :: rest)

/-- What is inside an outline is shorter than the text, unless there is nothing at all. -/
theorem length_inner_ofText (s : List Char) : (ofText s).inner.length ≤ s.length - 1 := by
  rw [ofText]
  split
  · simp [inner]
  · split
    · simp [inner]
    · split
      · simp [inner]
      · exact length_inner_ofBracketed s

/-- An empty text is nothing. -/
theorem ofText_nil : ofText [] = unreadable := by
  simp [ofText, Text.unquote?, Value.readBoolean?, number?, ofBracketed]

theorem length_pos_of_ofText {s : List Char} (h : ofText s ≠ unreadable) : 0 < s.length := by
  cases s with
  | nil => exact absurd ofText_nil h
  | cons _ _ => simp

end Outline

/-- What a text is, down to the calls in it. -/
inductive Form where
  | unreadable
  | text (content : String)
  | boolean (value : Bool)
  | number (value : Float)
  | reference (target : Reference)
  | list (items : List Form)
  | call (name : String) (arguments : List RawArgument)

namespace Form

/-- The form of items between parentheses: one item is only grouped. -/
def ofItems : List Form → Form
  | [item] => item
  | items => list items

/-- What a text is. The items of a list are separated like arguments, but none may have a name. -/
def read (raw : List Char) : Form :=
  match _h : Outline.ofText (Text.trim raw) with
  | .unreadable => unreadable
  | .text content => text content
  | .boolean value => boolean value
  | .number value => number value
  | .reference r => reference r
  | .call name inner => call name (tokenize inner)
  | .group inner =>
    if (tokenize inner).any fun item => item.name.isSome then unreadable
    else ofItems ((tokenize inner).attach.map fun item => read item.1.text.toList)
termination_by raw.length
decreasing_by
  have h₁ := Text.length_trim_le raw
  have h₂ := Outline.length_inner_ofText (Text.trim raw)
  have h₃ : 0 < (Text.trim raw).length := Outline.length_pos_of_ofText (by simp [_h])
  have h₄ := length_text_le_of_mem_tokenize item.2
  rw [_h] at h₂
  simp only [Outline.inner, String.length_toList] at *
  omega

/-- Reading a text, without the bookkeeping of its termination. -/
theorem read_eq (raw : List Char) :
    read raw = match Outline.ofText (Text.trim raw) with
      | .unreadable => unreadable
      | .text content => text content
      | .boolean value => boolean value
      | .number value => number value
      | .reference r => reference r
      | .call name inner => call name (tokenize inner)
      | .group inner =>
        if (tokenize inner).any fun item => item.name.isSome then unreadable
        else ofItems ((tokenize inner).map fun item => read item.text.toList) := by
  rw [read]
  split <;> simp_all

/-! ## The arguments of calls are shorter than the text -/

mutual

/-- A bound on the texts that are left unread in a form: one more than the longest of them, or
zero if there is no call. -/
def reach : Form → Nat
  | list items => reachAll items
  | call _ arguments => longest arguments + 1
  | _ => 0

/-- The greatest reach of some forms. -/
def reachAll : List Form → Nat
  | [] => 0
  | item :: items => max item.reach (reachAll items)

end

theorem reach_ofItems (items : List Form) : (ofItems items).reach = reachAll items := by
  rw [ofItems.eq_def]
  split
  · simp [reachAll]
  · simp [reach]

theorem reachAll_le {items : List Form} {n : Nat} (h : ∀ item ∈ items, item.reach ≤ n) :
    reachAll items ≤ n := by
  induction items with
  | nil => exact Nat.zero_le n
  | cons item items ih =>
    exact Nat.max_le.mpr ⟨h item (by simp), ih fun i hi => h i (by simp [hi])⟩

/-- Whatever arguments are left unread in the form of a text are shorter than the text. -/
theorem reach_read_le (raw : List Char) : (read raw).reach ≤ raw.length := by
  have hin := Outline.length_inner_ofText (Text.trim raw)
  have htrim := Text.length_trim_le raw
  rw [read_eq]
  split
  case h_6 name inner h =>
    rw [h] at hin
    have hpos : 0 < (Text.trim raw).length := Outline.length_pos_of_ofText (by simp [h])
    have := longest_le fun a (ha : a ∈ tokenize inner) => length_text_le_of_mem_tokenize ha
    simp only [Outline.inner, reach] at *
    omega
  case h_7 inner h =>
    rw [h] at hin
    have hpos : 0 < (Text.trim raw).length := Outline.length_pos_of_ofText (by simp [h])
    split
    · simp [reach]
    · rw [reach_ofItems]
      refine reachAll_le fun form hform => ?_
      obtain ⟨a, ha, rfl⟩ := List.mem_map.mp hform
      have hlen := length_text_le_of_mem_tokenize ha
      have hlt : a.text.toList.length < raw.length := by
        simp only [Outline.inner, String.length_toList] at *
        omega
      exact Nat.le_trans (reach_read_le a.text.toList) (Nat.le_of_lt hlt)
  all_goals simp [reach]
termination_by raw.length

end Form

end CallScript

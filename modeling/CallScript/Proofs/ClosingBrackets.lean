import Mathlib.Data.String.Basic
import CallScript.Proofs.Grammar

/-!
# What is cut out between brackets

The reader of expressions takes a text apart at its brackets: it drops the bracket in front and the
one at the end, and reads what is left. It may do so because of what `closesAtEnd` has found: behind
every character but the last a bracket is still open, and behind the last there is none
(`closesAtEnd_iff`). So the last character is a bracket, and it is not the one in front.

This matters most where a text is kept as bytes. A character takes up to four of them, so not every
two bytes have a part of the text between them: they may be out of order or beyond the end, or lie
within a character (`Text.bytes?`). `Outline.ofBytes?` is the reader that cuts by bytes, and so is
the search for the closing bracket that it relies on, `Text.closesByBytes`. Every part that it takes
is there, whatever characters a text is made of, and what it reads is what the reader of this
library does (`Outline.ofBytes?_eq`).
-/

namespace CallScript

open ArgumentList String

variable {s t : List Char}

namespace Text

/-! ## Parts of a text -/

/-- The part of a text from one byte up to another. There is none if the bytes are out of order, or
if one of them is beyond the end or within a character. -/
def bytes? (text : String) (start stop : Nat) : Option (List Char) :=
  if start ≤ stop ∧ Pos.Raw.isValid text ⟨start⟩ ∧ Pos.Raw.isValid text ⟨stop⟩ then
    some (Pos.Raw.extract text ⟨start⟩ ⟨stop⟩).toList
  else none

theorem isValid_utf8Len (front rest : List Char) :
    Pos.Raw.isValid (ofList (front ++ rest)) ⟨utf8Len front⟩ = true := by
  refine Pos.Raw.isValid_eq_true_iff.mpr (Pos.Raw.isValid_iff_exists_append.mpr ?_)
  exact ⟨ofList front, ofList rest, ofList_append, Pos.Raw.ext (utf8ByteSize_ofList front).symm⟩

/-- The bytes before a part and behind it lie between characters. -/
theorem bytes?_append (front part rest : List Char) :
    bytes? (ofList (front ++ part ++ rest)) (utf8Len front) (utf8Len front + utf8Len part) =
      some part := by
  have hstart := isValid_utf8Len front (part ++ rest)
  have hstop := isValid_utf8Len (front ++ part) rest
  rw [← List.append_assoc] at hstart
  rw [utf8Len_append] at hstop
  rw [bytes?, if_pos ⟨Nat.le_add_right .., hstart, hstop⟩, extract_of_valid, toList_ofList]

/-! ## The closing bracket -/

/-- The search after one more character: it ends where no bracket is left open. -/
theorem closesFrom_step {d : Int} (hd : 1 ≤ d) (quoted : Bool) (c : Char) (s : List Char) :
    closesFrom d quoted (c :: s) =
      if d + openBrackets false quoted [c] = 0 then s.isEmpty
      else closesFrom (d + openBrackets false quoted [c]) (quoted != isQuoted [c]) s := by
  rw [closesFrom]
  by_cases hq : c = '"'
  · have hne : d ≠ 0 := by omega
    subst hq
    simp [openBrackets, isQuoted, hne]
  · have hquoted : (quoted != isQuoted [c]) = quoted := by simp [isQuoted, hq]
    rw [if_neg hq, hquoted, openBrackets, if_neg hq, openBrackets, Int.add_zero]
    have hne : d ≠ 0 := by omega
    cases quoted with
    | true => simp [hne]
    | false =>
      simp only [bracketWeight, Bool.false_eq_true, if_false, if_true]
      by_cases hopen : c = '(' ∨ c = '\x7b'
      · rw [if_pos hopen, if_pos hopen, if_neg (by omega)]
      · rw [if_neg hopen, if_neg hopen]
        by_cases hclose : c = ')' ∨ c = '\x7d'
        · rw [if_pos hclose, if_pos hclose]
          by_cases hone : d = 1
          · rw [if_pos hone, if_pos (by omega)]
          · rw [if_neg hone, if_neg (by omega)]
            rfl
        · rw [if_neg hclose, if_neg hclose, Int.add_zero, if_neg hne]

/-- The search succeeds if a bracket is open before the end, and none at the end. -/
theorem closesFrom_of_open {d : Int} {quoted : Bool} (hd : 1 ≤ d)
    (hopen : ∀ p c rest, s = p ++ c :: rest → 1 ≤ d + openBrackets false quoted p)
    (hend : d + openBrackets false quoted s = 0) : closesFrom d quoted s = true := by
  induction s generalizing d quoted with
  | nil =>
    rw [openBrackets] at hend
    omega
  | cons c s ih =>
    have hcons (t : List Char) : d + openBrackets false quoted (c :: t) =
        d + openBrackets false quoted [c] + openBrackets false (quoted != isQuoted [c]) t := by
      rw [Int.add_assoc, ← openBrackets_append, List.singleton_append]
    rw [closesFrom_step hd]
    split
    · next hzero =>
      -- Nothing may follow where no bracket is open.
      cases s with
      | nil => rfl
      | cons b s =>
        have := hopen [c] b s rfl
        omega
    · next hne =>
      have hpositive : 1 ≤ d + openBrackets false quoted [c] := by
        cases s with
        | nil => exact absurd hend hne
        | cons b s => exact hopen [c] b s rfl
      refine ih hpositive (fun p b rest hp => ?_) ?_
      · rw [← hcons]
        exact hopen (c :: p) b rest (by rw [hp, List.cons_append])
      · rw [← hcons]
        exact hend

/-- The bracket in front is closed by the last character exactly if a bracket is open behind every
character before it, and none behind it. -/
theorem closesAtEnd_iff {opener : Char} {rest : List Char}
    (hopener : opener = '(' ∨ opener = '\x7b') :
    closesAtEnd (opener :: rest) = true ↔
      (∀ p, p <+: opener :: rest → p ≠ [] → p ≠ opener :: rest → 1 ≤ outerDepth p) ∧
        outerDepth (opener :: rest) = 0 := by
  have hquote : opener ≠ '"' := by rcases hopener with rfl | rfl <;> decide
  have hdepth (p : List Char) : outerDepth (opener :: p) = 1 + openBrackets false false p := by
    rw [outerDepth, openBrackets, if_neg hquote, if_pos rfl, bracketWeight, if_pos hopener]
  rw [closesAtEnd, closesFrom_opener hopener, Int.zero_add, hdepth]
  constructor
  · intro h
    obtain ⟨hopen, hend, -⟩ := of_closesFrom h (Int.le_refl 1)
    refine ⟨fun p hp hne hproper => ?_, hend⟩
    rcases List.prefix_cons_iff.mp hp with rfl | ⟨q, rfl, after, rfl⟩
    · exact absurd rfl hne
    · cases after with
      | nil => simp at hproper
      | cons c after =>
        rw [hdepth]
        exact hopen q c after rfl
  · rintro ⟨hopen, hend⟩
    refine closesFrom_of_open (Int.le_refl 1) (fun p c after hp => ?_) hend
    rw [← hdepth]
    refine hopen (opener :: p) ⟨c :: after, by rw [hp, List.cons_append]⟩ (by simp) ?_
    intro hwhole
    rw [hp, List.cons.injEq] at hwhole
    simp at hwhole

/-- A bracket that is closed by the last character is not closed by itself, and not inside
quotes. -/
theorem exists_inner {opener : Char} {rest : List Char} (hopener : opener = '(' ∨ opener = '\x7b')
    (h : closesAtEnd (opener :: rest) = true) :
    ∃ inner closer, rest = inner ++ [closer] ∧ (closer = ')' ∨ closer = '\x7d') ∧
      isQuoted (opener :: inner) = false := by
  have hfrom := closesFrom_of_closesAtEnd hopener h
  obtain ⟨inner, closer, rfl, hcloser⟩ := exists_closer hfrom
  obtain ⟨-, -, hquoted⟩ := of_closesFrom hfrom (Int.le_refl 1)
  refine ⟨inner, closer, rfl, hcloser, ?_⟩
  have hopen : isQuoted [closer] = false := by rcases hcloser with rfl | rfl <;> rfl
  rw [isQuoted_append, hopen, Bool.bne_false, Bool.false_bne] at hquoted
  rw [isQuoted_cons, if_neg (by rcases hopener with rfl | rfl <;> decide), hquoted]

/-! ## The search by bytes -/

/-- The byte at which the search for the closing bracket ends, if it is at `offset` now. -/
def closerFrom? (offset : Nat) (depth : Int) (isQuoted : Bool) : List Char → Option Nat
  | [] => none
  | c :: rest =>
    if c = '"' then closerFrom? (offset + c.utf8Size) depth (!isQuoted) rest
    else if isQuoted then closerFrom? (offset + c.utf8Size) depth isQuoted rest
    else if c = '(' ∨ c = '\x7b' then closerFrom? (offset + c.utf8Size) (depth + 1) isQuoted rest
    else if c = ')' ∨ c = '\x7d' then
      if depth = 1 then some offset
      else closerFrom? (offset + c.utf8Size) (depth - 1) isQuoted rest
    else closerFrom? (offset + c.utf8Size) depth isQuoted rest

/-- The byte at which the last character of a text begins. -/
def lastByte (s : List Char) : Nat := utf8Len s - (s.getLast?.map Char.utf8Size).getD 0

/-- Whether the byte of the closing bracket is that of the last character. -/
def closesByBytes (s : List Char) : Bool := closerFrom? 0 0 false s = some (lastByte s)

theorem lastByte_eq (s : List Char) : lastByte s = utf8Len s.dropLast := by
  rcases List.eq_nil_or_concat s with rfl | ⟨front, c, rfl⟩
  · rfl
  · simp [lastByte]

/-- The search ends at the last character if it ends at the byte of this character. -/
theorem closesFrom_iff_closerFrom? (offset : Nat) (d : Int) (quoted : Bool) (s : List Char) :
    closesFrom d quoted s = true ↔
      closerFrom? offset d quoted s = some (offset + utf8Len s.dropLast) := by
  induction s generalizing offset d quoted with
  | nil => simp [closesFrom, closerFrom?]
  | cons c s ih =>
    -- What is said of the rest is the same as of the whole, as long as there is a rest.
    have hrest (d : Int) (quoted : Bool) : closesFrom d quoted s = true ↔
        closerFrom? (offset + c.utf8Size) d quoted s =
          some (offset + utf8Len (c :: s).dropLast) := by
      rw [ih (offset + c.utf8Size)]
      cases s with
      | nil => simp [closerFrom?]
      | cons b s =>
        rw [List.dropLast_cons_cons, utf8Len_cons, Nat.add_assoc, Nat.add_comm c.utf8Size]
    rw [closesFrom, closerFrom?]
    split
    · exact hrest ..
    · split
      · exact hrest ..
      · split
        · exact hrest ..
        · split
          · split
            · cases s with
              | nil => simp
              | cons b s =>
                have := c.utf8Size_pos
                simp
                omega
            · exact hrest ..
          · exact hrest ..

theorem closesByBytes_eq (s : List Char) : closesByBytes s = closesAtEnd s := by
  rw [closesByBytes, lastByte_eq, closesAtEnd, Bool.eq_iff_iff, closesFrom_iff_closerFrom? 0,
    decide_eq_true_eq, Nat.zero_add]

/-- The byte at which a character first stands in a text. -/
def byteOf? (c : Char) (s : List Char) : Option Nat :=
  if c ∈ s then some (utf8Len (s.takeWhile (· ≠ c))) else none

/-- What is between a bracket and the last character, behind other characters or none. -/
theorem bytes?_inner (front inner : List Char) {opener closer : Char}
    (hopener : opener = '(' ∨ opener = '\x7b') (hcloser : closer = ')' ∨ closer = '\x7d') :
    bytes? (ofList (front ++ opener :: inner ++ [closer])) (utf8Len front + 1)
      (utf8Len (front ++ opener :: inner ++ [closer]) - 1) = some inner := by
  have hone : opener.utf8Size = 1 := by rcases hopener with rfl | rfl <;> rfl
  have hlast : closer.utf8Size = 1 := by rcases hcloser with rfl | rfl <;> rfl
  have hinner := bytes?_append (front ++ [opener]) inner [closer]
  have hstop : utf8Len (front ++ opener :: inner ++ [closer]) - 1 =
      utf8Len front + 1 + utf8Len inner := by
    simp [hone, hlast]
    omega
  rw [hstop]
  simpa [hone] using hinner

end Text

open Text

namespace Outline

/-- A call, where it is cut by bytes: the name before the first parenthesis, and what is between
that and the last character. There is no answer if one of the parts that are looked at is not
there. -/
def callOfBytes? (text : String) : Option Outline :=
  match byteOf? '(' text.toList with
  | none => some unreadable
  | some opened => do
    let name ← bytes? text 0 opened
    let behind ← bytes? text opened text.utf8ByteSize
    if isIdentifier name && closesByBytes behind then
      pure (call (ofList name) (← bytes? text (opened + 1) (text.utf8ByteSize - 1)))
    else pure unreadable

/-- What a text is that is no literal, where it is cut by bytes. -/
def ofBytes? (text : String) : Option Outline :=
  let opener := text.toList.head?
  if opener = some '\x7b' ∧ closesByBytes text.toList then do
    let r := Reference.ofText (← bytes? text 1 (text.utf8ByteSize - 1))
    pure (if r.isWritable then reference r else unreadable)
  else if opener = some '(' ∧ closesByBytes text.toList then do
    pure (group (← bytes? text 1 (text.utf8ByteSize - 1)))
  else callOfBytes? text

/-- A text that starts with a bracket is no call. -/
theorem ofCall_opener {opener : Char} (hopener : opener = '(' ∨ opener = '\x7b')
    (rest : List Char) : ofCall (opener :: rest) = unreadable := by
  have hname : isIdentifier ((opener :: rest).takeWhile (· ≠ '(')) = false := by
    rcases hopener with rfl | rfl
    · rfl
    · rw [List.takeWhile_cons_of_pos (by decide)]
      rfl
  simp only [ofCall, hname, Bool.false_and, Bool.false_eq_true, if_false]
  split <;> rfl

/-- A text with a parenthesis is what is before the first one and what is behind it. -/
theorem eq_takeWhile_append (h : '(' ∈ s) :
    ∃ rest, s = s.takeWhile (· ≠ '(') ++ '(' :: rest ∧ s.dropWhile (· ≠ '(') = '(' :: rest := by
  cases hdrop : s.dropWhile (· ≠ '(') with
  | nil => exact absurd rfl (of_decide_eq_true (List.dropWhile_eq_nil_iff.mp hdrop _ h))
  | cons c rest =>
    have hhead := List.head?_dropWhile_not (fun c => decide (c ≠ '(')) s
    rw [hdrop] at hhead
    obtain rfl : c = '(' := by simpa using hhead
    exact ⟨rest, by rw [← hdrop, List.takeWhile_append_dropWhile], rfl⟩

/-- Every part of a call that the reader takes is there. -/
theorem callOfBytes?_eq (s : List Char) : callOfBytes? (ofList s) = some (ofCall s) := by
  rw [callOfBytes?, toList_ofList, utf8ByteSize_ofList]
  by_cases hopen : '(' ∈ s
  · obtain ⟨rest, hs, hdrop⟩ := eq_takeWhile_append hopen
    rw [byteOf?, if_pos hopen]
    simp only [ofCall, hdrop]
    generalize s.takeWhile (· ≠ '(') = name at hs
    subst hs
    have hname := bytes?_append [] name ('(' :: rest)
    have hbehind := bytes?_append name ('(' :: rest) []
    rw [List.append_nil, ← utf8Len_append] at hbehind
    simp only [List.nil_append, utf8Len_nil, Nat.zero_add] at hname
    simp only [hname, hbehind, closesByBytes_eq, Option.bind_eq_bind, Option.bind_some]
    split
    · next hcall =>
      obtain ⟨inner, closer, rfl, hcloser, -⟩ :=
        exists_inner (.inl rfl) (Bool.and_eq_true_iff.mp hcall).2
      have hinner := bytes?_inner name inner (.inl rfl) hcloser
      rw [List.append_assoc, List.cons_append] at hinner
      rw [hinner, List.dropLast_concat]
      rfl
    · rfl
  · have hdrop : s.dropWhile (· ≠ '(') = [] :=
      List.dropWhile_eq_nil_iff.mpr fun c hc => decide_eq_true fun h => hopen (h ▸ hc)
    rw [byteOf?, if_neg hopen]
    simp only [ofCall, hdrop]

/-- Every part that the reader takes is there, and it reads what it would by characters. -/
theorem ofBytes?_eq (text : String) : ofBytes? text = some (ofBracketed text.toList) := by
  obtain ⟨s, rfl⟩ : ∃ s, text = ofList s := ⟨text.toList, ofList_toList.symm⟩
  rw [ofBytes?, callOfBytes?_eq]
  simp only [toList_ofList, utf8ByteSize_ofList, closesByBytes_eq]
  cases s with
  | nil => rfl
  | cons c rest =>
    simp only [List.head?_cons, Option.some.injEq]
    by_cases hcloses : closesAtEnd (c :: rest) = true ∧ (c = '(' ∨ c = '\x7b')
    · -- The bracket in front and the last character are dropped.
      obtain ⟨hend, hc⟩ := hcloses
      obtain ⟨inner, closer, rfl, hcloser, -⟩ := exists_inner hc hend
      have hinner := bytes?_inner [] inner hc hcloser
      simp only [List.nil_append, utf8Len_nil, Nat.zero_add, List.cons_append] at hinner
      simp only [hinner, hend, and_true, Option.bind_eq_bind, Option.bind_some, ofBracketed,
        List.dropLast_concat, Bool.true_and, if_true]
      rcases hc with rfl | rfl
      · rfl
      · rw [if_pos rfl, if_pos rfl]
        rfl
    · rw [if_neg fun h => hcloses ⟨h.2, .inr h.1⟩, if_neg fun h => hcloses ⟨h.2, .inl h.1⟩]
      congr 1
      by_cases hc : c = '(' ∨ c = '\x7b'
      · have hend : closesAtEnd (c :: rest) = false := by simpa [hc] using hcloses
        rw [ofCall_opener hc, ofBracketed, hend]
        rcases hc with rfl | rfl <;> rfl
      · rw [not_or] at hc
        rw [ofBracketed, if_neg hc.2, if_neg hc.1]

end Outline

/-- Where brackets close, and what is cut out between them.

* The search for the closing bracket succeeds on a text that starts with a bracket exactly if a
  bracket is open behind every character before the last one, and none behind it, where brackets
  inside quotes do not count. By bytes it finds the same.
* If it succeeds, the last character is another one than the first, a bracket of one byte outside
  quotes; and the part from the second byte to the last one, and behind a name from the byte after
  the bracket, is what is between the brackets, whatever characters there are.
* A reader that takes its parts by bytes finds every part that it takes, in every text, and reads
  what the text is. -/
theorem closing_brackets_cut_text (s : List Char) :
    (∀ opener rest, s = opener :: rest → (opener = '(' ∨ opener = '\x7b') →
      (closesAtEnd s = true ↔
        (∀ p, p <+: s → p ≠ [] → p ≠ s → 1 ≤ outerDepth p) ∧ outerDepth s = 0) ∧
      (closesAtEnd s = true → 2 ≤ s.length ∧ ∃ inner closer, s = opener :: inner ++ [closer] ∧
        (closer = ')' ∨ closer = '\x7d') ∧ closer.utf8Size = 1 ∧
        isQuoted (opener :: inner) = false ∧
        ∀ name, bytes? (ofList (name ++ s)) (utf8Len name + 1) (utf8Len (name ++ s) - 1) =
          some inner)) ∧
    closesByBytes s = closesAtEnd s ∧
    Outline.ofBytes? (ofList s) = some (Outline.ofBracketed s) := by
  refine ⟨?_, closesByBytes_eq s, by rw [Outline.ofBytes?_eq, toList_ofList]⟩
  rintro opener rest rfl hopener
  refine ⟨closesAtEnd_iff hopener, fun h => ?_⟩
  obtain ⟨inner, closer, rfl, hcloser, hquoted⟩ := exists_inner hopener h
  have hone : closer.utf8Size = 1 := by rcases hcloser with rfl | rfl <;> rfl
  refine ⟨by simp, inner, closer, rfl, hcloser, hone, hquoted, fun name => ?_⟩
  have hinner := bytes?_inner name inner hopener hcloser
  rwa [List.append_assoc] at hinner

/-- The arguments of a call, with a bracket inside quotes and characters of two and of four bytes.
There is no part that stops within one of these. -/
theorem closing_brackets_cut_text_wide :
    closesAtEnd "(é, \")𝄞\")".toList = true ∧
      outerDepth "(é, \")𝄞\")".toList = 0 ∧
      bytes? "f(é, \")𝄞\")" 2 13 = some "é, \")𝄞\"".toList ∧
      bytes? "f(é, \")𝄞\")" 2 9 = none := by
  obtain ⟨hbracket, -⟩ := closing_brackets_cut_text "(é, \")𝄞\")".toList
  obtain ⟨hiff, hcut⟩ := hbracket '(' _ rfl (.inl rfl)
  have hcloses : closesAtEnd "(é, \")𝄞\")".toList = true := by decide
  obtain ⟨-, inner, closer, hs, -, -, -, hbytes⟩ := hcut hcloses
  have hinner : inner = "é, \")𝄞\"".toList := by
    have hdrop := congrArg (fun s => s.tail.dropLast) hs
    simpa using hdrop.symm
  refine ⟨hcloses, (hiff.mp hcloses).2, ?_, by decide⟩
  have hname := hbytes ['f']
  rwa [hinner] at hname

end CallScript

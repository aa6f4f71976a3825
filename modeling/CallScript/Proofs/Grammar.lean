import CallScript.Proofs.SideBySide

/-!
# The grammar of expressions

A text that can be read is, without the blanks around it, of one of six kinds: a quoted text, a
truth value, a finite number, a variable between braces, items between parentheses, or a call. In
the last three, the last character closes the bracket that was opened first. `IsExpression` writes
this down as rules.

The rules leave open which characters close a bracket, since the grammar that is meant and the one
that is read differ there. What is meant is that a brace closes a brace and a parenthesis a
parenthesis. But the scan for the closing bracket has one depth for both kinds and does not compare
them, so `{a)` is read as a variable (`brace_closed_by_parenthesis`). What is true is
`read_only_grammar`: any closer will do, and nothing depends on which one it is; it is of the right
kind if the brackets of the text that are outside quotes match by kind (`IsMatched`).
-/

namespace CallScript

namespace Text

/-! ## Kinds of text -/

/-- A text with every quote in it written twice. -/
def doubleQuotes : List Char → List Char
  | [] => []
  | c :: rest => if c = '"' then '"' :: '"' :: doubleQuotes rest else c :: doubleQuotes rest

/-- The grammar of expressions, where `closes` says which characters close a bracket. -/
inductive IsExpression (closes : Char → Char → Prop) : List Char → Prop where
  | quoted (content : List Char) : IsExpression closes ('"' :: doubleQuotes content ++ ['"'])
  | yes : IsExpression closes "true".toList
  | no : IsExpression closes "false".toList
  | number {s : List Char} {x : Float} (reads : Number.read? s = some x)
      (finite : x.isFinite = true) : IsExpression closes s
  | reference {name mark : List Char} {closer : Char} (named : name ≠ [])
      (free : ∀ c ∈ name, c ≠ '\x7b' ∧ c ≠ '\x7d' ∧ c ≠ '"') (marked : mark = [] ∨ mark = listMark)
      (closed : closes '\x7b' closer) : IsExpression closes ('\x7b' :: name ++ mark ++ [closer])
  | group {inner : List Char} {closer : Char} (closed : closes '(' closer) :
      IsExpression closes ('(' :: inner ++ [closer])
  | call {name inner : List Char} {closer : Char} (identifier : isIdentifier name = true)
      (closed : closes '(' closer) : IsExpression closes (name ++ '(' :: inner ++ [closer])

/-- The character that is meant to close a bracket. -/
def partner (opener : Char) : Char := if opener = '(' then ')' else '\x7d'

/-- The grammar that is meant: a bracket is closed by one of its kind. -/
abbrev IsMeant : List Char → Prop := IsExpression fun opener closer => closer = partner opener

/-- The grammar that is read: a bracket is closed by one of either kind. -/
abbrev IsAccepted : List Char → Prop := IsExpression fun _ closer => closer = ')' ∨ closer = '\x7d'

/-- Reads on with some brackets open, the last one first, and inside quotes if `isQuoted`. Outside
quotes every closer must be the partner of the last opener, and at the end no bracket is open. -/
def matchesFrom (opened : List Char) (isQuoted : Bool) : List Char → Bool
  | [] => opened.isEmpty
  | c :: rest =>
    if c = '"' then matchesFrom opened (!isQuoted) rest
    else if isQuoted then matchesFrom opened isQuoted rest
    else if c = '(' ∨ c = '\x7b' then matchesFrom (c :: opened) isQuoted rest
    else if c = ')' ∨ c = '\x7d' then
      match opened with
      | [] => false
      | opener :: opened => c = partner opener && matchesFrom opened isQuoted rest
    else matchesFrom opened isQuoted rest

/-- Whether the brackets of a text that are outside quotes match by kind. -/
def IsMatched (s : List Char) : Prop := matchesFrom [] false s = true

instance (s : List Char) : Decidable (IsMatched s) := inferInstanceAs (Decidable (_ = true))

/-! ## What closes a bracket -/

/-- A bracket that is closed by the last character is closed by one of either kind. -/
theorem exists_closer {d : Int} {quoted : Bool} {s : List Char}
    (h : closesFrom d quoted s = true) :
    ∃ inner closer, s = inner ++ [closer] ∧ (closer = ')' ∨ closer = '\x7d') := by
  induction s generalizing d quoted with
  | nil => cases h
  | cons c s ih =>
    -- Either this character closes the bracket, or one after it does.
    have later {d : Int} {quoted : Bool} (h : closesFrom d quoted s = true) :
        ∃ inner closer, c :: s = inner ++ [closer] ∧ (closer = ')' ∨ closer = '\x7d') := by
      obtain ⟨inner, closer, rfl, hcloser⟩ := ih h
      exact ⟨c :: inner, closer, rfl, hcloser⟩
    unfold closesFrom at h
    split at h
    · exact later h
    · split at h
      · exact later h
      · split at h
        · exact later h
        · split at h
          · next hc =>
            split at h
            · exact ⟨[], c, by rw [List.isEmpty_iff.mp h]; rfl, hc⟩
            · exact later h
          · exact later h

/-- If brackets match by kind, the last character closes the bracket at the bottom in kind. -/
theorem exists_partner {d : Int} {quoted : Bool} {opened s : List Char} {opener : Char}
    (h : closesFrom d quoted s = true) (hd : d = opened.length + 1)
    (hmatched : matchesFrom (opened ++ [opener]) quoted s = true) :
    ∃ inner closer, s = inner ++ [closer] ∧ closer = partner opener := by
  induction s generalizing d quoted opened with
  | nil => cases h
  | cons c s ih =>
    have later {d : Int} {quoted : Bool} {opened : List Char} (h : closesFrom d quoted s = true)
        (hd : d = opened.length + 1)
        (hmatched : matchesFrom (opened ++ [opener]) quoted s = true) :
        ∃ inner closer, c :: s = inner ++ [closer] ∧ closer = partner opener := by
      obtain ⟨inner, closer, rfl, hcloser⟩ := ih h hd hmatched
      exact ⟨c :: inner, closer, rfl, hcloser⟩
    unfold closesFrom at h
    unfold matchesFrom at hmatched
    split at h
    · next hquote =>
      rw [if_pos hquote] at hmatched
      exact later h hd hmatched
    · next hquote =>
      rw [if_neg hquote] at hmatched
      split at h
      · next hquoted =>
        rw [if_pos hquoted] at hmatched
        exact later h hd hmatched
      · next hquoted =>
        rw [if_neg hquoted] at hmatched
        split at h
        · next hopens =>
          rw [if_pos hopens] at hmatched
          exact @later _ _ (c :: opened) h (by rw [List.length_cons]; omega) hmatched
        · next hopens =>
          rw [if_neg hopens] at hmatched
          split at h
          · next hcloses =>
            rw [if_pos hcloses] at hmatched
            cases opened with
            | nil =>
              -- Only the bracket at the bottom is open, and this character closes it.
              rw [if_pos (by simpa using hd)] at h
              have hpartner := (Bool.and_eq_true_iff.mp hmatched).1
              rw [List.isEmpty_iff.mp h]
              exact ⟨[], c, rfl, of_decide_eq_true hpartner⟩
            | cons last opened =>
              rw [List.length_cons] at hd
              rw [if_neg (by omega)] at h
              exact later h (by omega) (Bool.and_eq_true_iff.mp hmatched).2
          · next hcloses =>
            rw [if_neg hcloses] at hmatched
            exact later h hd hmatched

/-- What is behind a word and an opening bracket is read with this bracket open. -/
theorem matchesFrom_word {word rest : List Char} {opener : Char}
    (hword : ∀ c ∈ word, isWordChar c = true) (hopener : opener = '(' ∨ opener = '\x7b') :
    matchesFrom [] false (word ++ opener :: rest) = matchesFrom [opener] false rest := by
  induction word with
  | nil =>
    have hquote : opener ≠ '"' := by rcases hopener with rfl | rfl <;> decide
    rw [List.nil_append, matchesFrom, if_neg hquote, if_neg Bool.false_ne_true, if_pos hopener]
  | cons c word ih =>
    have hc := not_mem_structural_of_isWordChar (hword c (List.mem_cons_self ..))
    simp only [structural, List.mem_cons, not_or] at hc
    rw [List.cons_append, matchesFrom, if_neg hc.1, if_neg Bool.false_ne_true,
      if_neg (by rintro (rfl | rfl) <;> simp at hc), if_neg (by rintro (rfl | rfl) <;> simp at hc)]
    exact ih fun c hc => hword c (List.mem_cons_of_mem _ hc)

/-- Whether each bracket that the last character of a text closes, with a word before it or none, is
closed as `closes` says. -/
def IsClosedBy (closes : Char → Char → Prop) (s : List Char) : Prop :=
  ∀ word opener rest, s = word ++ opener :: rest → (∀ c ∈ word, isWordChar c = true) →
    opener = '(' ∨ opener = '\x7b' → closesAtEnd (opener :: rest) = true →
    ∃ inner closer, rest = inner ++ [closer] ∧ closes opener closer

/-- The last character is a closer of either kind. -/
theorem isClosedBy_either (s : List Char) :
    IsClosedBy (fun _ closer => closer = ')' ∨ closer = '\x7d') s :=
  fun _ _ _ _ _ hopener h => exists_closer (closesFrom_of_closesAtEnd hopener h)

/-- If brackets match by kind, the last character is a closer of the right kind. -/
theorem isClosedBy_partner {s : List Char} (h : IsMatched s) :
    IsClosedBy (fun opener closer => closer = partner opener) s := by
  intro word opener rest hs hword hopener hcloses
  have hmatched : matchesFrom ([] ++ [opener]) false rest = true := by
    rw [List.nil_append, ← matchesFrom_word hword hopener, ← hs]
    exact h
  exact exists_partner (closesFrom_of_closesAtEnd hopener hcloses) rfl hmatched

/-! ## Every text that can be read is in the grammar -/

/-- Halving the quotes undoes doubling them. -/
theorem eq_doubleQuotes_of_halveQuotes? {s content : List Char}
    (h : halveQuotes? s = some content) : s = doubleQuotes content := by
  fun_induction halveQuotes? s generalizing content with
  | case1 =>
    cases h
    rfl
  | case2 rest ih =>
    obtain ⟨halved, hhalved, rfl⟩ := Option.map_eq_some_iff.mp h
    rw [doubleQuotes, if_pos rfl, ← ih hhalved]
  | case3 => cases h
  | case4 c rest _ hc ih =>
    obtain ⟨halved, hhalved, rfl⟩ := Option.map_eq_some_iff.mp h
    rw [doubleQuotes, if_neg hc, ← ih hhalved]

/-- A quoted text is its content with the quotes doubled, between two quotes. -/
theorem eq_of_unquote? {s content : List Char} (h : unquote? s = some content) :
    s = '"' :: doubleQuotes content ++ ['"'] := by
  unfold unquote? at h
  split at h
  · split at h
    · next hlast =>
      obtain ⟨inner, rfl⟩ := List.getLast?_eq_some_iff.mp hlast
      rw [List.dropLast_concat] at h
      rw [← eq_doubleQuotes_of_halveQuotes? h]
      rfl
    · cases h
  · cases h

end Text

open Text

/-- The text of a reference that may be written. -/
theorem Reference.exists_of_isWritable {s : List Char} (h : (ofText s).isWritable = true) :
    ∃ name mark, s = name ++ mark ∧ name ≠ [] ∧
      (∀ c ∈ name, c ≠ '\x7b' ∧ c ≠ '\x7d' ∧ c ≠ '"') ∧ (mark = [] ∨ mark = listMark) := by
  have writable {name : List Char} {all : Bool}
      (h : isWritable ⟨String.ofList name, all⟩ = true) :
      name ≠ [] ∧ ∀ c ∈ name, c ≠ '\x7b' ∧ c ≠ '\x7d' ∧ c ≠ '"' := by
    simpa [isWritable, and_assoc] using h
  unfold ofText at h
  split at h
  · next name hname =>
    obtain ⟨hne, hfree⟩ := writable h
    refine ⟨name, listMark, ?_, hne, hfree, .inr rfl⟩
    unfold stripListMark? at hname
    split at hname
    · next hsuffix =>
      obtain ⟨front, rfl⟩ := List.isSuffixOf_iff_suffix.mp hsuffix
      cases hname
      simp
    · cases hname
  · obtain ⟨hne, hfree⟩ := writable h
    exact ⟨s, [], (List.append_nil s).symm, hne, hfree, .inl rfl⟩

namespace Outline

variable {closes : Char → Char → Prop} {s : List Char}

theorem isExpression_ofCall (hcloses : IsClosedBy closes s) (h : ofCall s ≠ unreadable) :
    IsExpression closes s := by
  simp only [ofCall] at h
  split at h
  · exact absurd rfl h
  · next c rest hdrop =>
    split at h
    · next hcall =>
      obtain ⟨hname, hend⟩ := Bool.and_eq_true_iff.mp hcall
      obtain rfl : c = '(' := by
        have hhead := List.head?_dropWhile_not (fun c => decide (c ≠ '(')) s
        rw [hdrop] at hhead
        simpa using hhead
      have hs : s = s.takeWhile (fun c => decide (c ≠ '(')) ++ '(' :: rest := by
        rw [← hdrop, List.takeWhile_append_dropWhile]
      obtain ⟨inner, closer, rfl, hclosed⟩ :=
        hcloses _ _ _ hs (isWordChar_of_isIdentifier hname) (.inl rfl) hend
      rw [hs, ← List.cons_append, ← List.append_assoc]
      exact .call hname hclosed
    · exact absurd rfl h

theorem isExpression_ofBracketed (hcloses : IsClosedBy closes s)
    (h : ofBracketed s ≠ unreadable) : IsExpression closes s := by
  cases s with
  | nil => exact absurd rfl h
  | cons c rest =>
    simp only [ofBracketed] at h
    split at h
    · next hc =>
      subst hc
      split at h
      · next hvariable =>
        obtain ⟨hend, hwritable⟩ := Bool.and_eq_true_iff.mp hvariable
        obtain ⟨inner, closer, rfl, hclosed⟩ :=
          hcloses [] _ _ rfl (fun _ h => absurd h List.not_mem_nil) (.inr rfl) hend
        rw [List.dropLast_concat] at hwritable
        obtain ⟨name, mark, rfl, hne, hfree, hmark⟩ := Reference.exists_of_isWritable hwritable
        exact .reference hne hfree hmark hclosed
      · exact absurd rfl h
    · split at h
      · next hc =>
        subst hc
        split at h
        · next hend =>
          obtain ⟨inner, closer, rfl, hclosed⟩ :=
            hcloses [] _ _ rfl (fun _ h => absurd h List.not_mem_nil) (.inl rfl) hend
          exact .group hclosed
        · exact absurd rfl h
      · exact isExpression_ofCall hcloses h

/-- Every text that is anything is in the grammar. -/
theorem isExpression (hcloses : IsClosedBy closes s) (h : ofText s ≠ unreadable) :
    IsExpression closes s := by
  unfold ofText at h
  split at h
  · next content hquoted =>
    rw [eq_of_unquote? hquoted]
    exact .quoted content
  · split at h
    · next b hboolean =>
      unfold Value.readBoolean? at hboolean
      split at hboolean
      · next hs => exact hs ▸ .yes
      · split at hboolean
        · next hs => exact hs ▸ .no
        · cases hboolean
    · split at h
      · next x hnumber =>
        unfold number? at hnumber
        split at hnumber
        · cases hnumber
        · split at hnumber
          · obtain ⟨hread, hfinite⟩ := Option.filter_eq_some_iff.mp hnumber
            exact .number hread hfinite
          · cases hnumber
      · exact isExpression_ofBracketed hcloses h

end Outline

/-! ## Which closer it is makes no difference -/

namespace Text

theorem closesFrom_closer (d : Int) (quoted : Bool) (s : List Char) :
    closesFrom d quoted (s ++ [')']) = closesFrom d quoted (s ++ ['\x7d']) := by
  induction s generalizing d quoted with
  | nil => cases quoted <;> simp [closesFrom]
  | cons c s ih =>
    have hnonempty (closer : Char) : (s ++ [closer]).isEmpty = false := by simp
    simp only [List.cons_append, closesFrom, ih, hnonempty]

/-- Nothing is trimmed behind the last character if that is not blank. -/
theorem trim_concat {s : List Char} {c : Char} (hc : isBlank c = false) :
    trim (s ++ [c]) = trimStart s ++ [c] := by
  have hstart : trimStart (s ++ [c]) = trimStart s ++ [c] := by
    unfold trimStart
    rw [List.dropWhile_append]
    split
    · next hempty => rw [List.isEmpty_iff.mp hempty, List.dropWhile_cons, hc]; rfl
    · rfl
  rw [trim, hstart, trimEnd, List.reverse_append, List.reverse_singleton, List.singleton_append,
    List.dropWhile_cons, hc, if_neg Bool.false_ne_true, List.reverse_cons, List.reverse_reverse]

end Text

namespace Outline

/-- A text that ends in a closer is no literal. -/
theorem ofText_concat {s : List Char} {c : Char} (hc : c = ')' ∨ c = '\x7d') :
    ofText (s ++ [c]) = ofBracketed (s ++ [c]) := by
  have hlast : (s ++ [c]).getLast? = some c := List.getLast?_concat
  have hquoted : unquote? (s ++ [c]) = none := by
    unfold unquote?
    split
    · next rest hrest =>
      rw [if_neg]
      intro hquote
      rw [hrest, List.getLast?_cons, hquote, Option.getD_some, Option.some.injEq] at hlast
      rcases hc with rfl | rfl <;> cases hlast
    · rfl
  have hboolean : Value.readBoolean? (s ++ [c]) = none := by
    unfold Value.readBoolean?
    rw [if_neg, if_neg] <;>
    · intro hs
      rw [hs] at hlast
      rcases hc with rfl | rfl <;> cases hlast
  have hnumber : number? (s ++ [c]) = none := by
    unfold number?
    split
    · rfl
    · split
      · -- There is no closer in a number.
        refine Option.eq_none_iff_forall_ne_some.mpr fun x hx => ?_
        have hplain := Number.isPlain_of_readFinite? hx c (by simp)
        rcases hc with rfl | rfl <;> exact hplain (by decide)
      · rfl
  simp only [ofText, hquoted, hboolean, hnumber]

/-- The name of a call is what is before the first parenthesis. -/
theorem ofCall_append {name : List Char} (rest : List Char) (h : '(' ∉ name) :
    ofCall (name ++ '(' :: rest) =
      if isIdentifier name && closesAtEnd ('(' :: rest) then call (String.ofList name) rest.dropLast
      else unreadable := by
  have hname : ∀ c ∈ name, decide (c ≠ '(') = true := fun c hc =>
    decide_eq_true fun hopener => h (hopener ▸ hc)
  have htake : (name ++ '(' :: rest).takeWhile (fun c => decide (c ≠ '(')) = name := by
    rw [List.takeWhile_append_of_pos hname, List.takeWhile_cons_of_neg (by simp), List.append_nil]
  have hdrop : (name ++ '(' :: rest).dropWhile (fun c => decide (c ≠ '(')) = '(' :: rest := by
    rw [List.dropWhile_append_of_pos hname, List.dropWhile_cons_of_neg (by simp)]
  simp only [ofCall, htake, hdrop]

theorem ofCall_of_not_mem {s : List Char} (h : '(' ∉ s) : ofCall s = unreadable := by
  have hdrop : s.dropWhile (fun c => decide (c ≠ '(')) = [] :=
    List.dropWhile_eq_nil_iff.mpr fun c hc => decide_eq_true fun hopener => h (hopener ▸ hc)
  simp only [ofCall, hdrop]

theorem ofCall_closer (s : List Char) : ofCall (s ++ [')']) = ofCall (s ++ ['\x7d']) := by
  by_cases h : '(' ∈ s
  · obtain ⟨name, rest, rfl, hname⟩ := List.eq_append_cons_of_mem h
    rw [List.append_assoc, List.append_assoc, List.cons_append, List.cons_append,
      ofCall_append _ hname, ofCall_append _ hname, List.dropLast_concat, List.dropLast_concat]
    have hcloses := closesFrom_closer 0 false ('(' :: rest)
    rw [List.cons_append, List.cons_append] at hcloses
    rw [closesAtEnd, closesAtEnd, hcloses]
  · rw [ofCall_of_not_mem (by simpa using h), ofCall_of_not_mem (by simpa using h)]

theorem ofText_closer (s : List Char) : ofText (s ++ [')']) = ofText (s ++ ['\x7d']) := by
  rw [ofText_concat (.inl rfl), ofText_concat (.inr rfl)]
  cases s with
  | nil => rfl
  | cons c s =>
    have hcall := ofCall_closer (c :: s)
    rw [List.cons_append, List.cons_append] at hcall ⊢
    simp only [ofBracketed, List.dropLast_concat, closesAtEnd, hcall]
    have hcloses := closesFrom_closer 0 false (c :: s)
    rw [List.cons_append, List.cons_append] at hcloses
    rw [hcloses]

end Outline

theorem Reader.parse_closer (reader : Reader) (text : String) (target : Ty) :
    reader.parse (text ++ ")") target = reader.parse (text ++ "\x7d") target := by
  have htext (closer : String) : (text ++ closer).toList = text.toList ++ closer.toList :=
    String.toList_append
  have houtline : Outline.ofText (trim (text.toList ++ ")".toList)) =
      Outline.ofText (trim (text.toList ++ "\x7d".toList)) := by
    show Outline.ofText (trim (text.toList ++ [')'])) =
      Outline.ofText (trim (text.toList ++ ['\x7d']))
    rw [trim_concat (by decide), trim_concat (by decide), Outline.ofText_closer]
  rw [parse, parse, htext, htext, Form.read_eq, Form.read_eq, houtline]

/-! ## The grammar that is read -/

/-- A text is read only if, without the blanks around it, it is a quoted text, a truth value, a
finite number, a variable between braces, items between parentheses or a call, where the bracket
that is opened first is closed by the last character. This closer may be of either kind, and a text
is read as well or as badly with the one as with the other. It is of the right kind if the brackets
outside quotes match by kind. -/
theorem read_only_grammar (reader : Reader) (text : String) (target : Ty) :
    (∀ e, reader.parse text target = .ok e →
      IsAccepted (trim text.toList) ∧
        (IsMatched (trim text.toList) → IsMeant (trim text.toList))) ∧
    reader.parse (text ++ ")") target = reader.parse (text ++ "\x7d") target := by
  refine ⟨?_, reader.parse_closer text target⟩
  intro e h
  have hread : Outline.ofText (trim text.toList) ≠ .unreadable := by
    intro hnone
    rw [Reader.parse, Form.read_eq, hnone] at h
    cases h
  exact ⟨Outline.isExpression (isClosedBy_either _) hread,
    fun hmatched => Outline.isExpression (isClosedBy_partner hmatched) hread⟩

/-- A call with brackets in its quotes, and with a variable in braces among its arguments. -/
theorem read_only_grammar_call :
    (⟨"", fun _ => none⟩ : Reader).parse " sum(\x7bxs::*\x7d, \")\x7d\") " .any =
        .ok (.call ⟨"", "sum", tokenize "\x7bxs::*\x7d, \")\x7d\"".toList⟩ .any true) ∧
      IsMatched (trim " sum(\x7bxs::*\x7d, \")\x7d\") ".toList) ∧
      IsAccepted (trim " sum(\x7bxs::*\x7d, \")\x7d\") ".toList) ∧
      IsMeant (trim " sum(\x7bxs::*\x7d, \")\x7d\") ".toList) := by
  have hcall : Outline.ofText (trim " sum(\x7bxs::*\x7d, \")\x7d\") ".toList) =
      .call "sum" "\x7bxs::*\x7d, \")\x7d\"".toList := rfl
  have hread : (⟨"", fun _ => none⟩ : Reader).parse " sum(\x7bxs::*\x7d, \")\x7d\") " .any =
      .ok (.call ⟨"", "sum", tokenize "\x7bxs::*\x7d, \")\x7d\"".toList⟩ .any true) := by
    rw [Reader.parse, Form.read_eq, hcall]
    rfl
  have hmatched : IsMatched (trim " sum(\x7bxs::*\x7d, \")\x7d\") ".toList) := by decide
  obtain ⟨haccepted, hmeant⟩ := (read_only_grammar ⟨"", fun _ => none⟩ _ .any).1 _ hread
  exact ⟨hread, hmatched, haccepted, hmeant hmatched⟩

/-- The text `{a)` is read as a variable, though no parenthesis closes a brace. -/
theorem brace_closed_by_parenthesis :
    (⟨"", fun _ => none⟩ : Reader).parse "\x7ba)" .any = .ok (.reference ⟨"a", false⟩) ∧
      ¬IsMeant (trim "\x7ba)".toList) := by
  have hvariable : Outline.ofText (trim "\x7ba)".toList) = .reference ⟨"a", false⟩ := rfl
  refine ⟨?_, ?_⟩
  · rw [Reader.parse, Form.read_eq, hvariable]
    rfl
  · have htrim : trim "\x7ba)".toList = ['\x7b', 'a', ')'] := by decide
    rw [htrim]
    intro h
    generalize hs : ['\x7b', 'a', ')'] = s at h
    cases h with
    | quoted content => cases hs
    | yes | no => cases hs
    | number reads finite =>
      have hplain := Number.isPlain_of_readFinite? (Option.filter_eq_some_iff.mpr ⟨reads, finite⟩)
      subst hs
      exact hplain '\x7b' (by decide) (by decide)
    | reference named free marked closed =>
      have hlast := congrArg List.getLast? hs
      rw [List.getLast?_concat, closed] at hlast
      cases hlast
    | group closed => cases hs
    | @call name inner closer identifier closed =>
      have hparenthesis : '(' ∈ ['\x7b', 'a', ')'] := by simp [hs]
      exact absurd hparenthesis (by decide)

end CallScript

import CallScript.Proofs.Grammar
import CallScript.Proofs.TargetedReading

/-!
# Numbers and truth values in texts

Three readers find numbers and truth values in a text: the guess at what an untyped text was meant
to be, the reading of an expression, and the conversion of a text. They look for them in different
orders, and the reader of expressions looks at the first character before it tries to read a number.
For all that they agree: each finds what the text without the blanks around it writes
(`Value.IsWritten`), so a text is a literal to all of them or to none (`literal_readers_agree`).

Two facts make them agree. A finite number starts with a digit, a sign or a point
(`Number.exists_head_of_readFinite?`), so the look at the first character loses none. And what
starts like this is no truth value and not quoted, so the order does not matter. The words for what
is not finite write no number for any of the readers, with or without a sign.

A text that starts with a parenthesis is left out: it may be a literal in parentheses, which only
the reader of expressions looks for.
-/

namespace CallScript

/-! ## How numbers start -/

namespace Number

/-- Whether a character may be the first one of a number that is a literal. -/
def startsNumber (c : Char) : Bool := c.isDigit || c = '-' || c = '+' || c = '.'

/-- The words for what is not a finite number, in small letters. -/
def nonFiniteWords : List (List Char) :=
  [['i', 'n', 'f'], ['i', 'n', 'f', 'i', 'n', 'i', 't', 'y'], ['n', 'a', 'n']]

variable {s : List Char} {c : Char} {x : Float}

/-- A decimal has a digit, or a point before its first digit. -/
theorem readDecimal?_eq_none (hc : startsNumber c = false) : readDecimal? (c :: s) = none := by
  simp only [startsNumber, Bool.or_eq_false_iff, decide_eq_false_iff_not] at hc
  obtain ⟨⟨⟨hdigit, -⟩, -⟩, hpoint⟩ := hc
  have hsplit : splitFraction (c :: s) = ([], c :: s) := by
    unfold splitFraction
    split
    · next h => exact absurd (List.cons.inj h).1 hpoint
    · rfl
  have hdigit : ¬c.isDigit = true := by simp [hdigit]
  rw [readDecimal?, List.takeWhile_cons_of_neg hdigit, List.dropWhile_cons_of_neg hdigit, hsplit]
  rfl

/-- The words are read, but not as finite numbers, and neither are they with a sign. -/
theorem exists_readUnsigned? (h : s.map Char.toLower ∈ nonFiniteWords) :
    ∃ y, readUnsigned? s = some y ∧ y.isFinite = false ∧ y.neg.isFinite = false := by
  have hinfinity : infinity.isFinite = false ∧ infinity.neg.isFinite = false := by decide
  have hnotANumber : notANumber.isFinite = false ∧ notANumber.neg.isFinite = false := by decide
  simp only [nonFiniteWords, List.mem_cons, List.not_mem_nil, or_false] at h
  rcases h with h | h | h
  · exact ⟨infinity, by rw [readUnsigned?, h]; rfl, hinfinity⟩
  · exact ⟨infinity, by rw [readUnsigned?, h]; rfl, hinfinity⟩
  · exact ⟨notANumber, by rw [readUnsigned?, h]; rfl, hnotANumber⟩

/-- Every other text is read as a decimal. -/
theorem readUnsigned?_eq (h : s.map Char.toLower ∉ nonFiniteWords) :
    readUnsigned? s = readDecimal? s := by
  simp only [nonFiniteWords, List.mem_cons, List.not_mem_nil, or_false, not_or] at h
  simp [readUnsigned?, h]

/-- What starts a number is no capital letter. -/
theorem toLower_of_startsNumber (hc : startsNumber c = true) : c.toLower = c := by
  simp only [startsNumber, Bool.or_eq_true, decide_eq_true_eq] at hc
  rcases hc with ((hdigit | rfl) | rfl) | rfl
  · simp only [Char.isDigit, Bool.and_eq_true, decide_eq_true_eq, UInt32.le_iff_toNat_le] at hdigit
    refine dif_neg ?_
    rintro ⟨hcapital, -⟩
    exact absurd (Nat.le_trans (UInt32.le_iff_toNat_le.mp hcapital) hdigit.2) (by decide)
  · rfl
  · rfl
  · rfl

/-- A character that starts no number is no sign. -/
theorem read?_cons (hc : startsNumber c = false) : read? (c :: s) = readUnsigned? (c :: s) := by
  simp only [startsNumber, Bool.or_eq_false_iff, decide_eq_false_iff_not] at hc
  unfold read?
  split
  · next h => exact absurd (List.cons.inj h).1 hc.1.1.2
  · next h => exact absurd (List.cons.inj h).1 hc.1.2
  · rfl

/-- A finite number starts with a digit, a sign or a point. -/
theorem exists_head_of_readFinite? (h : readFinite? s = some x) :
    ∃ c rest, s = c :: rest ∧ startsNumber c = true := by
  obtain ⟨hread, hfinite⟩ := Option.filter_eq_some_iff.mp h
  cases s with
  | nil => cases hread
  | cons c rest =>
    refine ⟨c, rest, rfl, ?_⟩
    cases hc : startsNumber c with
    | true => rfl
    | false =>
      rw [read?_cons hc] at hread
      by_cases hword : (c :: rest).map Char.toLower ∈ nonFiniteWords
      · obtain ⟨y, hy, hnot, -⟩ := exists_readUnsigned? hword
        rw [hy] at hread
        cases hread
        rw [hnot] at hfinite
        cases hfinite
      · rw [readUnsigned?_eq hword, readDecimal?_eq_none hc] at hread
        cases hread

/-- The words with a sign or none. -/
theorem exists_read?_of_mem {sign word : List Char} (hsign : sign ∈ [[], ['+'], ['-']])
    (hword : word.map Char.toLower ∈ nonFiniteWords) :
    ∃ x, read? (sign ++ word) = some x ∧ x.isFinite = false := by
  obtain ⟨y, hy, hfinite, hfinite'⟩ := exists_readUnsigned? hword
  simp only [List.mem_cons, List.not_mem_nil, or_false] at hsign
  rcases hsign with rfl | rfl | rfl
  · cases word with
    | nil => exact absurd hword (by decide)
    | cons c rest =>
      -- The words start with letters that start no number.
      have hc : startsNumber c = false := by
        refine Bool.eq_false_iff.mpr fun hc => ?_
        have hhead : (nonFiniteWords.all fun word => !word.head?.any startsNumber) = true := by
          decide
        have hnot := List.all_eq_true.mp hhead _ hword
        rw [List.map_cons, List.head?_cons, toLower_of_startsNumber hc, Option.any_some, hc] at hnot
        cases hnot
      exact ⟨y, (read?_cons hc).trans hy, hfinite⟩
  · exact ⟨y, hy, hfinite⟩
  · exact ⟨y.neg, by rw [List.cons_append, List.nil_append, read?, hy, Option.map_some], hfinite'⟩

end Number

/-! ## What each reader finds -/

variable {s : List Char} {v : Value}

/-- Whether a text writes a number or a truth value. -/
def Value.IsWritten (s : List Char) : Value → Prop
  | .text _ => False
  | .number x => Number.readFinite? s = some x
  | .boolean b => Value.readBoolean? s = some b

/-- The form of a text that stands for a value. -/
def Value.form : Value → Form
  | .text content => .text content
  | .number x => .number x
  | .boolean b => .boolean b

theorem Value.eq_of_readBoolean? {b : Bool} (h : readBoolean? s = some b) :
    b = true ∧ s = "true".toList ∨ b = false ∧ s = "false".toList := by
  unfold readBoolean? at h
  split at h
  · next hs => exact .inl ⟨(Option.some.inj h).symm, hs⟩
  · split at h
    · next hs => exact .inr ⟨(Option.some.inj h).symm, hs⟩
    · cases h

/-- No truth value is written like a number, finite or not. -/
theorem Number.read?_eq_none {b : Bool} (h : Value.readBoolean? s = some b) : read? s = none := by
  rcases Value.eq_of_readBoolean? h with ⟨-, rfl⟩ | ⟨-, rfl⟩ <;> rfl

theorem Number.readFinite?_eq_none {b : Bool} (h : Value.readBoolean? s = some b) :
    readFinite? s = none := by
  rw [readFinite?, read?_eq_none h, Option.filter_none]

theorem Value.readBoolean?_eq_none {x : Float} (h : Number.read? s = some x) :
    readBoolean? s = none :=
  Option.eq_none_iff_forall_ne_some.mpr fun b hb => by
    rw [Number.read?_eq_none hb] at h
    cases h

theorem Number.readFinite?_of_not_isFinite {x : Float} (h : read? s = some x)
    (hx : x.isFinite = false) : readFinite? s = none := by
  rw [readFinite?, h, Option.filter_some_neg (by simp [hx])]

namespace Value

/-- Guessing finds what is written. -/
theorem infer_eq_iff (raw : String) (hv : v.ty ≠ .text) :
    infer raw = v ↔ v.IsWritten (Text.trim raw.toList) := by
  generalize hs : Text.trim raw.toList = s
  rw [infer, hs]
  cases v with
  | text _ => exact absurd rfl hv
  | number x =>
    unfold IsWritten
    cases hnumber : Number.readFinite? s with
    | some y => simp
    | none => cases readBoolean? s <;> simp
  | boolean b =>
    unfold IsWritten
    cases hboolean : readBoolean? s with
    | some b' => simp [Number.readFinite?_eq_none hboolean]
    | none => cases Number.readFinite? s <;> simp

/-- Converting a text finds what is written. -/
theorem convert?_eq_iff (raw : String) (hv : v.ty ≠ .text) :
    (text raw).convert? v.ty = some v ↔ v.IsWritten (Text.trim raw.toList) := by
  cases v with
  | text _ => exact absurd rfl hv
  | number x => simp [convert?, ty, IsWritten]
  | boolean b => simp [convert?, ty, IsWritten]

end Value

namespace Outline

/-- The look at the first character loses no number. -/
theorem number?_eq (s : List Char) : number? s = Number.readFinite? s := by
  cases s with
  | nil => rfl
  | cons c rest =>
    cases hread : Number.readFinite? (c :: rest) with
    | none => rw [number?, hread, ite_self]
    | some x =>
      obtain ⟨_, _, hs, hc⟩ := Number.exists_head_of_readFinite? hread
      cases hs
      rw [number?]
      exact (if_pos hc).trans hread

theorem unquote?_eq_none (hs : Text.IsPlain s) : Text.unquote? s = none := by
  unfold Text.unquote?
  split
  · exact absurd (by decide) (hs '"' (List.mem_cons_self ..))
  · rfl

theorem ofBracketed_eq_unreadable (hs : Text.IsPlain s) : ofBracketed s = unreadable := by
  cases s with
  | nil => rfl
  | cons c rest =>
    have hc := hs c (List.mem_cons_self ..)
    simp only [Text.structural, List.mem_cons, not_or] at hc
    rw [ofBracketed, if_neg hc.2.2.2.1, if_neg hc.2.1]
    exact ofCall_of_not_mem fun h => hs '(' h (by decide)

/-- What a text is that is no literal: nothing, a variable, a call, or items between parentheses, of
which it starts with the first. -/
theorem ofBracketed_cases (s : List Char) :
    ofBracketed s = unreadable ∨ (∃ target, ofBracketed s = reference target) ∨
      (∃ name inner, ofBracketed s = call name inner) ∨
      ∃ inner, ofBracketed s = group inner ∧ s.head? = some '(' := by
  cases s with
  | nil => exact .inl rfl
  | cons c rest =>
    simp only [ofBracketed]
    split
    · split
      · exact .inr (.inl ⟨_, rfl⟩)
      · exact .inl rfl
    · split
      · next hc =>
        split
        · exact .inr (.inr (.inr ⟨_, rfl, congrArg some hc⟩))
        · exact .inl rfl
      · simp only [ofCall]
        split
        · exact .inl rfl
        · split
          · exact .inr (.inr (.inl ⟨_, _, rfl⟩))
          · exact .inl rfl

/-- What a text is that writes neither a number nor a truth value. -/
theorem ofText_cases (hnumber : Number.readFinite? s = none)
    (hboolean : Value.readBoolean? s = none) :
    (∃ content, ofText s = text content) ∨ ofText s = ofBracketed s := by
  unfold ofText
  split
  · exact .inl ⟨_, rfl⟩
  · rw [hboolean, number?_eq, hnumber]
    exact .inr rfl

theorem ofText_of_readFinite? {x : Float} (h : Number.readFinite? s = some x) :
    ofText s = number x := by
  have hboolean := Value.readBoolean?_eq_none (Option.filter_eq_some_iff.mp h).1
  simp only [ofText, unquote?_eq_none (Number.isPlain_of_readFinite? h), hboolean, number?_eq, h]

theorem ofText_of_readBoolean? {b : Bool} (h : Value.readBoolean? s = some b) :
    ofText s = boolean b := by
  rcases Value.eq_of_readBoolean? h with ⟨rfl, rfl⟩ | ⟨rfl, rfl⟩ <;> rfl

/-- A number that is not finite is no literal, and nothing else. -/
theorem ofText_of_not_isFinite {x : Float} (h : Number.read? s = some x)
    (hx : x.isFinite = false) : ofText s = unreadable := by
  have hplain := Number.isPlain_of_read? h
  simp only [ofText, unquote?_eq_none hplain, Value.readBoolean?_eq_none h, number?_eq,
    Number.readFinite?_of_not_isFinite h hx, ofBracketed_eq_unreadable hplain]

end Outline

/-! ## The readers agree -/

theorem Form.read_ne_literal {raw : List Char} (hraw : (Text.trim raw).head? ≠ some '(')
    (hnumber : Number.readFinite? (Text.trim raw) = none)
    (hboolean : Value.readBoolean? (Text.trim raw) = none) :
    (∀ x, read raw ≠ number x) ∧ ∀ b, read raw ≠ boolean b := by
  rw [read_eq]
  rcases Outline.ofText_cases hnumber hboolean with ⟨content, h⟩ | h
  · simp [h]
  · rw [h]
    rcases Outline.ofBracketed_cases (Text.trim raw) with
      hs | ⟨target, hs⟩ | ⟨name, inner, hs⟩ | ⟨inner, -, hparen⟩
    · simp [hs]
    · simp [hs]
    · simp [hs]
    · exact absurd hparen hraw

/-- The form of a text that starts with no parenthesis is a number or a truth value if the text
writes it. -/
theorem Form.read_eq_form_iff (raw : List Char) (hraw : (Text.trim raw).head? ≠ some '(')
    (hv : v.ty ≠ .text) : read raw = v.form ↔ v.IsWritten (Text.trim raw) := by
  cases hnumber : Number.readFinite? (Text.trim raw) with
  | some x =>
    rw [read_eq, Outline.ofText_of_readFinite? hnumber]
    cases v with
    | text _ => exact absurd rfl hv
    | number y => simp [Value.form, Value.IsWritten, hnumber]
    | boolean b =>
      refine iff_of_false (by simp [Value.form]) fun hb => ?_
      rw [Number.readFinite?_eq_none hb] at hnumber
      cases hnumber
  | none =>
    cases hboolean : Value.readBoolean? (Text.trim raw) with
    | some b =>
      rw [read_eq, Outline.ofText_of_readBoolean? hboolean]
      cases v with
      | text _ => exact absurd rfl hv
      | number y => simp [Value.form, Value.IsWritten, hnumber]
      | boolean b' => simp [Value.form, Value.IsWritten, hboolean]
    | none =>
      obtain ⟨hnot, hnot'⟩ := read_ne_literal hraw hnumber hboolean
      cases v with
      | text _ => exact absurd rfl hv
      | number y => simp [Value.form, Value.IsWritten, hnumber, hnot]
      | boolean b' => simp [Value.form, Value.IsWritten, hboolean, hnot']

/-- The literals among the expressions are those of the forms. -/
theorem Reader.type_eq_literal_iff (reader : Reader) (form : Form) (hv : v.ty ≠ .text) :
    reader.type .any form = .ok (.literal v) ↔ form = v.form := by
  constructor
  · intro h
    cases form with
    | unreadable | reference target => cases h
    | boolean b | number x => cases h; rfl
    | text content =>
      rw [type] at h
      split at h
      · cases h
      · cases h
        exact absurd rfl hv
    | list items =>
      rw [type] at h
      cases hitems : reader.typeAll .any items with
      | error failure => rw [hitems] at h; cases h
      | ok es => rw [hitems] at h; cases h
    | call name arguments =>
      rw [type, typeCall] at h
      split at h
      · cases h
      · rw [if_neg (by simp)] at h
        cases h
  · rintro rfl
    cases v with
    | text _ => exact absurd rfl hv
    | number x | boolean b => rw [Value.form, type, Expr.coerce_any]

/-- Reading finds what is written. -/
theorem Reader.parse_eq_literal_iff (reader : Reader) (raw : String)
    (hraw : (Text.trim raw.toList).head? ≠ some '(') (hv : v.ty ≠ .text) :
    reader.parse raw .any = .ok (.literal v) ↔ v.IsWritten (Text.trim raw.toList) := by
  rw [parse, type_eq_literal_iff reader _ hv, Form.read_eq_form_iff _ hraw hv]

/-- Where no number and no truth value is found, the guess is the text that was trimmed. -/
theorem Value.infer_of_ty {raw : String} (h : (infer raw).ty = .text) :
    infer raw = text (String.ofList (Text.trim raw.toList)) := by
  unfold infer at h ⊢
  dsimp only at h ⊢
  split at h
  · cases h
  · split at h
    · cases h
    · rfl

/-- Guessing what a text was meant to be, reading it as an expression and converting it find the
same number or truth value, or none, in every text that starts with no parenthesis. A number that is
not finite, as the words for it are with a sign or none, is one for none of them. What is neither a
number nor a truth value is guessed to be the text without the blanks around it. -/
theorem literal_readers_agree (raw : String) (reader : Reader)
    (hraw : (Text.trim raw.toList).head? ≠ some '(') :
    (∀ v : Value, v.ty ≠ .text →
      (Value.infer raw = v ↔ ∃ w : Value, w.ty ≠ .text ∧
        reader.parse raw .any = .ok (.literal w) ∧
        ∀ (evaluator : Evaluator) (root : Nat) (state : State),
          (evaluator.eval ⟨root, .literal w⟩).runIn state = (.ok [v], state)) ∧
      (Value.infer raw = v ↔ (Value.text raw).convert? v.ty = some v)) ∧
    (∀ x, Number.read? (Text.trim raw.toList) = some x → x.isFinite = false →
      Value.infer raw = .text (String.ofList (Text.trim raw.toList)) ∧
      (∀ target, reader.parse raw target = .error .unparsable) ∧
      (Value.text raw).convert? .number = none) ∧
    (∀ sign ∈ [[], ['+'], ['-']], ∀ word : List Char,
      word.map Char.toLower ∈ Number.nonFiniteWords →
        ∃ x, Number.read? (sign ++ word) = some x ∧ x.isFinite = false) ∧
    ((Value.infer raw).ty = .text →
      Value.infer raw = .text (String.ofList (Text.trim raw.toList))) := by
  refine ⟨fun v hv => ⟨?_, ?_⟩, ?_, ?_, Value.infer_of_ty⟩
  · rw [Value.infer_eq_iff raw hv, ← reader.parse_eq_literal_iff raw hraw hv]
    have heval (evaluator : Evaluator) (root : Nat) (state : State) (w : Value) :
        (evaluator.eval ⟨root, .literal w⟩).runIn state = (.ok [w], state) := by
      rw [Evaluator.eval, Host.eval, Attempt.runIn_pure]
    constructor
    · exact fun h => ⟨v, hv, h, fun evaluator root state => heval evaluator root state v⟩
    · rintro ⟨w, -, h, hvalue⟩
      have hsame := hvalue {} 0 {}
      rw [heval] at hsame
      have hwv : w = v := by simpa using hsame
      rwa [hwv] at h
  · rw [Value.infer_eq_iff raw hv, Value.convert?_eq_iff raw hv]
  · intro x hread hx
    have hnumber := Number.readFinite?_of_not_isFinite hread hx
    have hboolean := Value.readBoolean?_eq_none hread
    refine ⟨by simp only [Value.infer, hnumber, hboolean], fun target => ?_, ?_⟩
    · rw [Reader.parse, Form.read_eq, Outline.ofText_of_not_isFinite hread hx, Reader.type]
    · rw [Value.convert?, hnumber, Option.map_none]
  · exact fun sign hsign word hword => Number.exists_read?_of_mem hsign hword

/-- A number with a sign, a leading point and an exponent, with blanks around it. -/
theorem literal_readers_agree_exponent :
    Value.infer " -.5e1\n" = .number (-5.0) ∧
      (∃ w : Value, w.ty ≠ .text ∧
        (⟨"", fun _ => none⟩ : Reader).parse " -.5e1\n" .any = .ok (.literal w) ∧
        ∀ (evaluator : Evaluator) (root : Nat) (state : State),
          (evaluator.eval ⟨root, .literal w⟩).runIn state = (.ok [.number (-5.0)], state)) ∧
      (Value.text " -.5e1\n").convert? .number = some (.number (-5.0)) := by
  obtain ⟨hagree, -⟩ := literal_readers_agree " -.5e1\n" ⟨"", fun _ => none⟩ (by decide)
  obtain ⟨hread, hconvert⟩ := hagree (.number (-5.0)) (by decide)
  have hinfer : Value.infer " -.5e1\n" = .number (-5.0) := by decide
  exact ⟨hinfer, hread.mp hinfer, hconvert.mp hinfer⟩

-- A decimal that is too large is no number.
example : Value.infer " 1e400\n" = .text "1e400" := by decide +kernel

end CallScript

import Mathlib.Data.List.Infix
import CallScript.Proofs.Segments
import CallScript.Typing

/-!
# Expressions written side by side

The arguments of a call, and the items of a list, are expressions with commas between them. Two
scans have to agree on where one of them ends: the splitting of the list, which counts brackets and
quotes with one signed number, and the reading of an expression, for which no bracket inside quotes
counts. They part where a quoted text holds a bracket without its partner: `"("` is an expression,
but in a list it hides every comma after it (`quoted_bracket_hides_comma`).

What is true is said with two counts, of the brackets that are open outside quotes (`outerDepth`)
and of those inside (`quotedDepth`). A text that can be read keeps its commas, outside quotes,
within brackets outside quotes, it closes all of these, and it does not look like a named argument
(`Text.IsEnclosed`). Such texts, written side by side, are split where they were joined exactly if
no comma in them and none behind them is exposed or hidden by the brackets inside quotes; in
particular if these brackets are balanced wherever a quote closes (`tokenize_side_by_side_iff`).
-/

namespace CallScript

open ArgumentList

namespace Text

/-! ## Brackets outside and inside quotes -/

/-- What a bracket adds to the number of those that are open. -/
def bracketWeight (c : Char) : Int :=
  if c = '(' ∨ c = '\x7b' then 1 else if c = ')' ∨ c = '\x7d' then -1 else 0

/-- How many brackets a text leaves open, a closed one that was not opened counting against the
others: those inside quotes if `inside`, else those outside. The text starts inside quotes if
`quoted`. -/
def openBrackets (inside quoted : Bool) : List Char → Int
  | [] => 0
  | c :: rest =>
    if c = '"' then openBrackets inside (!quoted) rest
    else (if quoted = inside then bracketWeight c else 0) + openBrackets inside quoted rest

/-- How many brackets outside quotes are open after a text. -/
def outerDepth (s : List Char) : Int := openBrackets false false s

/-- How many brackets inside quotes are open after a text. -/
def quotedDepth (s : List Char) : Int := openBrackets true false s

theorem isQuoted_cons (c : Char) (s : List Char) :
    isQuoted (c :: s) = if c = '"' then !isQuoted s else isQuoted s := by
  by_cases hc : c = '"'
  · subst hc
    simp only [isQuoted, List.count_cons_self, if_pos]
    rcases Nat.mod_two_eq_zero_or_one (s.count '"') with h | h <;> simp [Nat.add_mod, h]
  · rw [isQuoted, List.count_cons_of_ne hc, if_neg hc, isQuoted]

theorem openBrackets_append (inside quoted : Bool) (s t : List Char) :
    openBrackets inside quoted (s ++ t) =
      openBrackets inside quoted s + openBrackets inside (quoted != isQuoted s) t := by
  induction s generalizing quoted with
  | nil => simp [openBrackets, isQuoted]
  | cons c s ih =>
    simp only [List.cons_append, openBrackets, isQuoted_cons, ih]
    by_cases hc : c = '"'
    · simp only [if_pos hc]
      cases quoted <;> cases isQuoted s <;> rfl
    · simp only [if_neg hc, Int.add_assoc]

/-- Every bracket is outside quotes or inside. -/
theorem openBrackets_add (quoted : Bool) (s : List Char) :
    openBrackets false quoted s + openBrackets true quoted s =
      s.countP (fun c => c = '(' || c = '\x7b') - s.countP (fun c => c = ')' || c = '\x7d') := by
  induction s generalizing quoted with
  | nil => rfl
  | cons c s ih =>
    have hs := ih quoted
    have hs' := ih !quoted
    simp only [openBrackets, List.countP_cons, Bool.or_eq_true, decide_eq_true_eq]
    by_cases hq : c = '"'
    · subst hq
      simpa using hs'
    · by_cases ho : c = '(' ∨ c = '\x7b'
      · rcases ho with rfl | rfl <;> cases quoted <;> simp [bracketWeight] at hs ⊢ <;> omega
      · by_cases hc : c = ')' ∨ c = '\x7d'
        · rcases hc with rfl | rfl <;> cases quoted <;> simp [bracketWeight] at hs ⊢ <;> omega
        · cases quoted <;> simp [bracketWeight, hq, ho, hc] at hs ⊢ <;> omega

/-- Where no quote is open, splitting counts the brackets outside quotes and those inside. -/
theorem depth_eq {s : List Char} (h : isQuoted s = false) :
    depth s = outerDepth s + quotedDepth s := by
  have hcount : s.count '"' % 2 = 0 := by simpa [isQuoted] using h
  rw [depth, hcount, outerDepth, quotedDepth, openBrackets_add]
  simp

/-! ## Characters that mean nothing to a splitter -/

/-- The characters that tell where an argument ends, and whether it is named. -/
def structural : List Char := ['"', '(', ')', '\x7b', '\x7d', ',', ':']

theorem not_mem_structural {P : Char → Bool} (hP : (structural.all fun c => !P c) = true) {c : Char}
    (h : P c = true) : c ∉ structural := fun hc => by
  have hnot := List.all_eq_true.mp hP c hc
  rw [h] at hnot
  cases hnot

theorem not_mem_structural_of_isBlank {c : Char} (h : isBlank c = true) : c ∉ structural :=
  not_mem_structural (by decide) h

theorem not_mem_structural_of_isWordChar {c : Char} (h : isWordChar c = true) : c ∉ structural :=
  not_mem_structural (by decide) h

/-- Whether the characters of a text mean nothing to a splitter. -/
def IsPlain (s : List Char) : Prop := ∀ c ∈ s, c ∉ structural

instance (s : List Char) : Decidable (IsPlain s) :=
  List.decidableBAll (fun c => c ∉ structural) s

section

variable {s : List Char} (hs : IsPlain s)

include hs

theorem isQuoted_of_plain : isQuoted s = false := by
  have hcount : s.count '"' = 0 := List.count_eq_zero_of_not_mem fun h => hs _ h (by decide)
  simp [isQuoted, hcount]

theorem openBrackets_of_plain (inside quoted : Bool) : openBrackets inside quoted s = 0 := by
  induction s with
  | nil => rfl
  | cons c s ih =>
    have hc := hs c (List.mem_cons_self ..)
    simp only [structural, List.mem_cons, not_or] at hc
    rw [openBrackets, if_neg hc.1, ih fun d hd => hs d (List.mem_cons_of_mem _ hd)]
    simp [bracketWeight, hc]

end

theorem isQuoted_append (s t : List Char) : isQuoted (s ++ t) = (isQuoted s != isQuoted t) := by
  induction s with
  | nil => simp [isQuoted]
  | cons c s ih =>
    rw [List.cons_append, isQuoted_cons, isQuoted_cons, ih]
    by_cases hc : c = '"'
    · simp only [if_pos hc]
      cases isQuoted s <;> cases isQuoted t <;> rfl
    · simp only [if_neg hc]

/-! ## Blanks around a text -/

section

variable {before after s p rest : List Char} {c : Char}

/-- A character that is not in the first part is in the second. -/
theorem exists_of_append_left (hc : c ∉ before) (h : before ++ s = p ++ c :: rest) :
    ∃ q, p = before ++ q ∧ s = q ++ c :: rest := by
  rcases List.append_eq_append_iff.mp h with ⟨q, hp, hs⟩ | ⟨overlap, hbefore, hrest⟩
  · exact ⟨q, hp, hs⟩
  · cases overlap with
    | nil => exact ⟨[], by simpa using hbefore.symm, hrest.symm⟩
    | cons b overlap =>
      obtain ⟨rfl, -⟩ := List.cons.inj hrest
      exact absurd (by simp [hbefore]) hc

/-- A character that is not in the second part is in the first. -/
theorem exists_of_append_right (hc : c ∉ after) (h : s ++ after = p ++ c :: rest) :
    ∃ rest', s = p ++ c :: rest' := by
  rcases List.append_eq_append_iff.mp h with ⟨q, -, hafter⟩ | ⟨overlap, hs, hrest⟩
  · exact absurd (by simp [hafter]) hc
  · cases overlap with
    | nil => exact absurd (by simp [show after = _ from hrest.symm]) hc
    | cons b overlap =>
      obtain ⟨rfl, -⟩ := List.cons.inj hrest
      exact ⟨overlap, hs⟩

/-- A text is not named because of the blanks before it. -/
theorem isNamed_of_append_left {word : List Char} (hbefore : ∀ c ∈ before, isBlank c = true)
    (h : IsNamed (before ++ s) word rest) : IsNamed s word rest := by
  obtain ⟨blanks, hblanks, hne, hword, hs⟩ := h
  obtain ⟨q, hq, rfl⟩ := exists_of_append_left
    (fun hc => not_mem_structural_of_isBlank (hbefore _ hc) (by decide)) hs
  rcases List.append_eq_append_iff.mp hq with ⟨overlap, hoverlap, rfl⟩ | ⟨blanks', rfl, rfl⟩
  · -- What is in the blanks and in the word is nothing.
    cases overlap with
    | nil => exact ⟨[], by simp, hne, hword, rfl⟩
    | cons c overlap =>
      have hblank := hbefore c (by simp [hoverlap])
      have hletter := hword c (by simp)
      rw [not_isBlank_of_isWordChar hletter] at hblank
      cases hblank
  · exact ⟨blanks', fun c hc => hblanks c (List.mem_append_right _ hc), hne, hword, rfl⟩

/-- A text is not named because of the blanks behind it. -/
theorem exists_isNamed_of_append_right {word : List Char} (hafter : ∀ c ∈ after, isBlank c = true)
    (h : IsNamed (s ++ after) word rest) : ∃ rest', IsNamed s word rest' := by
  obtain ⟨blanks, hblanks, hne, hword, hs⟩ := h
  obtain ⟨rest', rfl⟩ := exists_of_append_right
    (fun hc => not_mem_structural_of_isBlank (hafter _ hc) (by decide)) hs
  exact ⟨rest', blanks, hblanks, hne, hword, rfl⟩

end

/-! ## What every text that can be read looks like -/

/-- Whether a text keeps to itself, as far as the brackets outside its quotes tell: every comma is
within a bracket or quoted, brackets and quotes are closed at the end, and it does not begin like a
named argument. -/
structure IsEnclosed (s : List Char) : Prop where
  comma : ∀ p rest, s = p ++ ',' :: rest → isQuoted p = false → 0 < outerDepth p
  brackets : outerDepth s = 0
  quotes : isQuoted s = false
  unnamed : ∀ word rest, ¬IsNamed s word rest

namespace IsEnclosed

variable {s : List Char}

/-- A text without any structure. -/
theorem of_isPlain (hs : IsPlain s) : IsEnclosed s where
  comma p rest h _ := absurd (by decide) (hs ',' (by simp [h]))
  brackets := openBrackets_of_plain hs false false
  quotes := isQuoted_of_plain hs
  unnamed word rest h := by
    obtain ⟨blanks, -, -, -, rfl⟩ := h
    exact hs ':' (by simp) (by decide)

/-- Blanks around a text change nothing. -/
theorem of_trim (h : IsEnclosed (trim s)) : IsEnclosed s := by
  obtain ⟨before, after, hblank, hs⟩ := exists_blanks_trim s
  have hbefore : ∀ c ∈ before, isBlank c = true := fun c hc =>
    hblank c (List.mem_append_left _ hc)
  have hafter : ∀ c ∈ after, isBlank c = true := fun c hc => hblank c (List.mem_append_right _ hc)
  have hplain : IsPlain before := fun c hc => not_mem_structural_of_isBlank (hbefore c hc)
  have hplain' : IsPlain after := fun c hc => not_mem_structural_of_isBlank (hafter c hc)
  generalize trim s = inner at h hs
  subst hs
  refine ⟨?_, ?_, ?_, ?_⟩
  · intro p rest hp hquoted
    rw [List.append_assoc] at hp
    obtain ⟨q, rfl, hq⟩ := exists_of_append_left (fun hc => hplain _ hc (by decide)) hp
    obtain ⟨rest', rfl⟩ := exists_of_append_right (fun hc => hplain' _ hc (by decide)) hq
    rw [isQuoted_append, isQuoted_of_plain hplain] at hquoted
    have hpos := h.comma q rest' rfl (by simpa using hquoted)
    rw [outerDepth, openBrackets_append, openBrackets_of_plain hplain, isQuoted_of_plain hplain]
    simpa [outerDepth] using hpos
  · have hnone := h.brackets
    rw [outerDepth] at hnone ⊢
    rw [openBrackets_append, openBrackets_append, openBrackets_of_plain hplain,
      openBrackets_of_plain hplain', isQuoted_of_plain hplain]
    simpa using hnone
  · rw [isQuoted_append, isQuoted_append, isQuoted_of_plain hplain, isQuoted_of_plain hplain',
      h.quotes]
    rfl
  · intro word rest hnamed
    obtain ⟨rest', hnamed⟩ := exists_isNamed_of_append_right hafter hnamed
    exact h.unnamed word rest' (isNamed_of_append_left hbefore hnamed)

end IsEnclosed

/-- Reading a character on the way to the closing bracket: it leaves brackets open, or it is this
bracket. -/
theorem closesFrom_cons {d : Int} {quoted : Bool} {c : Char} {s : List Char}
    (h : closesFrom d quoted (c :: s) = true) (hd : 1 ≤ d) :
    1 ≤ d + openBrackets false quoted [c] ∧
        closesFrom (d + openBrackets false quoted [c]) (quoted != isQuoted [c]) s = true ∨
      s = [] ∧ d + openBrackets false quoted [c] = 0 ∧ (quoted != isQuoted [c]) = false := by
  rw [closesFrom] at h
  split at h
  · next hq =>
    refine .inl ?_
    subst hq
    simpa [openBrackets, isQuoted, hd] using h
  · next hq =>
    have hquoted : (quoted != isQuoted [c]) = quoted := by simp [isQuoted, hq]
    rw [hquoted, openBrackets, if_neg hq, openBrackets]
    cases quoted with
    | true => exact .inl (by simpa [hd] using h)
    | false =>
      rw [if_neg Bool.false_ne_true] at h
      simp only [bracketWeight, if_true, Int.add_zero]
      split at h
      · next ho => exact .inl ⟨by rw [if_pos ho]; omega, by rwa [if_pos ho]⟩
      · next ho =>
        rw [if_neg ho]
        split at h
        · next hc =>
          rw [if_pos hc]
          split at h
          · exact .inr ⟨List.isEmpty_iff.mp h, by omega, trivial⟩
          · exact .inl ⟨by omega, h⟩
        · next hc => exact .inl (by simpa [hc, hd] using h)

/-- A text that is read up to the bracket that closes it, and no further: before its end a bracket
is open, and at its end none. -/
theorem of_closesFrom {d : Int} {quoted : Bool} {s : List Char} (h : closesFrom d quoted s = true)
    (hd : 1 ≤ d) :
    (∀ p c rest, s = p ++ c :: rest → 1 ≤ d + openBrackets false quoted p) ∧
      d + openBrackets false quoted s = 0 ∧ (quoted != isQuoted s) = false := by
  induction s generalizing d quoted with
  | nil => cases h
  | cons c s ih =>
    have hcons (t : List Char) : d + openBrackets false quoted (c :: t) =
        d + openBrackets false quoted [c] + openBrackets false (quoted != isQuoted [c]) t := by
      rw [Int.add_assoc, ← openBrackets_append, List.singleton_append]
    have hquoted (t : List Char) :
        (quoted != isQuoted (c :: t)) = ((quoted != isQuoted [c]) != isQuoted t) := by
      rw [← List.singleton_append, isQuoted_append, Bool.bne_assoc]
    rw [hcons s, hquoted s]
    rcases closesFrom_cons h hd with ⟨hd', hrest⟩ | ⟨rfl, hzero, hclosed⟩
    · obtain ⟨hopen, hend, hclosed⟩ := ih hrest hd'
      refine ⟨?_, hend, hclosed⟩
      intro p b rest hp
      cases p with
      | nil => simpa [openBrackets] using hd
      | cons c' q =>
        obtain ⟨rfl, hq⟩ := List.cons.inj hp
        rw [hcons]
        exact hopen q b rest hq
    · refine ⟨?_, by simpa [openBrackets] using hzero, by simpa [isQuoted] using hclosed⟩
      intro p b rest hp
      cases p with
      | nil => simpa [openBrackets] using hd
      | cons c' q =>
        have hnil := (List.cons.inj hp).2
        simp at hnil

/-- A text between two quotes, with the quotes in it written twice. -/
theorem of_halveQuotes? {s content : List Char} (h : halveQuotes? s = some content) :
    (∀ p rest, s ++ ['"'] = p ++ ',' :: rest → isQuoted p = false) ∧
      openBrackets false true s = 0 ∧ isQuoted s = false := by
  fun_induction halveQuotes? s generalizing content with
  | case1 =>
    refine ⟨?_, rfl, rfl⟩
    intro p rest hp
    have hmem : ',' ∈ ([] : List Char) ++ ['"'] := hp ▸ by simp
    exact absurd hmem (by decide)
  | case2 rest ih =>
    obtain ⟨content', hcontent, -⟩ := Option.map_eq_some_iff.mp h
    obtain ⟨hcomma, hopen, hclosed⟩ := ih hcontent
    refine ⟨?_, by simpa [openBrackets] using hopen, by simpa [isQuoted_cons] using hclosed⟩
    intro p rest' hp
    match p, hp with
    | [], hp | [_], hp => simp at hp
    | a :: b :: q, hp =>
      simp only [List.cons_append, List.cons.injEq] at hp
      obtain ⟨rfl, rfl, hq⟩ := hp
      simpa [isQuoted_cons] using hcomma q rest' hq
  | case3 => cases h
  | case4 c rest _ hc ih =>
    obtain ⟨content', hcontent, -⟩ := Option.map_eq_some_iff.mp h
    obtain ⟨hcomma, hopen, hclosed⟩ := ih hcontent
    refine ⟨?_, by simpa [openBrackets, hc] using hopen, by simpa [isQuoted_cons, hc] using hclosed⟩
    intro p rest' hp
    cases p with
    | nil => rfl
    | cons b q =>
      simp only [List.cons_append, List.cons.injEq] at hp
      obtain ⟨rfl, hq⟩ := hp
      simpa [isQuoted_cons, hc] using hcomma q rest' hq

/-- A text that is one literal between quotes. -/
theorem IsEnclosed.of_unquote? {s content : List Char} (h : unquote? s = some content) :
    IsEnclosed s := by
  rw [unquote?.eq_def] at h
  split at h
  · next rest =>
    split at h
    · next hlast =>
      obtain ⟨inner, rfl⟩ := List.getLast?_eq_some_iff.mp hlast
      rw [List.dropLast_concat] at h
      obtain ⟨hcomma, hopen, hclosed⟩ := of_halveQuotes? h
      refine ⟨?_, ?_, ?_, ?_⟩
      · intro p after hp hquoted
        cases p with
        | nil => simp at hp
        | cons b q =>
          obtain ⟨rfl, hq⟩ := List.cons.inj hp
          rw [isQuoted_cons, if_pos rfl, hcomma q after hq] at hquoted
          cases hquoted
      · rw [outerDepth, openBrackets, if_pos rfl, Bool.not_false, openBrackets_append, hopen,
          hclosed]
        rfl
      · rw [isQuoted_cons, if_pos rfl, isQuoted_append, hclosed]
        rfl
      · exact @Scanner.not_isNamed [] [] _ (by simp) (by simp) (by simp; decide)
    · cases h
  · cases h

theorem isWordChar_of_isIdentifier {s : List Char} (h : isIdentifier s = true) :
    ∀ c ∈ s, isWordChar c = true := by
  cases s with
  | nil => cases h
  | cons c rest =>
    obtain ⟨hc, hrest⟩ := Bool.and_eq_true_iff.mp h
    refine List.forall_mem_cons.mpr ⟨?_, List.all_eq_true.mp hrest⟩
    rw [isWordChar, hc, Bool.true_or]

/-- The search for a closing bracket reads over what is neither a bracket nor a quote. -/
theorem closesFrom_free {s : List Char} (hs : ∀ c ∈ s, c ∉ ['"', '(', ')', '\x7b', '\x7d'])
    (d : Int) (quoted : Bool) (rest : List Char) :
    closesFrom d quoted (s ++ rest) = closesFrom d quoted rest := by
  induction s with
  | nil => rfl
  | cons c s ih =>
    have hc := hs c (List.mem_cons_self ..)
    simp only [List.mem_cons, not_or] at hc
    have hrest := ih fun d hd => hs d (List.mem_cons_of_mem _ hd)
    rw [List.cons_append, closesFrom]
    simp [hc, hrest]

theorem closesFrom_plain {s : List Char} (hs : IsPlain s) (d : Int) (quoted : Bool)
    (rest : List Char) : closesFrom d quoted (s ++ rest) = closesFrom d quoted rest :=
  closesFrom_free (fun c hc h => hs c hc (List.mem_append_left [',', ':'] h)) d quoted rest

theorem closesFrom_opener {opener : Char} (hopener : opener = '(' ∨ opener = '\x7b') (d : Int)
    (rest : List Char) : closesFrom d false (opener :: rest) = closesFrom (d + 1) false rest := by
  have hquote : opener ≠ '"' := by rcases hopener with rfl | rfl <;> decide
  rw [closesFrom, if_neg hquote, if_neg Bool.false_ne_true, if_pos hopener]

theorem closesFrom_of_closesAtEnd {opener : Char} {rest : List Char}
    (hopener : opener = '(' ∨ opener = '\x7b') (h : closesAtEnd (opener :: rest) = true) :
    closesFrom 1 false rest = true :=
  (closesFrom_opener hopener 0 rest).symm.trans h

/-- A bracket that is closed by the last character of a text, with a word before it or none. -/
theorem IsEnclosed.of_closesAtEnd (word : List Char) {rest : List Char} {c : Char}
    (hword : ∀ c ∈ word, isWordChar c = true) (hc : c = '(' ∨ c = '\x7b')
    (h : closesAtEnd (c :: rest) = true) : IsEnclosed (word ++ c :: rest) := by
  have hplain : IsPlain word := fun c hc => not_mem_structural_of_isWordChar (hword c hc)
  have hquote : c ≠ '"' := by rcases hc with rfl | rfl <;> decide
  -- Behind the word and the bracket, one bracket is open.
  have hquoted (s : List Char) : isQuoted (word ++ c :: s) = isQuoted s := by
    rw [isQuoted_append, isQuoted_of_plain hplain, isQuoted_cons, if_neg hquote, Bool.false_bne]
  have hopen (s : List Char) : outerDepth (word ++ c :: s) = 1 + openBrackets false false s := by
    rw [outerDepth, openBrackets_append, openBrackets_of_plain hplain, isQuoted_of_plain hplain,
      openBrackets, if_neg hquote]
    simp [bracketWeight, hc]
  obtain ⟨hinside, hend, hclosed⟩ := of_closesFrom (closesFrom_of_closesAtEnd hc h) (Int.le_refl 1)
  refine ⟨?_, ?_, ?_, ?_⟩
  · intro p after hp _
    obtain ⟨q, rfl, hq⟩ := exists_of_append_left (fun hmem => hplain _ hmem (by decide)) hp
    cases q with
    | nil =>
      rw [(List.cons.inj hq).1] at hc
      simp at hc
    | cons b q =>
      obtain ⟨rfl, hrest⟩ := List.cons.inj hq
      rw [hopen]
      have := hinside q ',' after hrest
      omega
  · rw [hopen, hend]
  · rw [hquoted]
    simpa using hclosed
  · have hhead : ∀ d ∈ (c :: rest).head?, isWordChar d = false ∧
        (word = [] → isBlank d = false) ∧ (word ≠ [] → d ≠ ':') := by
      intro d hd
      cases hd
      rcases hc with rfl | rfl <;> exact ⟨by decide, fun _ => by decide, fun _ => by decide⟩
    exact @Scanner.not_isNamed [] _ _ (by simp) hword hhead

end Text

/-! ## The kinds of text -/

namespace Number

theorem isPlain_of_all_isDigit {s : List Char} (h : s.all Char.isDigit = true) : Text.IsPlain s :=
  fun c hc => Text.not_mem_structural (by decide) (List.all_eq_true.mp h c hc)

theorem isPlain_of_readExponent? {s : List Char} {e : Int} (h : readExponent? s = some e) :
    Text.IsPlain s := by
  have hdigits {digits : List Char} {e' : Int}
      (h : (if digits.isEmpty || !digits.all Char.isDigit then none else some e') = some e) :
      Text.IsPlain digits := by
    split at h
    · cases h
    · next hnot => exact isPlain_of_all_isDigit (by simp_all)
  unfold readExponent? at h
  split at h
  · exact List.forall_mem_cons.mpr ⟨by decide, hdigits h⟩
  · exact List.forall_mem_cons.mpr ⟨by decide, hdigits h⟩
  · exact hdigits h

theorem isPlain_of_splitFraction {s : List Char} (h : Text.IsPlain (splitFraction s).2) :
    Text.IsPlain s := by
  unfold splitFraction at h
  split at h
  · next rest =>
    rw [← List.takeWhile_append_dropWhile (p := Char.isDigit) (l := rest)]
    refine List.forall_mem_cons.mpr ⟨by decide, List.forall_mem_append.mpr ⟨?_, h⟩⟩
    exact isPlain_of_all_isDigit List.all_takeWhile
  · exact h

theorem isPlain_of_readDecimal? {s : List Char} {x : Float} (h : readDecimal? s = some x) :
    Text.IsPlain s := by
  rw [← List.takeWhile_append_dropWhile (p := Char.isDigit) (l := s)]
  refine List.forall_mem_append.mpr ⟨isPlain_of_all_isDigit List.all_takeWhile, ?_⟩
  apply isPlain_of_splitFraction
  simp only [readDecimal?] at h
  generalize (splitFraction (s.dropWhile Char.isDigit)).2 = rest at h ⊢
  split at h
  · cases h
  · split at h
    · exact fun c hc => absurd hc List.not_mem_nil
    · next c exponent =>
      split at h
      · next hc =>
        obtain ⟨e, he, -⟩ := Option.map_eq_some_iff.mp h
        refine List.forall_mem_cons.mpr ⟨?_, isPlain_of_readExponent? he⟩
        rcases (by simpa using hc : c = 'e' ∨ c = 'E') with rfl | rfl <;> decide
      · cases h

/-- Words of letters are plain, in any case. -/
theorem isPlain_of_map_toLower {s word : List Char} (h : s.map Char.toLower = word)
    (hword : (Text.structural.all fun c => !word.contains c.toLower) = true) :
    Text.IsPlain s := by
  intro c hc
  refine Text.not_mem_structural hword ?_
  rw [← h]
  simpa using ⟨c, hc, rfl⟩

theorem isPlain_of_readUnsigned? {s : List Char} {x : Float} (h : readUnsigned? s = some x) :
    Text.IsPlain s := by
  simp only [readUnsigned?, Bool.or_eq_true, decide_eq_true_eq] at h
  split at h
  · next hword =>
    rcases hword with hword | hword <;> exact isPlain_of_map_toLower hword (by decide)
  · split at h
    · next hword => exact isPlain_of_map_toLower hword (by decide)
    · exact isPlain_of_readDecimal? h

/-- A number is written without brackets, quotes, commas and colons. -/
theorem isPlain_of_read? {s : List Char} {x : Float} (h : read? s = some x) : Text.IsPlain s := by
  unfold read? at h
  split at h
  · obtain ⟨y, hy, -⟩ := Option.map_eq_some_iff.mp h
    exact List.forall_mem_cons.mpr ⟨by decide, isPlain_of_readUnsigned? hy⟩
  · exact List.forall_mem_cons.mpr ⟨by decide, isPlain_of_readUnsigned? h⟩
  · exact isPlain_of_readUnsigned? h

theorem isPlain_of_readFinite? {s : List Char} {x : Float} (h : readFinite? s = some x) :
    Text.IsPlain s :=
  isPlain_of_read? (Option.filter_eq_some_iff.mp h).1

end Number

namespace Outline

theorem isEnclosed_of_ofCall {s : List Char} (h : ofCall s ≠ unreadable) : Text.IsEnclosed s := by
  simp only [ofCall] at h
  split at h
  · exact absurd rfl h
  · next c rest hdrop =>
    split at h
    · next hcall =>
      obtain ⟨hname, hcloses⟩ := Bool.and_eq_true_iff.mp hcall
      have hopen : c = '(' := by
        have hhead := List.head?_dropWhile_not (fun c => decide (c ≠ '(')) s
        rw [hdrop] at hhead
        simpa using hhead
      rw [← List.takeWhile_append_dropWhile (p := fun c => decide (c ≠ '(')) (l := s), hdrop]
      exact .of_closesAtEnd _ (Text.isWordChar_of_isIdentifier hname) (.inl hopen) hcloses
    · exact absurd rfl h

theorem isEnclosed_of_ofBracketed {s : List Char} (h : ofBracketed s ≠ unreadable) :
    Text.IsEnclosed s := by
  cases s with
  | nil => exact absurd rfl h
  | cons c rest =>
    simp only [ofBracketed] at h
    split at h
    · next hc =>
      split at h
      · next hwritten =>
        exact .of_closesAtEnd [] (by simp) (.inr hc) (Bool.and_eq_true_iff.mp hwritten).1
      · exact absurd rfl h
    · split at h
      · next hc =>
        split at h
        · next hcloses => exact .of_closesAtEnd [] (by simp) (.inl hc) hcloses
        · exact absurd rfl h
      · exact isEnclosed_of_ofCall h

/-- Every text that is anything is enclosed. -/
theorem isEnclosed {s : List Char} (h : ofText s ≠ unreadable) : Text.IsEnclosed s := by
  rw [ofText] at h
  split at h
  · next content hquoted => exact .of_unquote? hquoted
  · split at h
    · next b hboolean =>
      apply Text.IsEnclosed.of_isPlain
      unfold Value.readBoolean? at hboolean
      split at hboolean
      · next hs => rw [hs]; decide
      · split at hboolean
        · next hs => rw [hs]; decide
        · cases hboolean
    · split at h
      · next x hnumber =>
        unfold number? at hnumber
        split at hnumber
        · cases hnumber
        · split at hnumber
          · exact .of_isPlain (Number.isPlain_of_readFinite? hnumber)
          · cases hnumber
      · exact isEnclosed_of_ofBracketed h

end Outline

/-! ## Segments -/

namespace ArgumentList

/-- The segments of a list from `nesting` on, with `current` already read of the first one. -/
def segments (nesting : Nesting) (current : List Char) : List Char → List (List Char)
  | [] => [current]
  | c :: rest =>
    if c = ',' && nesting.isTop then current :: segments nesting [] rest
    else segments (nesting.after c) (current ++ [c]) rest

/-- The arguments of a list are its segments. -/
theorem arguments_foldl_step {scanner : Scanner} {current : List Char}
    (h : scanner.Holds current) (rest : List Char) :
    (rest.foldl Scanner.step scanner).emit.arguments.reverse =
      scanner.arguments.reverse ++
        (segments scanner.nesting current rest).map RawArgument.ofSegment := by
  induction rest generalizing scanner current with
  | nil => rw [List.foldl_nil, Scanner.emit_of_holds h]; simp [segments]
  | cons c rest ih =>
    rw [List.foldl_cons, segments]
    cases hc : c = ',' && scanner.nesting.isTop with
    | true =>
      obtain ⟨hcomma, htop⟩ := Bool.and_eq_true_iff.mp hc
      rw [decide_eq_true_eq] at hcomma
      subst hcomma
      rw [Scanner.step_of_cut h htop, ih (Scanner.holds_start _ _ htop), if_pos rfl]
      simp
    | false =>
      obtain ⟨hholds, hafter, hargs⟩ := Scanner.holds_step h hc
      rw [ih hholds, hafter, hargs, if_neg Bool.false_ne_true]

theorem tokenize_eq_segments {raw : List Char} (h : raw ≠ []) :
    tokenize raw = (segments {} [] raw).map RawArgument.ofSegment := by
  rw [tokenize, if_neg (by simpa using h), Scanner.after,
    arguments_foldl_step (Scanner.holds_start {} [] rfl)]
  rfl

/-- A part of a list is passed over, or a segment ends at a comma in it. -/
theorem segments_append (nesting : Nesting) (current s rest : List Char) :
    (∀ p q, s = p ++ ',' :: q → (p.foldl Nesting.after nesting).isTop = false) ∧
        segments nesting current (s ++ rest) =
          segments (s.foldl Nesting.after nesting) (current ++ s) rest ∨
      ∃ p q others, s = p ++ ',' :: q ∧ (p.foldl Nesting.after nesting).isTop = true ∧
        segments nesting current (s ++ rest) = (current ++ p) :: others := by
  induction s generalizing nesting current with
  | nil => exact .inl ⟨fun p q h => by simp at h, by simp⟩
  | cons c s ih =>
    rw [List.cons_append, segments]
    cases hc : c = ',' && nesting.isTop with
    | true =>
      obtain ⟨hcomma, htop⟩ := Bool.and_eq_true_iff.mp hc
      rw [decide_eq_true_eq] at hcomma
      subst hcomma
      exact .inr ⟨[], s, _, rfl, htop, by rw [if_pos rfl, List.append_nil]⟩
    | false =>
      rw [if_neg Bool.false_ne_true]
      rcases ih (nesting.after c) (current ++ [c]) with
        ⟨huncut, heq⟩ | ⟨p, q, others, rfl, htop, heq⟩
      · refine .inl ⟨?_, by rw [heq]; simp⟩
        intro p q hs
        cases p with
        | nil =>
          rw [(List.cons.inj hs).1] at hc
          simpa using hc
        | cons b p =>
          obtain ⟨rfl, hrest⟩ := List.cons.inj hs
          exact huncut p q hrest
      · exact .inr ⟨c :: p, q, others, rfl, htop, by rw [heq]; simp⟩

/-- The first segment begins with what was already read of it. -/
theorem exists_segments_eq (nesting : Nesting) (current s : List Char) :
    ∃ more others, segments nesting current s = (current ++ more) :: others := by
  rcases segments_append nesting current s [] with ⟨-, heq⟩ | ⟨p, -, others, -, -, heq⟩
  · rw [List.append_nil] at heq
    exact ⟨s, [], heq⟩
  · rw [List.append_nil] at heq
    exact ⟨p, others, heq⟩

/-- An argument without a name has all of its segment as its text. -/
theorem trim_of_ofSegment {segment text : List Char}
    (h : RawArgument.ofSegment segment = ⟨none, String.ofList text⟩) :
    Text.trim segment = text := by
  by_cases hnamed : ∃ word rest, IsNamed segment word rest
  · obtain ⟨word, rest, hnamed⟩ := hnamed
    rw [ofSegment_of_isNamed hnamed] at h
    cases h
  · rw [ofSegment_of_not_isNamed fun word rest h => hnamed ⟨word, rest, h⟩] at h
    exact String.ofList_inj.mp (RawArgument.mk.inj h).2

/-- Trimming takes no comma away. -/
theorem count_comma_trim (s : List Char) : (Text.trim s).count ',' = s.count ',' := by
  obtain ⟨before, after, hblank, hs⟩ := Text.exists_blanks_trim s
  have hnone : ∀ part : List Char, (∀ c ∈ part, Text.isBlank c = true) → part.count ',' = 0 :=
    fun part hpart => List.count_eq_zero_of_not_mem fun h => absurd (hpart _ h) (by decide)
  conv => rhs; rw [hs]
  rw [List.count_append, List.count_append, hnone before fun c hc => hblank c (by simp [hc]),
    hnone after fun c hc => hblank c (by simp [hc])]
  omega

/-- Texts that are joined by commas, where splitting must find them again. -/
def joined (texts : List (List Char)) : List Char := [',', ' '].intercalate texts

/-- An argument without a name. -/
def positional (text : List Char) : RawArgument := ⟨none, String.ofList (Text.trim text)⟩

/-- Whether splitting passes over a text: at none of its commas is nothing open. -/
def IsUncut (text : List Char) : Prop :=
  ∀ p rest, text = p ++ ',' :: rest → isQuoted p = false → depth p ≠ 0

theorem isTop_foldl_after (s : List Char) :
    (s.foldl Nesting.after {}).isTop = true ↔ depth s = 0 ∧ isQuoted s = false := by
  rw [foldl_after, Nesting.isTop]
  simp

variable {blanks text : List Char} {texts : List (List Char)}

theorem ofSegment_of_isEnclosed (hblanks : ∀ c ∈ blanks, Text.isBlank c = true)
    (h : Text.IsEnclosed text) : RawArgument.ofSegment (blanks ++ text) = positional text := by
  have htrim : Text.trim (blanks ++ text) = Text.trim text := by
    rw [Text.trim, Text.trimStart, List.dropWhile_append_of_pos hblanks]
    rfl
  rw [ofSegment_of_not_isNamed fun word rest hnamed =>
    h.unnamed word rest (Text.isNamed_of_append_left hblanks hnamed), htrim, positional]

/-- A first segment with another number of commas is not the first text. -/
theorem count_comma_of_map {segment : List Char} {others : List (List Char)}
    (h : (segment :: others).map RawArgument.ofSegment = (text :: texts).map positional) :
    segment.count ',' = text.count ',' := by
  rw [List.map_cons, List.map_cons] at h
  rw [← count_comma_trim segment, trim_of_ofSegment (List.cons.inj h).1, count_comma_trim]

theorem isUncut_iff : IsUncut text ↔
    ∀ p rest, text = p ++ ',' :: rest → (p.foldl Nesting.after {}).isTop = false := by
  refine forall₃_congr fun p rest _ => ?_
  have htop := isTop_foldl_after p
  grind

theorem count_comma_of_isBlank (hblanks : ∀ c ∈ blanks, Text.isBlank c = true) :
    blanks.count ',' = 0 :=
  List.count_eq_zero_of_not_mem fun h => absurd (hblanks _ h) (by decide)

/-- If a segment ends within the first text, splitting does not pass over it, and does not find
it. -/
theorem iff_of_cut (hblanks : ∀ c ∈ blanks, Text.isBlank c = true) {p q : List Char}
    {others : List (List Char)} {closed : Prop} (htext : text = p ++ ',' :: q)
    (htop : (p.foldl Nesting.after {}).isTop = true) :
    ((blanks ++ p) :: others).map RawArgument.ofSegment = (text :: texts).map positional ↔
      (∀ t ∈ text :: texts, IsUncut t) ∧ closed := by
  refine iff_of_false ?_ ?_
  · intro h
    have hsame := count_comma_of_map h
    rw [htext, List.count_append, List.count_append, List.count_cons_self,
      count_comma_of_isBlank hblanks] at hsame
    omega
  · rintro ⟨huncut, -⟩
    have hnot := isUncut_iff.mp (huncut text (List.mem_cons_self ..)) p q htext
    rw [htop] at hnot
    cases hnot

/-- If the first segment goes on behind the comma after the first text, it has a comma too many. -/
theorem map_ofSegment_ne (hblanks : ∀ c ∈ blanks, Text.isBlank c = true) (nesting : Nesting)
    (rest : List Char) :
    (segments nesting (blanks ++ text ++ [',']) rest).map RawArgument.ofSegment ≠
      (text :: texts).map positional := by
  obtain ⟨more, others, hsegments⟩ := exists_segments_eq nesting (blanks ++ text ++ [',']) rest
  intro h
  rw [hsegments] at h
  have hsame := count_comma_of_map h
  rw [List.count_append, List.count_append, List.count_append, List.count_cons_self,
    count_comma_of_isBlank hblanks] at hsame
  omega

theorem joined_cons_cons (text next : List Char) (texts : List (List Char)) :
    joined (text :: next :: texts) = text ++ ',' :: ' ' :: joined (next :: texts) := by
  rw [joined, List.intercalate_cons_cons, List.append_assoc]
  rfl

/-- Enclosed texts are found again exactly if splitting passes over each of them and nothing is open
behind it, the last one apart. -/
theorem map_segments_joined_iff (hblanks : ∀ c ∈ blanks, Text.isBlank c = true)
    (henclosed : ∀ t ∈ text :: texts, Text.IsEnclosed t) :
    (segments {} blanks (joined (text :: texts))).map RawArgument.ofSegment =
        (text :: texts).map positional ↔
      (∀ t ∈ text :: texts, IsUncut t) ∧ ∀ t ∈ (text :: texts).dropLast, depth t = 0 := by
  -- By induction on the texts; `blanks` is the blank that was put before the first of them.
  induction texts generalizing blanks text with
  | nil =>
    have htext := henclosed text (List.mem_cons_self ..)
    have hsegments := segments_append {} blanks text []
    rw [List.append_nil] at hsegments
    rw [show joined [text] = text from List.intercalate_singleton]
    rcases hsegments with ⟨huncut, heq⟩ | ⟨p, q, others, hs, htop, heq⟩
    · simp [heq, segments, ofSegment_of_isEnclosed hblanks htext, isUncut_iff.mpr huncut]
    · rw [heq]
      exact iff_of_cut hblanks hs htop
  | cons next texts ih =>
    have htext := henclosed text (List.mem_cons_self ..)
    rw [joined_cons_cons]
    rcases segments_append {} blanks text (',' :: ' ' :: joined (next :: texts)) with
      ⟨huncut, heq⟩ | ⟨p, q, others, hs, htop, heq⟩
    · rw [heq, segments]
      by_cases hdepth : depth text = 0
      · -- The comma behind the text is found, and splitting starts over.
        have htop := (isTop_foldl_after text).mpr ⟨hdepth, htext.quotes⟩
        have hstart : text.foldl Nesting.after {} = {} := by
          rw [foldl_after, hdepth, htext.quotes]
        have hrest := @ih [' '] next (List.forall_mem_singleton.mpr rfl) fun t ht =>
          henclosed t (List.mem_cons_of_mem _ ht)
        have hblank : segments {} [] (' ' :: joined (next :: texts)) =
            segments {} [' '] (joined (next :: texts)) := rfl
        rw [htop, hstart, Bool.and_true, if_pos (by simp), hblank, List.map_cons,
          ofSegment_of_isEnclosed hblanks htext, List.map_cons (l := next :: texts),
          List.cons_inj_right, hrest, List.dropLast_cons_cons, List.forall_mem_cons (a := text),
          List.forall_mem_cons (a := text)]
        simp [hdepth, isUncut_iff.mpr huncut]
      · -- The comma is hidden, so the first segment goes on behind it.
        have htop : (text.foldl Nesting.after {}).isTop = false := by
          rw [Bool.eq_false_iff, Ne, isTop_foldl_after]
          exact fun h => hdepth h.1
        rw [htop, Bool.and_false, if_neg Bool.false_ne_true]
        exact iff_of_false (map_ofSegment_ne hblanks _ _) fun h => hdepth (h.2 text (by simp))
    · rw [heq]
      exact iff_of_cut hblanks hs htop

end ArgumentList

/-! ## Expressions side by side -/

/-- A text that is read as an expression is enclosed. -/
theorem Reader.isEnclosed_of_parse {reader : Reader} {text : String} {target : Ty} {e : Expr}
    (h : reader.parse text target = .ok e) : Text.IsEnclosed text.toList := by
  apply Text.IsEnclosed.of_trim
  apply Outline.isEnclosed
  intro hnone
  rw [parse, Form.read_eq, hnone] at h
  cases h

theorem Reader.toList_ne_nil_of_parse {reader : Reader} {text : String} {target : Ty} {e : Expr}
    (h : reader.parse text target = .ok e) : text.toList ≠ [] := by
  intro hnil
  rw [parse, hnil, Form.read_eq, show Text.trim [] = [] from rfl, Outline.ofText_nil] at h
  cases h

/-- Texts are split where they were joined exactly if splitting passes over each of them, and
nothing is open behind it, the last one apart. -/
theorem tokenize_intercalate_iff {texts : List String} (hne : ∀ text ∈ texts, text.toList ≠ [])
    (henclosed : ∀ text ∈ texts, Text.IsEnclosed text.toList) :
    (tokenize (", ".intercalate texts).toList = texts.map fun text =>
        ⟨none, String.ofList (Text.trim text.toList)⟩) ↔
      (∀ text ∈ texts, IsUncut text.toList) ∧ ∀ text ∈ texts.dropLast, depth text.toList = 0 := by
  cases texts with
  | nil => simp [tokenize]
  | cons text texts =>
    have hjoined : (", ".intercalate (text :: texts)).toList =
        joined (text.toList :: texts.map String.toList) := String.toList_intercalate
    have hraw : joined (text.toList :: texts.map String.toList) ≠ [] := by
      have htext := hne text (List.mem_cons_self ..)
      cases texts with
      | nil => simpa [joined] using htext
      | cons next texts => simp [joined_cons_cons]
    have hall : ∀ t ∈ text.toList :: texts.map String.toList, Text.IsEnclosed t := by
      simpa using henclosed
    have hiff := @map_segments_joined_iff [] _ _ (by simp) hall
    rw [← List.map_cons, ← List.map_dropLast, List.forall_mem_map, List.forall_mem_map,
      List.map_map] at hiff
    rw [hjoined, tokenize_eq_segments hraw]
    exact hiff

/-- Expressions that are written side by side, with a comma and a blank between them, are split
where they were joined, into one argument without a name for each, exactly if

* at no comma outside quotes within one of them the brackets inside quotes make up for those that
  are open outside, and
* behind each but the last as many brackets were closed inside quotes as were opened there.

This is so if the brackets inside quotes are balanced wherever no quote is open. -/
theorem tokenize_side_by_side_iff (texts : List String)
    (h : ∀ text ∈ texts, ∃ (reader : Reader) (target : Ty) (e : Expr),
      reader.parse text target = .ok e) :
    let split := tokenize (", ".intercalate texts).toList = texts.map fun text =>
      ⟨none, String.ofList (Text.trim text.toList)⟩
    (split ↔
      (∀ text ∈ texts, ∀ p rest, text.toList = p ++ ',' :: rest → isQuoted p = false →
        Text.outerDepth p + Text.quotedDepth p ≠ 0) ∧
      ∀ text ∈ texts.dropLast, Text.quotedDepth text.toList = 0) ∧
    ((∀ text ∈ texts, ∀ p, p <+: text.toList → isQuoted p = false → Text.quotedDepth p = 0) →
      split) := by
  have henclosed : ∀ text ∈ texts, Text.IsEnclosed text.toList := by
    intro text htext
    obtain ⟨reader, target, e, hparse⟩ := h text htext
    exact reader.isEnclosed_of_parse hparse
  intro split
  have hiff : split ↔ (∀ text ∈ texts, IsUncut text.toList) ∧
      ∀ text ∈ texts.dropLast, depth text.toList = 0 := by
    refine tokenize_intercalate_iff ?_ henclosed
    intro text htext
    obtain ⟨reader, target, e, hparse⟩ := h text htext
    exact reader.toList_ne_nil_of_parse hparse
  have hdepth : ∀ text ∈ texts, depth text.toList = Text.quotedDepth text.toList := by
    intro text htext
    rw [Text.depth_eq (henclosed text htext).quotes, (henclosed text htext).brackets, Int.zero_add]
  have hexact : split ↔
      (∀ text ∈ texts, ∀ p rest, text.toList = p ++ ',' :: rest → isQuoted p = false →
        Text.outerDepth p + Text.quotedDepth p ≠ 0) ∧
      ∀ text ∈ texts.dropLast, Text.quotedDepth text.toList = 0 := by
    rw [hiff]
    refine and_congr ?_ ?_
    · refine forall₂_congr fun text _ => forall₃_congr fun p rest _ =>
        forall_congr' fun hquoted => ?_
      rw [Text.depth_eq hquoted]
    · refine forall₂_congr fun text htext => ?_
      rw [hdepth text (List.dropLast_subset texts htext)]
  refine ⟨hexact, ?_⟩
  intro hbalanced
  refine hexact.mpr ⟨?_, ?_⟩
  · intro text htext p rest hp hquoted
    -- The comma is within a bracket outside quotes, and those inside quotes do not count.
    have hopen := (henclosed text htext).comma p rest hp hquoted
    rw [hbalanced text htext p ⟨_, hp.symm⟩ hquoted]
    omega
  · intro text htext
    have hmem := List.dropLast_subset texts htext
    exact hbalanced text hmem _ (List.prefix_refl _) (henclosed text hmem).quotes

/-- A call with the brackets `)` and `(` inside its quotes, and a quoted text with commas. -/
theorem tokenize_side_by_side_balanced :
    (∀ text ∈ ["f(\"a), (b\")", "\"(x, y)\""], ∃ (reader : Reader) (target : Ty) (e : Expr),
      reader.parse text target = .ok e) ∧
    tokenize (", ".intercalate ["f(\"a), (b\")", "\"(x, y)\""]).toList =
      [⟨none, "f(\"a), (b\")"⟩, ⟨none, "\"(x, y)\""⟩] := by
  have hread : ∀ text ∈ ["f(\"a), (b\")", "\"(x, y)\""],
      ∃ (reader : Reader) (target : Ty) (e : Expr), reader.parse text target = .ok e := by
    have hcall : Outline.ofText (Text.trim "f(\"a), (b\")".toList) =
        .call "f" "\"a), (b\"".toList := rfl
    have hquoted : Outline.ofText (Text.trim "\"(x, y)\"".toList) = .text "(x, y)" := rfl
    intro text htext
    rcases List.mem_cons.mp htext with rfl | htext
    · refine ⟨⟨"", fun _ => none⟩, .any,
        .call ⟨"", "f", tokenize "\"a), (b\"".toList⟩ .any true, ?_⟩
      rw [Reader.parse, Form.read_eq, hcall]
      rfl
    · rw [List.mem_singleton.mp htext]
      refine ⟨⟨"", fun _ => none⟩, .any, .literal (.text "(x, y)"), ?_⟩
      rw [Reader.parse, Form.read_eq, hquoted]
      rfl
  -- At each point outside quotes, the brackets inside quotes before it are balanced.
  have hbalanced : ∀ text ∈ ["f(\"a), (b\")", "\"(x, y)\""], ∀ p ∈ text.toList.inits,
      isQuoted p = false → Text.quotedDepth p = 0 := by decide
  exact ⟨hread, (tokenize_side_by_side_iff _ hread).2 fun text htext p hp =>
    hbalanced text htext p ((List.mem_inits p text.toList).mpr hp)⟩

/-- The quoted text `"("` is an expression, and so is `true`, but side by side they are one
argument: the bracket inside the quotes hides the comma. -/
theorem quoted_bracket_hides_comma :
    (∀ text ∈ ["\"(\"", "true"], ∃ (reader : Reader) (target : Ty) (e : Expr),
      reader.parse text target = .ok e) ∧
    tokenize (", ".intercalate ["\"(\"", "true"]).toList = [⟨none, "\"(\", true"⟩] ∧
    tokenize (", ".intercalate ["\"(\"", "true"]).toList ≠ ["\"(\"", "true"].map fun text =>
      ⟨none, String.ofList (Text.trim text.toList)⟩ := by
  have hquoted : Outline.ofText (Text.trim "\"(\"".toList) = .text "(" := rfl
  have htrue : Outline.ofText (Text.trim "true".toList) = .boolean true := rfl
  refine ⟨?_, by decide, by decide⟩
  intro text htext
  rcases List.mem_cons.mp htext with rfl | htext
  · refine ⟨⟨"", fun _ => none⟩, .any, .literal (.text "("), ?_⟩
    rw [Reader.parse, Form.read_eq, hquoted]
    rfl
  · rw [List.mem_singleton.mp htext]
    refine ⟨⟨"", fun _ => none⟩, .any, .literal (.boolean true), ?_⟩
    rw [Reader.parse, Form.read_eq, htrue]
    rfl

end CallScript

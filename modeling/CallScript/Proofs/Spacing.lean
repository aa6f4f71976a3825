import CallScript.Binding
import CallScript.Proofs.Grammar
import CallScript.Proofs.Masking

/-!
# Blanks in argument lists

Blanks may be put into an argument list where nobody would look for them: at both ends, on either
side of a comma at which an argument ends, and behind the colon of a name. These are the gaps of
the list (`ArgumentList.IsGap`), and blanks there make no difference (`tokenize_blanks`). The
scanner deals with them in different places, but all of them come to the same: they stand at one
end of a segment, or right behind the colon of its name, and are trimmed off there.

So a call is read alike with blanks between its parentheses, as long as there is anything else
between them (`Reader.parse_between_blanks`). The empty list is the exception. It has no argument,
and a list of blanks is not empty: its only argument has no text (`blank_list_has_an_argument`).
-/

namespace CallScript

open ArgumentList Text

variable {blanks : List Char}

/-! ## Blanks around a segment -/

namespace Text

theorem trimStart_blanks (hblanks : ∀ c ∈ blanks, isBlank c = true) (s : List Char) :
    trimStart (blanks ++ s) = trimStart s := by
  rw [trimStart, List.dropWhile_append_of_pos hblanks]
  rfl

theorem trim_blanks_left (hblanks : ∀ c ∈ blanks, isBlank c = true) (s : List Char) :
    trim (blanks ++ s) = trim s := by
  rw [trim, trimStart_blanks hblanks, trim]

theorem trim_blanks_right (hblanks : ∀ c ∈ blanks, isBlank c = true) (s : List Char) :
    trim (s ++ blanks) = trim s := by
  have hend (t : List Char) : trimEnd (t ++ blanks) = trimEnd t := by
    rw [trimEnd, List.reverse_append, List.dropWhile_append_of_pos fun c hc =>
      hblanks c (List.mem_reverse.mp hc)]
    rfl
  rw [trim, trim, trimStart, List.dropWhile_append]
  split
  · next hempty =>
    -- All of the text is blank.
    have hnil : trimStart s = [] := by simpa [trimStart] using hempty
    have hall : blanks.dropWhile isBlank = [] := List.dropWhile_eq_nil_iff.mpr hblanks
    rw [hnil, hall]
  · exact hend _

end Text

theorem ofSegment_blanks_left (hblanks : ∀ c ∈ blanks, isBlank c = true) (s : List Char) :
    RawArgument.ofSegment (blanks ++ s) = RawArgument.ofSegment s := by
  simp only [RawArgument.ofSegment, trimStart_blanks hblanks, trim_blanks_left hblanks]

theorem ofSegment_blanks_right (hblanks : ∀ c ∈ blanks, isBlank c = true) (s : List Char) :
    RawArgument.ofSegment (s ++ blanks) = RawArgument.ofSegment s := by
  by_cases hnamed : ∃ word rest, IsNamed s word rest
  · obtain ⟨word, rest, hnamed⟩ := hnamed
    have hlonger : IsNamed (s ++ blanks) word (rest ++ blanks) := by
      obtain ⟨front, hfront, hne, hword, rfl⟩ := hnamed
      exact ⟨front, hfront, hne, hword, by simp⟩
    rw [ofSegment_of_isNamed hnamed, ofSegment_of_isNamed hlonger, trim_blanks_right hblanks]
  · have hnone : ∀ word rest, ¬IsNamed (s ++ blanks) word rest := fun word rest h => by
      obtain ⟨rest', h⟩ := exists_isNamed_of_append_right hblanks h
      exact hnamed ⟨word, rest', h⟩
    rw [ofSegment_of_not_isNamed hnone,
      ofSegment_of_not_isNamed fun word rest h => hnamed ⟨word, rest, h⟩,
      trim_blanks_right hblanks]

/-- Blanks behind the colon of a name. -/
theorem ofSegment_blanks_named (hblanks : ∀ c ∈ blanks, isBlank c = true) {s word : List Char}
    (h : IsNamed s word []) (rest : List Char) :
    RawArgument.ofSegment (s ++ blanks ++ rest) = RawArgument.ofSegment (s ++ rest) := by
  have hnamed (rest : List Char) : IsNamed (s ++ rest) word rest := by
    obtain ⟨front, hfront, hne, hword, rfl⟩ := h
    exact ⟨front, hfront, hne, hword, by simp⟩
  rw [List.append_assoc, ofSegment_of_isNamed (hnamed _), ofSegment_of_isNamed (hnamed _),
    trim_blanks_left hblanks]

/-! ## Gaps -/

namespace ArgumentList

/-- Where blanks may stand in a list without making a difference: at both ends, on either side of a
comma at which an argument ends, and behind the colon of a name. -/
inductive IsGap : List Char → List Char → Prop where
  | start (s : List Char) : IsGap [] s
  | finish (s : List Char) : IsGap s []
  | beforeComma {left : List Char} (ends : Scanner.Ends left ',') (right : List Char) :
      IsGap left (',' :: right)
  | afterComma {left : List Char} (ends : Scanner.Ends left ',') (right : List Char) :
      IsGap (left ++ [',']) right
  | afterColon {left : List Char} (names : Scanner.Names left ':') (right : List Char) :
      IsGap (left ++ [':']) right

/-- Blanks are read as a part of the segment that they stand in. -/
theorem segments_blanks (hblanks : ∀ c ∈ blanks, isBlank c = true) (nesting : Nesting)
    (current rest : List Char) :
    segments nesting current (blanks ++ rest) = segments nesting (current ++ blanks) rest := by
  induction blanks generalizing current with
  | nil => simp
  | cons c blanks ih =>
    have hc := hblanks c (List.mem_cons_self ..)
    have hcomma : c ≠ ',' := by
      rintro rfl
      exact absurd hc (by decide)
    rw [List.cons_append, segments, if_neg (by simp [hcomma]),
      Scanner.after_of_plain _ (.inr (.inl hc)),
      ih fun d hd => hblanks d (List.mem_cons_of_mem _ hd)]
    simp

/-- What is still to be read does not depend on what was read of the first segment. -/
theorem exists_segments (nesting : Nesting) (s : List Char) :
    ∃ more others, ∀ current, segments nesting current s = (current ++ more) :: others := by
  induction s generalizing nesting with
  | nil => exact ⟨[], [], fun current => by rw [segments, List.append_nil]⟩
  | cons c s ih =>
    by_cases hcut : (c = ',' && nesting.isTop) = true
    · exact ⟨[], segments nesting [] s, fun current => by
        rw [segments, if_pos hcut, List.append_nil]⟩
    · obtain ⟨more, others, hsegments⟩ := ih (nesting.after c)
      refine ⟨c :: more, others, fun current => ?_⟩
      rw [segments, if_neg hcut, hsegments, List.append_assoc, List.singleton_append]

/-- In a gap, blanks change no segment in a way that matters to its argument. -/
theorem IsGap.map_segments (hblanks : ∀ c ∈ blanks, isBlank c = true) {left right : List Char}
    (h : IsGap left right) : ∃ current, (Scanner.after left).Holds current ∧
      (segments (Scanner.after left).nesting (current ++ blanks) right).map RawArgument.ofSegment =
        (segments (Scanner.after left).nesting current right).map RawArgument.ofSegment := by
  -- At the start of a segment, blanks are trimmed off it in front, whatever it is.
  have first (nesting : Nesting) :
      (segments nesting ([] ++ blanks) right).map RawArgument.ofSegment =
        (segments nesting [] right).map RawArgument.ofSegment := by
    obtain ⟨more, others, hsegments⟩ := exists_segments nesting right
    rw [hsegments, hsegments, List.map_cons, List.map_cons, List.nil_append, List.nil_append,
      ofSegment_blanks_left hblanks]
  cases h with
  | start => exact ⟨[], Scanner.holds_start {} [] rfl, first _⟩
  | finish =>
    obtain ⟨⟨current, hholds⟩, -⟩ := Scanner.holds_after left
    refine ⟨current, hholds, ?_⟩
    rw [segments, segments, List.map_singleton, List.map_singleton,
      ofSegment_blanks_right hblanks]
  | beforeComma ends right =>
    obtain ⟨⟨current, hholds⟩, -⟩ := Scanner.holds_after left
    have hcut := Scanner.ends_iff_isTop.mp ends
    refine ⟨current, hholds, ?_⟩
    rw [segments, segments, if_pos hcut, if_pos hcut, List.map_cons, List.map_cons,
      ofSegment_blanks_right hblanks]
  | @afterComma left ends right =>
    obtain ⟨⟨current, hholds⟩, -⟩ := Scanner.holds_after left
    obtain ⟨-, htop⟩ := Bool.and_eq_true_iff.mp (Scanner.ends_iff_isTop.mp ends)
    rw [Scanner.after_concat, Scanner.step_of_cut hholds htop]
    exact ⟨[], Scanner.holds_start _ _ htop, first _⟩
  | @afterColon left names right =>
    obtain ⟨⟨current, hholds⟩, -⟩ := Scanner.holds_after (left ++ [':'])
    obtain ⟨-, -, htext⟩ := Scanner.of_names names
    have hnamed : IsNamed current (Scanner.after (left ++ [':'])).name.reverse [] := by
      have hbuffers := hholds
      rwa [Scanner.Holds, names.2, htext] at hbuffers
    obtain ⟨more, others, hsegments⟩ :=
      exists_segments (Scanner.after (left ++ [':'])).nesting right
    refine ⟨current, hholds, ?_⟩
    rw [hsegments, hsegments, List.map_cons, List.map_cons, ofSegment_blanks_named hblanks hnamed]

end ArgumentList

/-- Blanks in a gap of a list that is not empty make no difference. -/
theorem tokenize_blanks (hblanks : ∀ c ∈ blanks, isBlank c = true) {left right : List Char}
    (hgap : IsGap left right) (hne : left ++ right ≠ []) :
    tokenize (left ++ blanks ++ right) = tokenize (left ++ right) := by
  obtain ⟨current, hholds, hsegments⟩ := hgap.map_segments hblanks
  have hne' : left ++ (blanks ++ right) ≠ [] := by
    intro hnil
    simp only [List.append_eq_nil_iff] at hnil
    exact hne (by rw [hnil.1, hnil.2.2]; rfl)
  rw [List.append_assoc, tokenize_append hholds hne', segments_blanks hblanks, hsegments,
    ← tokenize_append hholds hne]

/-! ## Blanks between the parentheses of a call -/

section

variable {before after args : List Char}

theorem tokenize_between_blanks (hbefore : ∀ c ∈ before, isBlank c = true)
    (hafter : ∀ c ∈ after, isBlank c = true) (hargs : args ≠ []) :
    tokenize (before ++ args ++ after) = tokenize args := by
  have hleft := tokenize_blanks hbefore (.start args) (by simpa using hargs)
  have hright := tokenize_blanks hafter (.finish (before ++ args)) (by simp [hargs])
  rw [List.append_nil, List.append_nil] at hright
  rw [hright]
  exact hleft

/-- Blanks before a character tell nothing about where a bracket closes. -/
theorem Text.closesFrom_blanks (hblanks : ∀ c ∈ blanks, isBlank c = true) (d : Int)
    (quoted : Bool) (s : List Char) {t : List Char} (ht : t ≠ []) :
    closesFrom d quoted (s ++ blanks ++ t) = closesFrom d quoted (s ++ t) := by
  induction s generalizing d quoted with
  | nil =>
    have hplain : IsPlain blanks := fun c hc => not_mem_structural_of_isBlank (hblanks c hc)
    exact closesFrom_plain hplain d quoted t
  | cons c s ih =>
    have hnonempty (s : List Char) : (s ++ t).isEmpty = false :=
      List.isEmpty_eq_false_iff.mpr (by simp [ht])
    simp only [List.cons_append, closesFrom, ih, hnonempty]

/-- The form of a text that is a name and something between parentheses. -/
theorem Form.read_call {name : List Char} (hname : isIdentifier name = true) (inner : List Char) :
    Form.read (name ++ '(' :: inner ++ [')']) =
      if closesAtEnd ('(' :: inner ++ [')']) then .call (String.ofList name) (tokenize inner)
      else .unreadable := by
  have hword := isWordChar_of_isIdentifier hname
  have hparen : '(' ∉ name := fun hmem => absurd (hword _ hmem) (by decide)
  have hbrace : '\x7b' ∉ name := fun hmem => absurd (hword _ hmem) (by decide)
  cases name with
  | nil => cases hname
  | cons c name =>
    have hhead : ∀ d ∈ (c :: name ++ '(' :: inner).head?, isBlank d = false := by
      intro d hd
      cases hd
      exact not_isBlank_of_isWordChar (hword c (List.mem_cons_self ..))
    have htrim : trim (c :: name ++ '(' :: inner ++ [')']) =
        c :: name ++ '(' :: inner ++ [')'] := by
      have hstart := @trimStart_append [] _ (fun _ h => absurd h List.not_mem_nil) hhead
      rw [List.nil_append] at hstart
      rw [trim_concat (by decide), hstart]
    have hcall := Outline.ofCall_append (inner ++ [')']) hparen
    have hc : c ≠ '\x7b' ∧ c ≠ '(' := ⟨fun h => hbrace (by simp [h]), fun h => hparen (by simp [h])⟩
    rw [Form.read_eq, htrim, Outline.ofText_concat (.inl rfl), List.append_assoc, List.cons_append,
      Outline.ofBracketed, if_neg hc.1, if_neg hc.2]
    rw [List.cons_append] at hcall
    rw [List.cons_append, hcall, hname, Bool.true_and, List.dropLast_concat]
    by_cases hcloses : closesAtEnd ('(' :: (inner ++ [')'])) = true
    · rw [if_pos hcloses, if_pos hcloses]
    · rw [if_neg hcloses, if_neg hcloses]

/-- Blanks between the parentheses of a call with arguments do not change how it is read. -/
theorem Reader.parse_between_blanks (reader : Reader) (target : Ty) {name : List Char}
    (hname : isIdentifier name = true) (hbefore : ∀ c ∈ before, isBlank c = true)
    (hafter : ∀ c ∈ after, isBlank c = true) (hargs : args ≠ []) :
    reader.parse (String.ofList (name ++ '(' :: (before ++ args ++ after) ++ [')'])) target =
      reader.parse (String.ofList (name ++ '(' :: args ++ [')'])) target := by
  have hcloses : closesAtEnd ('(' :: (before ++ args ++ after) ++ [')']) =
      closesAtEnd ('(' :: args ++ [')']) := by
    have hleft := closesFrom_blanks hbefore 0 false ['('] (t := args ++ [')']) (by simp)
    have hright := closesFrom_blanks hafter 0 false ('(' :: before ++ args) (t := [')']) (by simp)
    simp only [closesAtEnd, List.append_assoc, List.cons_append, List.nil_append] at hleft hright ⊢
    rw [hright, hleft]
  rw [parse, parse, String.toList_ofList, String.toList_ofList, Form.read_call hname,
    Form.read_call hname, hcloses, tokenize_between_blanks hbefore hafter hargs]

end

/-- Blanks alone are one argument, without a name and a text. -/
theorem tokenize_of_blank (hblanks : ∀ c ∈ blanks, isBlank c = true) (hne : blanks ≠ []) :
    tokenize blanks = [⟨none, ""⟩] := by
  have hsegments := segments_blanks hblanks {} [] []
  rw [List.append_nil, List.nil_append, segments] at hsegments
  rw [tokenize_eq_segments hne, hsegments, List.map_singleton]
  have hempty := ofSegment_blanks_left hblanks []
  rw [List.append_nil] at hempty
  rw [hempty]
  rfl

/-- Blanks make no difference in a list that is not empty, wherever they stand in a gap of it. So a
call with arguments is read alike with blanks between its parentheses, whatever these arguments are.
A list of nothing but blanks is not an empty one: it has an argument, without a name and a text. -/
theorem blanks_do_not_show (blanks : List Char) (hblanks : ∀ c ∈ blanks, isBlank c = true) :
    (∀ left right, IsGap left right → left ++ right ≠ [] →
      tokenize (left ++ blanks ++ right) = tokenize (left ++ right)) ∧
    (∀ (reader : Reader) (target : Ty) (name args after : List Char), isIdentifier name = true →
      args ≠ [] → (∀ c ∈ after, isBlank c = true) →
      reader.parse (String.ofList (name ++ '(' :: (blanks ++ args ++ after) ++ [')'])) target =
        reader.parse (String.ofList (name ++ '(' :: args ++ [')'])) target) ∧
    tokenize [] = [] ∧ (blanks ≠ [] → tokenize blanks = [⟨none, ""⟩]) :=
  ⟨fun _ _ hgap hne => tokenize_blanks hblanks hgap hne,
    fun reader target _ _ _ hname hargs hafter =>
      reader.parse_between_blanks target hname hblanks hafter hargs,
    rfl, tokenize_of_blank hblanks⟩

/-- A blank in each gap of the list `a:1,2`. -/
theorem blanks_do_not_show_everywhere :
    tokenize " a: 1 , 2 ".toList = tokenize "a:1,2".toList := by
  obtain ⟨hgaps, -⟩ := blanks_do_not_show [' '] (List.forall_mem_singleton.mpr rfl)
  have hends : Scanner.Ends "a:1".toList ',' := Scanner.ends_iff.mpr ⟨rfl, by decide, by decide⟩
  have hends' : Scanner.Ends "a: 1".toList ',' := Scanner.ends_iff.mpr ⟨rfl, by decide, by decide⟩
  have hends'' : Scanner.Ends "a: 1 ".toList ',' := Scanner.ends_iff.mpr ⟨rfl, by decide, by decide⟩
  have hnames : Scanner.Names "a".toList ':' := ⟨by decide, by decide⟩
  have hcolon := hgaps _ _ (.afterColon hnames "1,2".toList) (by decide)
  have hbefore := hgaps _ _ (.beforeComma hends' "2".toList) (by decide)
  have hafter := hgaps _ _ (.afterComma hends'' "2".toList) (by decide)
  have hstart := hgaps _ _ (.start "a: 1 , 2".toList) (by decide)
  have hfinish := hgaps _ _ (.finish " a: 1 , 2".toList) (by decide)
  exact hfinish.trans (hstart.trans (hafter.trans (hbefore.trans hcolon)))

/-- A blank in the empty list makes a difference, also to a function without parameters. -/
theorem blank_list_has_an_argument :
    IsGap [] [] ∧ tokenize " ".toList ≠ tokenize "".toList ∧
      bindArguments (⟨"", fun _ => none⟩ : Reader).parse ⟨"", "f", [], none, false⟩
        (tokenize "".toList) = .ok [] ∧
      bindArguments (⟨"", fun _ => none⟩ : Reader).parse ⟨"", "f", [], none, false⟩
        (tokenize " ".toList) = .error .tooManyArguments := by
  have hblank : tokenize " ".toList = [⟨none, ""⟩] := rfl
  refine ⟨.start [], by decide, rfl, ?_⟩
  rw [hblank]
  rfl

end CallScript

import CallScript.Proofs.SideBySide

/-!
# What brackets and quotes hide

Commas and colons between brackets, or between quotes, are meant to be part of an argument: they
neither end it nor name it. For quotes this is so in every list (`quotes_and_brackets_mask`).

For brackets it is so as long as every closing bracket before them has an opener. Since the scanner
counts all brackets of a list with one signed number, a stray closer takes the nesting below zero;
the opener of a balanced span then brings it back to zero, and what is in the span lies at top level
(`stray_closer_exposes_span`). In general a comma is hidden exactly if the brackets that are open
before the span do not make up for those that are open within it, up to the comma. A colon never
names an argument unless a comma of the span has ended one.

All this is about brackets outside quotes. The scanner counts those inside quotes too, so it is said
of lists in which these are balanced wherever no quote is open.
-/

namespace CallScript

open ArgumentList Text

namespace Scanner

/-! ## Where arguments end and are named -/

/-- Whether the scanner, having read some of a list, completes an argument at the next character. -/
def Ends (read : List Char) (c : Char) : Prop :=
  (after (read ++ [c])).arguments ≠ (after read).arguments

/-- Whether the scanner, having read some of a list, finds at the next character that the argument
has a name. -/
def Names (read : List Char) (c : Char) : Prop :=
  (after read).phase ≠ .named ∧ (after (read ++ [c])).phase = .named

variable {read : List Char} {c : Char}

theorem after_concat (read : List Char) (c : Char) :
    after (read ++ [c]) = (after read).step c := by
  rw [after, List.foldl_append]
  rfl

theorem isTop_after (read : List Char) :
    (after read).nesting.isTop = true ↔ depth read = 0 ∧ isQuoted read = false := by
  rw [(holds_after read).2, ← foldl_after]
  exact isTop_foldl_after read

theorem ends_iff_isTop : Ends read c ↔ (c = ',' && (after read).nesting.isTop) = true := by
  obtain ⟨⟨current, h⟩, -⟩ := holds_after read
  rw [Ends, after_concat]
  by_cases hcut : (c = ',' && (after read).nesting.isTop) = true
  · obtain ⟨hcomma, htop⟩ := Bool.and_eq_true_iff.mp hcut
    obtain rfl : c = ',' := of_decide_eq_true hcomma
    rw [step_of_cut h htop]
    exact iff_of_true (List.cons_ne_self _ _) hcut
  · rw [(holds_step h (Bool.eq_false_iff.mpr hcut)).2.2]
    exact iff_of_false (fun hne => hne rfl) hcut

/-- An argument ends at a comma where nothing is open. -/
theorem ends_iff : Ends read c ↔ c = ',' ∧ depth read = 0 ∧ isQuoted read = false := by
  rw [ends_iff_isTop, Bool.and_eq_true_iff, isTop_after, decide_eq_true_iff]

/-- Reading the text of an argument gives it no name. -/
theorem phase_read {scanner : Scanner} (h : (scanner.read c).phase = .named) :
    scanner.phase = .named := by
  rw [Scanner.read] at h
  split at h
  · cases h
  · exact h

/-- A name is found at a colon while one is possible, and the text of the argument starts behind the
colon. -/
theorem of_names (h : Names read c) :
    c = ':' ∧ (after read).phase = .naming ∧ (after (read ++ [c])).text = [] := by
  obtain ⟨hbefore, hnamed⟩ := h
  rw [after_concat] at hnamed ⊢
  generalize after read = scanner at hbefore hnamed ⊢
  cases hphase : scanner.phase with
  | naming =>
    simp only [step, hphase] at hnamed ⊢
    split at hnamed
    · cases hnamed
    · split at hnamed
      · cases hnamed
      · split at hnamed
        · next hword hblank hcolon =>
          refine ⟨?_, trivial, by rw [if_neg hword, if_neg hblank, if_pos hcolon]⟩
          simp only [Bool.and_eq_true, decide_eq_true_eq] at hcolon
          exact hcolon.1.1
        · cases phase_read hnamed
  | positional =>
    simp only [step, hphase] at hnamed
    cases hphase.symm.trans (phase_read hnamed)
  | named => exact absurd hphase hbefore

/-- An opening bracket or a quote decides that the argument has no name, if that is still open. -/
theorem phase_opener (read : List Char) (hc : c = '"' ∨ c = '(' ∨ c = '\x7b') :
    (after (read ++ [c])).phase ≠ .naming := by
  have hplain : isWordChar c = false ∧ isBlank c = false ∧ c ≠ ':' ∧ c ≠ ',' := by
    rcases hc with rfl | rfl | rfl <;> decide
  obtain ⟨hword, hblank, hcolon, hcomma⟩ := hplain
  rw [after_concat, step]
  split
  · simp [hword, hblank, hcolon, Scanner.read, hcomma]
  · next hphase => simp [Scanner.read, hcomma, hphase]
  · next hphase => simp [Scanner.read, hcomma, hphase]

/-- Once it is decided whether an argument has a name, this stands until the argument ends. -/
theorem phase_concat (hphase : (after read).phase ≠ .naming) (hends : ¬Ends read c) :
    (after (read ++ [c])).phase = (after read).phase := by
  have hcut : (c = ',' && (after read).nesting.isTop) = false :=
    Bool.eq_false_iff.mpr fun hcut => hends (ends_iff_isTop.mpr hcut)
  rw [after_concat, step]
  split
  · next hnaming => exact absurd hnaming hphase
  · rw [Scanner.read, hcut, if_neg Bool.false_ne_true]
  · rw [Scanner.read, hcut, if_neg Bool.false_ne_true]

theorem phase_append {s : List Char} (hphase : (after read).phase ≠ .naming)
    (hends : ∀ p d rest, s = p ++ d :: rest → ¬Ends (read ++ p) d) :
    (after (read ++ s)).phase = (after read).phase := by
  induction s using List.reverseRecOn with
  | nil => rw [List.append_nil]
  | append_singleton s d ih =>
    have hs := ih fun p e rest hp => hends p e (rest ++ [d]) (by simp [hp])
    have hd := hends s d [] rfl
    rw [← List.append_assoc, phase_concat (hs ▸ hphase) hd, hs]

end Scanner

/-! ## Spans that are hidden -/

/-- Whether the scanner passes over a part of a list, after what stands before it: no argument ends
at a character of it, and none is named there. -/
def IsMasked (before span : List Char) : Prop :=
  ∀ p c rest, span = p ++ c :: rest →
    ¬Scanner.Ends (before ++ p) c ∧ ¬Scanner.Names (before ++ p) c

/-- A text between two quotes. -/
def IsQuotedSpan (span : List Char) : Prop :=
  ∃ inner, span = '"' :: inner ++ ['"'] ∧ '"' ∉ inner

/-- A text from an opening bracket to where as many brackets were closed as were opened, for the
first time; those inside quotes do not count. -/
structure IsBracketSpan (span : List Char) : Prop where
  opens : ∃ c rest, span = c :: rest ∧ (c = '(' ∨ c = '\x7b')
  closes : outerDepth span = 0
  first : ∀ p, p <+: span → p ≠ [] → outerDepth p = 0 → p = span

variable {before span : List Char}

/-- Behind an opening bracket or a quote, a name is found only after a comma that ended an
argument. -/
theorem exists_ends_of_names {c : Char} {rest p q : List Char} {d : Char}
    (hc : c = '"' ∨ c = '(' ∨ c = '\x7b') (hp : c :: rest = p ++ d :: q)
    (h : Scanner.Names (before ++ p) d) :
    ∃ s t, p = s ++ ',' :: t ∧ Scanner.Ends (before ++ s) ',' := by
  obtain ⟨rfl, hnaming, -⟩ := Scanner.of_names h
  by_contra hnone
  cases p with
  | nil =>
    obtain ⟨rfl, -⟩ := List.cons.inj hp
    simp at hc
  | cons e p =>
    obtain ⟨rfl, -⟩ := List.cons.inj hp
    -- The name is decided on at the opener, and no comma changes that.
    have hopener := Scanner.phase_opener before hc
    have hphase := @Scanner.phase_append (before ++ [c]) p hopener fun s e t hs hends => by
      obtain ⟨rfl, -, -⟩ := Scanner.ends_iff.mp hends
      exact hnone ⟨c :: s, t, by simp [hs], by simpa using hends⟩
    rw [List.append_assoc, List.singleton_append, hnaming] at hphase
    exact hopener hphase.symm

/-- A span is hidden if no argument ends in it. -/
theorem isMasked_of_not_ends {c : Char} {rest : List Char} (hc : c = '"' ∨ c = '(' ∨ c = '\x7b')
    (h : ∀ p q, c :: rest = p ++ ',' :: q → ¬Scanner.Ends (before ++ p) ',') :
    IsMasked before (c :: rest) := by
  intro p d q hp
  refine ⟨fun hends => ?_, fun hnames => ?_⟩
  · obtain ⟨rfl, -, -⟩ := Scanner.ends_iff.mp hends
    exact h p q hp hends
  · obtain ⟨s, t, rfl, hends⟩ := exists_ends_of_names hc hp hnames
    exact h s (t ++ d :: q) (by simpa using hp) hends

/-- What is between two quotes is hidden. -/
theorem IsQuotedSpan.isMasked (h : IsQuotedSpan span) (hbefore : isQuoted before = false) :
    IsMasked before span := by
  obtain ⟨inner, rfl, hinner⟩ := h
  refine isMasked_of_not_ends (.inl rfl) ?_
  intro p q hp hends
  obtain ⟨-, -, hquoted⟩ := Scanner.ends_iff.mp hends
  cases p with
  | nil => simp at hp
  | cons d p =>
    obtain ⟨rfl, hrest⟩ := List.cons.inj hp
    -- The quote is open at the comma: it stands before the closing one.
    obtain ⟨rest, rfl⟩ := exists_of_append_right (by simp) hrest
    have hp : isQuoted p = false := by
      have hcount : p.count '"' = 0 := List.count_eq_zero_of_not_mem fun h => hinner (by simp [h])
      simp [isQuoted, hcount]
    rw [isQuoted_append, isQuoted_cons, if_pos rfl, hbefore, hp] at hquoted
    cases hquoted

/-- A comma of a span is where an argument ends if the brackets before it, outside quotes, are as
many openers as closers, and those inside quotes are balanced. -/
theorem ends_comma_iff (hbefore : isQuoted before = false) {p : List Char}
    (hquotes : isQuoted p = false → quotedDepth (before ++ p) = 0) :
    Scanner.Ends (before ++ p) ',' ↔ isQuoted p = false ∧ outerDepth before + outerDepth p = 0 := by
  have hquoted : isQuoted (before ++ p) = isQuoted p := by
    rw [isQuoted_append, hbefore, Bool.false_bne]
  have houter : outerDepth (before ++ p) = outerDepth before + outerDepth p := by
    rw [outerDepth, openBrackets_append, hbefore]
    rfl
  rw [Scanner.ends_iff, hquoted]
  constructor
  · rintro ⟨-, hdepth, hp⟩
    rw [depth_eq (hquoted.trans hp), houter, hquotes hp, Int.add_zero] at hdepth
    exact ⟨hp, hdepth⟩
  · rintro ⟨hp, hdepth⟩
    refine ⟨rfl, ?_, hp⟩
    rw [depth_eq (hquoted.trans hp), houter, hquotes hp, Int.add_zero]
    exact hdepth

/-- Within the span a bracket is open. -/
theorem IsBracketSpan.outerDepth_pos (h : IsBracketSpan span) {p : List Char} (hp : p <+: span)
    (hne : p ≠ []) (hproper : p ≠ span) : 0 < outerDepth p := by
  obtain ⟨c, rest, rfl, hc⟩ := h.opens
  induction p using List.reverseRecOn with
  | nil => exact absurd rfl hne
  | append_singleton p d ih =>
    -- One character closes at most one bracket, and the last one is not closed here.
    have hzero : outerDepth (p ++ [d]) ≠ 0 := fun hzero => hproper (h.first _ hp hne hzero)
    have hstep : outerDepth (p ++ [d]) = outerDepth p + openBrackets false (isQuoted p) [d] := by
      rw [outerDepth, openBrackets_append, Bool.false_bne, outerDepth]
    by_cases hnil : p = []
    · subst hnil
      obtain ⟨rfl, -⟩ := List.cons_prefix_cons.mp hp
      rcases hc with rfl | rfl <;> decide
    · have hprefix : p <+: c :: rest := (List.prefix_append p [d]).trans hp
      have hpos := ih hnil hprefix fun hwhole => by
        have hlength := hp.length_le
        rw [← hwhole, List.length_append, List.length_singleton] at hlength
        omega
      have hone : -1 ≤ openBrackets false (isQuoted p) [d] := by
        simp only [openBrackets, bracketWeight]
        split_ifs <;> simp
      omega

/-! ## Hidden spans in the arguments -/

theorem exists_trimStart_eq {c : Char} (hc : isBlank c = false) (s rest : List Char) :
    ∃ s', trimStart (s ++ c :: rest) = s' ++ c :: rest := by
  rw [trimStart, List.dropWhile_append]
  split
  · exact ⟨[], by rw [List.dropWhile_cons, hc]; rfl⟩
  · exact ⟨_, rfl⟩

theorem exists_trimEnd_eq {c : Char} (hc : isBlank c = false) (s rest : List Char) :
    ∃ rest', trimEnd (s ++ c :: rest) = s ++ c :: rest' := by
  obtain ⟨rest', hrest⟩ := exists_trimStart_eq hc rest.reverse s.reverse
  refine ⟨rest'.reverse, ?_⟩
  rw [trimStart] at hrest
  rw [trimEnd, List.reverse_append, List.reverse_cons, List.append_assoc, List.singleton_append,
    hrest]
  simp

/-- A part of a text that neither begins nor ends with a blank survives trimming. -/
theorem infix_trim {c d : Char} {s t : List Char} (hspan : c :: s = t ++ [d])
    (hc : isBlank c = false) (hd : isBlank d = false) (front rest : List Char) :
    c :: s <:+: trim (front ++ (c :: s) ++ rest) := by
  obtain ⟨front', hfront⟩ := exists_trimStart_eq hc front (s ++ rest)
  obtain ⟨rest', hrest⟩ := exists_trimEnd_eq hd (front' ++ t) rest
  have hwhole : front' ++ c :: (s ++ rest) = front' ++ t ++ d :: rest := by
    rw [← List.cons_append, hspan]
    simp
  refine ⟨front', rest', ?_⟩
  rw [trim, List.append_assoc front, List.cons_append, hfront, hwhole, hrest, hspan]
  simp

/-- Whether a text begins with a quote or an opening bracket, and does not end with a blank. -/
def IsDelimited (span : List Char) : Prop :=
  ∃ c s t d, span = c :: s ∧ span = t ++ [d] ∧ (c = '"' ∨ c = '(' ∨ c = '\x7b') ∧ isBlank d = false

theorem IsQuotedSpan.isDelimited (h : IsQuotedSpan span) : IsDelimited span := by
  obtain ⟨inner, rfl, -⟩ := h
  exact ⟨'"', inner ++ ['"'], '"' :: inner, '"', rfl, rfl, .inl rfl, by decide⟩

theorem IsBracketSpan.isDelimited (h : IsBracketSpan span) : IsDelimited span := by
  obtain ⟨c, s, hspan, hc⟩ := h.opens
  rcases List.eq_nil_or_concat span with rfl | ⟨t, d, hlast⟩
  · cases hspan
  rw [List.concat_eq_append] at hlast
  have hdepth : outerDepth t + openBrackets false (isQuoted t) [d] = 0 := by
    rw [← h.closes, hlast, outerDepth, outerDepth, openBrackets_append, Bool.false_bne]
  refine ⟨c, s, t, d, hspan, hlast, .inr hc, ?_⟩
  -- The last character closes a bracket, so it is no blank.
  by_contra hblank
  have hplain : IsPlain [d] := List.forall_mem_singleton.mpr
    (not_mem_structural_of_isBlank (by simpa using hblank))
  rw [openBrackets_of_plain hplain, Int.add_zero] at hdepth
  by_cases ht : t = []
  · subst ht
    obtain ⟨rfl, -⟩ := List.cons.inj (hspan.symm.trans hlast)
    rcases hc with rfl | rfl
    · exact hblank (by decide)
    · exact hblank (by decide)
  · have hpos := h.outerDepth_pos ⟨[d], hlast.symm⟩ ht (by rw [hlast]; simp)
    omega

/-- The arguments of a list, from where the scanner is when it has read some of it. -/
theorem tokenize_append {read rest current : List Char} (h : (Scanner.after read).Holds current)
    (hne : read ++ rest ≠ []) :
    tokenize (read ++ rest) = (Scanner.after read).arguments.reverse ++
      (segments (Scanner.after read).nesting current rest).map RawArgument.ofSegment := by
  rw [tokenize, if_neg (by simpa using hne), Scanner.after, List.foldl_append, ← Scanner.after,
    arguments_foldl_step h]

/-- A span that is hidden stands whole in the text of one argument, whatever follows it. -/
theorem IsMasked.exists_argument (h : IsMasked before span) (hspan : IsDelimited span)
    (rest : List Char) : ∃ a ∈ tokenize (before ++ span ++ rest), span <:+: a.text.toList := by
  obtain ⟨c, s, t, d, rfl, hlast, hc, hd⟩ := hspan
  have hblank : isBlank c = false := by rcases hc with rfl | rfl | rfl <;> decide
  obtain ⟨⟨current, hholds⟩, hnesting⟩ := Scanner.holds_after before
  -- No segment ends in the span, so it is in the one that the scanner is in.
  obtain ⟨more, others, hsegments⟩ : ∃ more others,
      segments (Scanner.after before).nesting current (c :: s ++ rest) =
        (current ++ c :: s ++ more) :: others := by
    rcases segments_append (Scanner.after before).nesting current (c :: s) rest with
      ⟨-, heq⟩ | ⟨p, q, others, hp, htop, -⟩
    · rw [heq]
      exact exists_segments_eq _ _ rest
    · have hends : Scanner.Ends (before ++ p) ',' := by
        rw [hnesting, ← foldl_after, ← List.foldl_append, isTop_foldl_after] at htop
        exact Scanner.ends_iff.mpr ⟨rfl, htop⟩
      exact absurd hends (h p ',' q hp).1
  refine ⟨.ofSegment (current ++ c :: s ++ more), ?_, ?_⟩
  · rw [List.append_assoc, tokenize_append hholds (by simp), hsegments]
    simp
  · by_cases hnamed : ∃ word text, IsNamed (current ++ c :: s ++ more) word text
    · -- The name and its colon stand before the span.
      obtain ⟨word, text, hnamed⟩ := hnamed
      rw [ofSegment_of_isNamed hnamed]
      obtain ⟨blanks, hblanks, -, hword, hsegment⟩ := hnamed
      obtain ⟨front, -, rfl⟩ : ∃ front, current = blanks ++ word ++ [':'] ++ front ∧
          text = front ++ c :: (s ++ more) := by
        refine exists_of_append_left (fun hmem => ?_) (by simpa using hsegment.symm)
        rcases List.mem_append.mp hmem with hmem | hcolon
        · rcases List.mem_append.mp hmem with hmem | hmem
          · exact absurd (hblanks c hmem) (by simp [hblank])
          · exact absurd (by rcases hc with rfl | rfl | rfl <;> decide)
              (not_mem_structural_of_isWordChar (hword c hmem))
        · rw [List.mem_singleton.mp hcolon] at hc
          simp at hc
      simpa using infix_trim hlast hblank hd front more
    · rw [ofSegment_of_not_isNamed fun word text h => hnamed ⟨word, text, h⟩]
      simpa using infix_trim hlast hblank hd current more

/-! ## What is hidden -/

/-- What quotes and brackets hide, in every list and after whatever stands before the span:

* a text between quotes is hidden;
* in a bracket span, a name is found only after a comma of the span that ended an argument;
* if the brackets inside quotes are balanced wherever no quote is open, a bracket span is hidden
  exactly if at no comma in it, outside quotes, the brackets that are open before the span make up
  for those that are open within it. In particular it is hidden if before it, outside quotes, at
  least as many brackets were opened as were closed;
* a span that is hidden stands whole in the text of one argument, whatever follows it. -/
theorem quotes_and_brackets_mask (before span : List Char) (hbefore : isQuoted before = false) :
    (IsQuotedSpan span → IsMasked before span) ∧
    (IsBracketSpan span →
      (∀ p c rest, span = p ++ c :: rest → Scanner.Names (before ++ p) c →
        ∃ s t, p = s ++ ',' :: t ∧ Scanner.Ends (before ++ s) ',') ∧
      ((∀ s, s <+: before ++ span → isQuoted s = false → quotedDepth s = 0) →
        (IsMasked before span ↔ ∀ p rest, span = p ++ ',' :: rest → isQuoted p = false →
          outerDepth before + outerDepth p ≠ 0) ∧
        (0 ≤ outerDepth before → IsMasked before span))) ∧
    (IsQuotedSpan span ∨ IsBracketSpan span → IsMasked before span →
      ∀ rest, ∃ a ∈ tokenize (before ++ span ++ rest), span <:+: a.text.toList) := by
  refine ⟨fun h => h.isMasked hbefore, fun h => ?_, fun h hmasked => hmasked.exists_argument
    (h.elim IsQuotedSpan.isDelimited IsBracketSpan.isDelimited)⟩
  obtain ⟨opener, inner, hspan, hopener⟩ := h.opens
  have hc : opener = '"' ∨ opener = '(' ∨ opener = '\x7b' := .inr hopener
  refine ⟨fun p c rest hp hnames => exists_ends_of_names hc (hspan ▸ hp) hnames, ?_⟩
  intro hbalanced
  have hends : ∀ p rest, span = p ++ ',' :: rest → (Scanner.Ends (before ++ p) ',' ↔
      isQuoted p = false ∧ outerDepth before + outerDepth p = 0) := by
    intro p rest hp
    refine ends_comma_iff hbefore fun hquoted => hbalanced _ ⟨',' :: rest, by simp [hp]⟩ ?_
    rw [isQuoted_append, hbefore, hquoted]
    rfl
  have hmasked : IsMasked before span ↔ ∀ p rest, span = p ++ ',' :: rest →
      isQuoted p = false → outerDepth before + outerDepth p ≠ 0 := by
    constructor
    · intro hmasked p rest hp hquoted hzero
      exact (hmasked p ',' rest hp).1 ((hends p rest hp).mpr ⟨hquoted, hzero⟩)
    · intro hopen
      subst hspan
      refine isMasked_of_not_ends hc fun p rest hp hcomma => ?_
      obtain ⟨hquoted, hzero⟩ := (hends p rest hp).mp hcomma
      exact hopen p rest hp hquoted hzero
  refine ⟨hmasked, fun hdepth => hmasked.mpr ?_⟩
  intro p rest hp hquoted
  have hne : p ≠ [] := by
    rintro rfl
    rw [hspan] at hp
    obtain ⟨rfl, -⟩ := List.cons.inj hp
    simp at hopener
  have hpos := h.outerDepth_pos ⟨_, hp.symm⟩ hne (by rw [hp]; simp)
  omega

/-- In the list `f(x), (a: "b, c", 1)` the second argument is a bracket span, with a quoted span in
it; both are hidden. -/
theorem quotes_and_brackets_mask_nested :
    IsBracketSpan "(a: \"b, c\", 1)".toList ∧
      IsMasked "f(x), ".toList "(a: \"b, c\", 1)".toList ∧
      IsQuotedSpan "\"b, c\"".toList ∧
      IsMasked "f(x), (a: ".toList "\"b, c\"".toList := by
  have hspan : IsBracketSpan "(a: \"b, c\", 1)".toList := by
    have hfirst : ∀ p ∈ "(a: \"b, c\", 1)".toList.inits, p ≠ [] → outerDepth p = 0 →
        p = "(a: \"b, c\", 1)".toList := by decide
    exact ⟨⟨'(', _, rfl, .inl rfl⟩, by decide, fun p hp => hfirst p ((List.mem_inits _ _).mpr hp)⟩
  have hquoted : IsQuotedSpan "\"b, c\"".toList := ⟨"b, c".toList, rfl, by decide⟩
  have hbalanced : ∀ s ∈ ("f(x), ".toList ++ "(a: \"b, c\", 1)".toList).inits,
      isQuoted s = false → quotedDepth s = 0 := by decide
  obtain ⟨-, hbrackets, -⟩ :=
    quotes_and_brackets_mask "f(x), ".toList "(a: \"b, c\", 1)".toList (by decide)
  obtain ⟨-, hmasked⟩ := hbrackets hspan
  exact ⟨hspan, (hmasked fun s hs => hbalanced s ((List.mem_inits _ _).mpr hs)).2 (by decide),
    hquoted, (quotes_and_brackets_mask "f(x), (a: ".toList _ (by decide)).1 hquoted⟩

/-- In `)(a, b: 1)` the last bracket closes the second one, but the first one was never opened. So
the comma and the colon in the span `(a, b: 1)` are at top level, and there are two arguments. -/
theorem stray_closer_exposes_span :
    isQuoted ")".toList = false ∧ IsBracketSpan "(a, b: 1)".toList ∧
      Scanner.Ends ")(a".toList ',' ∧ Scanner.Names ")(a, b".toList ':' ∧
      ¬IsMasked ")".toList "(a, b: 1)".toList ∧
      tokenize ")(a, b: 1)".toList = [⟨none, ")(a"⟩, ⟨some "b", "1)"⟩] := by
  have hends : Scanner.Ends ")(a".toList ',' := Scanner.ends_iff.mpr ⟨rfl, by decide, by decide⟩
  have hfirst : ∀ p ∈ "(a, b: 1)".toList.inits, p ≠ [] → outerDepth p = 0 →
      p = "(a, b: 1)".toList := by decide
  refine ⟨by decide, ⟨⟨'(', _, rfl, .inl rfl⟩, by decide, fun p hp => ?_⟩, hends, ?_, ?_, by decide⟩
  · exact hfirst p ((List.mem_inits _ _).mpr hp)
  · exact ⟨by decide, by decide⟩
  · intro hmasked
    exact (hmasked "(a".toList ',' " b: 1)".toList rfl).1 hends

end CallScript

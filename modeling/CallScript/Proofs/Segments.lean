import Mathlib.Data.List.Induction
import Mathlib.Data.List.TakeWhile
import CallScript.Argument

/-!
# Argument lists, cut and then named

`tokenize` reads an argument list in one pass. This module says what comes out of it in two steps
that know nothing of scanning:

* the list is *cut* at the commas at which no bracket and no quote is open (`cuts`), where what is
  open is counted in the text before the comma (`depth`, `isQuoted`), and falls into the `slices`
  between the cuts;
* a slice that is blanks, a word and a colon, and then a rest, is the argument of that name with
  the rest as its text; any other slice is an argument without a name (`RawArgument.ofSegment`,
  `IsNamed`).

The two agree on every text, also on one with stray brackets or quotes (`tokenize_eq_slices`).
What carries the proof is `Scanner.Holds`: what the buffers of the scanner say about the slice
read so far. Two facts keep it going: no blank is part of a word, so that a slice has at most one
name (`isNamed_iff`), and the scanner stands at top level as long as a name is possible.
-/

namespace CallScript

namespace Text

/-- No blank is part of a word. -/
theorem not_isBlank_of_isWordChar {c : Char} (h : isWordChar c = true) : isBlank c = false := by
  -- There are finitely many blanks, so this can be looked up for each of them.
  have hblank : ∀ n ∈ [9, 10, 11, 12, 13, 0x20, 0x85, 0xA0, 0x1680, 0x2000, 0x2001, 0x2002, 0x2003,
      0x2004, 0x2005, 0x2006, 0x2007, 0x2008, 0x2009, 0x200A, 0x2028, 0x2029, 0x202F, 0x205F,
      0x3000], isWordChar (Char.ofNat n) = false := by decide +kernel
  by_contra hc
  have hmem : c.toNat ∈ [9, 10, 11, 12, 13, 0x20, 0x85, 0xA0, 0x1680, 0x2000, 0x2001, 0x2002,
      0x2003, 0x2004, 0x2005, 0x2006, 0x2007, 0x2008, 0x2009, 0x200A, 0x2028, 0x2029, 0x202F,
      0x205F, 0x3000] := by
    simp only [isBlank, Bool.not_eq_false, Bool.or_eq_true, Bool.and_eq_true,
      decide_eq_true_eq] at hc
    simp only [List.mem_cons, List.not_mem_nil, or_false]
    omega
  have hword := hblank c.toNat hmem
  rw [Char.ofNat_toNat] at hword
  rw [hword] at h
  exact absurd h (by simp)

/-- Blanks in front of a text that starts with none are all that is cut off it. -/
theorem trimStart_append {blanks s : List Char} (hblanks : ∀ c ∈ blanks, isBlank c = true)
    (hs : ∀ c ∈ s.head?, isBlank c = false) : trimStart (blanks ++ s) = s := by
  rw [trimStart, List.dropWhile_append_of_pos hblanks]
  cases s with
  | nil => rfl
  | cons c rest => rw [List.dropWhile_cons, hs c rfl]; rfl

/-- There is nothing to trim from a word. -/
theorem trim_of_word {word : List Char} (hword : ∀ c ∈ word, isWordChar c = true) :
    trim word = word := by
  have hblank : ∀ c ∈ word, isBlank c = false := fun c hc =>
    not_isBlank_of_isWordChar (hword c hc)
  have hstart : ∀ s : List Char, (∀ c ∈ s, isBlank c = false) → s.dropWhile isBlank = s := by
    intro s hs
    cases s with
    | nil => rfl
    | cons c rest => rw [List.dropWhile_cons, hs c (List.mem_cons_self ..)]; rfl
  rw [trim, trimEnd, trimStart, hstart word hblank,
    hstart word.reverse fun c hc => hblank c (List.mem_reverse.mp hc), List.reverse_reverse]

end Text

/-! ## The name of an argument -/

/-- A segment is blanks, a word, a colon and a rest. -/
def IsNamed (segment word rest : List Char) : Prop :=
  ∃ blanks, (∀ c ∈ blanks, Text.isBlank c = true) ∧ word ≠ [] ∧
    (∀ c ∈ word, Text.isWordChar c = true) ∧ segment = blanks ++ word ++ ':' :: rest

/-- The argument written in one segment. -/
def RawArgument.ofSegment (segment : List Char) : RawArgument :=
  let body := Text.trimStart segment
  let word := body.takeWhile Text.isWordChar
  match body.dropWhile Text.isWordChar with
  | ':' :: rest =>
    if word.isEmpty then ⟨none, String.ofList (Text.trim segment)⟩
    else ⟨some (String.ofList word), String.ofList (Text.trim rest)⟩
  | _ => ⟨none, String.ofList (Text.trim segment)⟩

theorem isWordChar_colon : Text.isWordChar ':' = false := by decide

/-- A word at the start of a text, and what follows it. -/
theorem takeWhile_word {word rest : List Char} (hword : ∀ c ∈ word, Text.isWordChar c = true)
    (hrest : ∀ c ∈ rest.head?, Text.isWordChar c = false) :
    (word ++ rest).takeWhile Text.isWordChar = word ∧
      (word ++ rest).dropWhile Text.isWordChar = rest := by
  rw [List.takeWhile_append_of_pos hword, List.dropWhile_append_of_pos hword]
  cases rest with
  | nil => simp
  | cons c rest => simp [hrest c rfl]

/-- The name of a segment is the word behind its blanks, so there is at most one. -/
theorem isNamed_iff {segment word rest : List Char} :
    IsNamed segment word rest ↔
      (Text.trimStart segment).takeWhile Text.isWordChar = word ∧ word ≠ [] ∧
        (Text.trimStart segment).dropWhile Text.isWordChar = ':' :: rest := by
  constructor
  · rintro ⟨blanks, hblanks, hne, hword, rfl⟩
    obtain ⟨htake, hdrop⟩ := @takeWhile_word word (':' :: rest) hword
      fun c hc => by cases hc; exact isWordChar_colon
    -- The blanks end where the word starts, since no blank is part of a word.
    have hhead : ∀ c ∈ (word ++ ':' :: rest).head?, Text.isBlank c = false := by
      cases word with
      | nil => exact absurd rfl hne
      | cons d word =>
        intro c hc
        cases hc
        exact Text.not_isBlank_of_isWordChar (hword d (List.mem_cons_self ..))
    rw [List.append_assoc, Text.trimStart_append hblanks hhead]
    exact ⟨htake, hne, hdrop⟩
  · rintro ⟨rfl, hne, hdrop⟩
    refine ⟨segment.takeWhile Text.isBlank, ?_, hne, ?_, ?_⟩
    · intro c hc
      exact List.mem_takeWhile_imp hc
    · intro c hc
      exact List.mem_takeWhile_imp hc
    · rw [← hdrop, List.append_assoc, List.takeWhile_append_dropWhile]
      exact List.takeWhile_append_dropWhile.symm

theorem ofSegment_of_isNamed {segment word rest : List Char} (h : IsNamed segment word rest) :
    RawArgument.ofSegment segment =
      ⟨some (String.ofList word), String.ofList (Text.trim rest)⟩ := by
  obtain ⟨htake, hne, hdrop⟩ := isNamed_iff.mp h
  rw [RawArgument.ofSegment]
  simp only [hdrop, htake, List.isEmpty_iff, if_neg hne]

theorem ofSegment_of_not_isNamed {segment : List Char}
    (h : ∀ word rest, ¬IsNamed segment word rest) :
    RawArgument.ofSegment segment = ⟨none, String.ofList (Text.trim segment)⟩ := by
  rw [RawArgument.ofSegment]
  split
  · next rest hdrop =>
    split
    · rfl
    · next hne =>
      exact absurd (isNamed_iff.mpr ⟨rfl, by simpa using hne, hdrop⟩) (h _ rest)
  · rfl

/-! ## Where a list is cut -/

namespace ArgumentList

/-- Whether a quote is open after a text: quotes open and close in turn. -/
def isQuoted (s : List Char) : Bool := s.count '"' % 2 = 1

/-- How many brackets and quotes are open after a text, a closed one that was not opened counting
against the others. Brackets count inside quotes too. -/
def depth (s : List Char) : Int :=
  s.countP (fun c => c = '(' || c = '\x7b') - s.countP (fun c => c = ')' || c = '\x7d') +
    (s.count '"' % 2 : Nat)

/-- Whether a list is cut at a position: there is a comma, and before it nothing is open. -/
def isCut (raw : List Char) (i : Nat) : Bool :=
  raw[i]? = some ',' && depth (raw.take i) = 0 && !isQuoted (raw.take i)

/-- The positions at which a list is cut, in order. -/
def cuts (raw : List Char) : List Nat := (List.range raw.length).filter (isCut raw)

/-- What stands from `start` on between the cuts at some positions. -/
def slices (raw : List Char) (start : Nat) : List Nat → List (List Char)
  | [] => [raw.drop start]
  | cut :: cuts => (raw.drop start).take (cut - start) :: slices raw (cut + 1) cuts

/-- The nesting after a text is what is open there. -/
theorem foldl_after (s : List Char) : s.foldl Nesting.after {} = ⟨depth s, isQuoted s⟩ := by
  induction s using List.reverseRecOn with
  | nil => rfl
  | append_singleton s c ih =>
    rw [List.foldl_append, ih]
    simp only [List.foldl_cons, List.foldl_nil, Nesting.after, depth, isQuoted,
      List.count_append, List.countP_append, List.count_singleton, List.countP_singleton,
      Bool.or_eq_true, decide_eq_true_eq, beq_iff_eq]
    by_cases hq : c = '"'
    · -- A quote opens if an even number of them came before, and closes otherwise.
      subst hq
      rcases Nat.mod_two_eq_zero_or_one (s.count '"') with h | h <;> simp [Nat.add_mod, h]
    · by_cases ho : c = '(' ∨ c = '\x7b'
      · rcases ho with rfl | rfl <;> simp <;> omega
      · by_cases hc : c = ')' ∨ c = '\x7d'
        · rcases hc with rfl | rfl <;> simp <;> omega
        · simp [hq, ho, hc]

end ArgumentList

open ArgumentList

/-! ## What the scanner knows of the slice it is in -/

namespace Scanner

/-- The buffers of a scanner that has read `current` of a slice. While a name is possible the
scanner is at top level, and once it is not, no more text can make the slice a named one. -/
def Holds (scanner : Scanner) (current : List Char) : Prop :=
  match scanner.phase with
  | .naming =>
    scanner.nesting = {} ∧ scanner.text = current.reverse ∧
      ∃ blanks, (∀ c ∈ blanks, Text.isBlank c = true) ∧
        (∀ c ∈ scanner.name.reverse, Text.isWordChar c = true) ∧
        current = blanks ++ scanner.name.reverse
  | .positional =>
    scanner.text = current.reverse ∧ ∀ more word rest, ¬IsNamed (current ++ more) word rest
  | .named => IsNamed current scanner.name.reverse scanner.text.reverse

/-- A scanner that has just completed an argument is at the start of a slice. -/
theorem holds_start (nesting : Nesting) (arguments : List RawArgument) (h : nesting.isTop = true) :
    Holds { nesting, arguments } [] := by
  have htop : nesting = {} := by
    obtain ⟨depth, isQuoted⟩ := nesting
    simpa [Nesting.isTop] using h
  exact ⟨htop, rfl, [], by simp, by simp, rfl⟩

/-- Blanks and a word make no name unless a colon follows the word. -/
theorem not_isNamed {blanks word more : List Char} (hblanks : ∀ c ∈ blanks, Text.isBlank c = true)
    (hword : ∀ c ∈ word, Text.isWordChar c = true)
    (hmore : ∀ c ∈ more.head?, Text.isWordChar c = false ∧
      (word = [] → Text.isBlank c = false) ∧ (word ≠ [] → c ≠ ':')) (name rest : List Char) :
    ¬IsNamed (blanks ++ word ++ more) name rest := by
  intro h
  obtain ⟨htake, hne, hdrop⟩ := isNamed_iff.mp h
  have hhead : ∀ c ∈ (word ++ more).head?, Text.isBlank c = false := by
    cases word with
    | nil => exact fun c hc => (hmore c hc).2.1 rfl
    | cons d word =>
      intro c hc
      cases hc
      exact Text.not_isBlank_of_isWordChar (hword d (List.mem_cons_self ..))
  obtain ⟨htake', hdrop'⟩ := takeWhile_word hword fun c hc => (hmore c hc).1
  rw [List.append_assoc, Text.trimStart_append hblanks hhead] at htake hdrop
  rw [htake'] at htake
  rw [hdrop'] at hdrop
  subst htake
  exact (hmore ':' (by rw [hdrop]; rfl)).2.2 hne rfl

/-- Completing an argument gives what its slice stands for. -/
theorem emit_of_holds {scanner : Scanner} {current : List Char} (h : scanner.Holds current) :
    scanner.emit = { nesting := scanner.nesting,
                     arguments := RawArgument.ofSegment current :: scanner.arguments } := by
  have hplain (hp : scanner.phase ≠ .named) (ht : scanner.text = current.reverse)
      (hn : ∀ word rest, ¬IsNamed current word rest) : scanner.emit =
        { nesting := scanner.nesting,
          arguments := RawArgument.ofSegment current :: scanner.arguments } := by
    rw [ofSegment_of_not_isNamed hn, emit]
    simp only [if_neg hp, ht, List.reverse_reverse]
  cases hp : scanner.phase with
  | naming =>
    rw [Holds, hp] at h
    obtain ⟨-, htext, blanks, hblanks, hword, hcurrent⟩ := h
    apply hplain (by rw [hp]; simp) htext
    intro word rest
    have hnone := @not_isNamed _ _ [] hblanks hword (by simp) word rest
    rwa [List.append_nil, ← hcurrent] at hnone
  | positional =>
    rw [Holds, hp] at h
    apply hplain (by rw [hp]; simp) h.1
    intro word rest
    have hnone := h.2 [] word rest
    rwa [List.append_nil] at hnone
  | named =>
    rw [Holds, hp] at h
    have ⟨_, _, _, hword, _⟩ := h
    rw [ofSegment_of_isNamed h, emit]
    simp only [hp, if_true, Text.trim_of_word hword]

/-- At a comma where nothing is open the scanner completes the argument. -/
theorem step_of_cut {scanner : Scanner} {current : List Char} (h : scanner.Holds current)
    (htop : scanner.nesting.isTop = true) :
    scanner.step ',' = { nesting := scanner.nesting,
                         arguments := RawArgument.ofSegment current :: scanner.arguments } := by
  have hword : Text.isWordChar ',' = false := by decide
  have hblank : Text.isBlank ',' = false := by decide
  rw [step]
  split
  next hp =>
    -- The comma is no part of a name and ends none, so it is read as after any other text.
    rw [hword, hblank]
    simp only [Bool.false_eq_true, if_false, Bool.false_and, read, htop]
    rw [← emit_of_holds h]
    simp [emit, hp]
  next => simp only [read, htop, Bool.and_self, decide_true, if_true, emit_of_holds h]
  next => simp only [read, htop, Bool.and_self, decide_true, if_true, emit_of_holds h]

/-- Within a slice the scanner reads on: nothing is completed, and its buffers still say what it
has read. -/
theorem holds_read {scanner : Scanner} {current : List Char} {c : Char}
    (hphase : scanner.phase ≠ .naming) (h : scanner.Holds current)
    (hcut : (c = ',' && scanner.nesting.isTop) = false) :
    (scanner.read c).Holds (current ++ [c]) ∧
      (scanner.read c).nesting = scanner.nesting.after c ∧
      (scanner.read c).arguments = scanner.arguments := by
  rw [read, hcut, if_neg Bool.false_ne_true]
  refine ⟨?_, rfl, rfl⟩
  rw [Holds] at h ⊢
  cases hp : scanner.phase with
  | naming => exact absurd hp hphase
  | positional =>
    rw [hp] at h
    refine ⟨by simp [h.1], ?_⟩
    intro more word rest
    rw [List.append_assoc]
    exact h.2 ([c] ++ more) word rest
  | named =>
    rw [hp] at h
    obtain ⟨blanks, hblanks, hne, hword, hcurrent⟩ := h
    refine ⟨blanks, hblanks, hne, hword, ?_⟩
    rw [hcurrent, List.reverse_cons]
    simp only [List.append_assoc, List.cons_append]

/-- Word characters, blanks and colons leave the nesting as it is. -/
theorem after_of_plain (nesting : Nesting) {c : Char}
    (hc : Text.isWordChar c = true ∨ Text.isBlank c = true ∨ c = ':') :
    nesting.after c = nesting := by
  have hne (d : Char) (hd : Text.isWordChar d = false ∧ Text.isBlank d = false ∧ d ≠ ':') :
      c ≠ d := by
    rintro rfl
    obtain ⟨hword, hblank, hcolon⟩ := hd
    rcases hc with hc | hc | hc
    · rw [hword] at hc
      cases hc
    · rw [hblank] at hc
      cases hc
    · exact hcolon hc
  have hquote : c ≠ '"' := hne _ (by decide)
  have hparen : c ≠ '(' := hne _ (by decide)
  have hbrace : c ≠ '\x7b' := hne _ (by decide)
  have hparen' : c ≠ ')' := hne _ (by decide)
  have hbrace' : c ≠ '\x7d' := hne _ (by decide)
  rw [Nesting.after, if_neg hquote, if_neg (by simp [hparen, hbrace]),
    if_neg (by simp [hparen', hbrace'])]

/-- While a name is possible, each arm of `step` keeps what the buffers say. -/
theorem holds_naming {scanner : Scanner} {current : List Char} {c : Char}
    (hp : scanner.phase = .naming) (h : scanner.Holds current) :
    (Text.isWordChar c = true →
      Holds { scanner with name := c :: scanner.name, text := c :: scanner.text }
        (current ++ [c])) ∧
    (Text.isBlank c = true → scanner.name = [] →
      Holds { scanner with text := c :: scanner.text } (current ++ [c])) ∧
    (c = ':' → scanner.name ≠ [] →
      Holds { scanner with phase := .named, text := [] } (current ++ [c])) ∧
    (Text.isWordChar c = false → (scanner.name = [] → Text.isBlank c = false) →
      (scanner.name ≠ [] → c ≠ ':') → ∀ nesting,
      Holds { scanner with phase := .positional, name := [], nesting, text := c :: scanner.text }
        (current ++ [c])) := by
  rw [Holds, hp] at h
  obtain ⟨hnesting, htext, blanks, hblanks, hname, hcurrent⟩ := h
  refine ⟨?_, ?_, ?_, ?_⟩
  · intro hword
    simp only [Holds, hp]
    refine ⟨hnesting, by simp [htext], blanks, hblanks, ?_, ?_⟩
    · intro d hd
      rw [List.reverse_cons, List.mem_append, List.mem_singleton] at hd
      rcases hd with hd | rfl
      · exact hname d hd
      · exact hword
    · rw [hcurrent, List.reverse_cons, List.append_assoc]
  · intro hblank hnil
    simp only [Holds, hp]
    refine ⟨hnesting, by simp [htext], blanks ++ [c], ?_, hname, ?_⟩
    · intro d hd
      rcases List.mem_append.mp hd with hd | hd
      · exact hblanks d hd
      · rw [List.mem_singleton.mp hd]; exact hblank
    · rw [hcurrent, hnil]; simp
  · intro hcolon hne
    refine ⟨blanks, hblanks, by simpa using hne, hname, ?_⟩
    rw [hcurrent, hcolon]; simp
  · -- The character can neither be part of a name nor end one, whatever follows.
    intro hword hblank hcolon nesting
    refine ⟨by simp [htext], ?_⟩
    intro more word rest
    rw [hcurrent, List.append_assoc]
    refine not_isNamed hblanks hname ?_ word rest
    intro d hd
    cases hd
    exact ⟨hword, fun hnil => hblank (by simpa using hnil), fun hne => hcolon (by simpa using hne)⟩

/-- Within a slice the scanner reads on, also where a character decides on the name. -/
theorem holds_step {scanner : Scanner} {current : List Char} {c : Char}
    (h : scanner.Holds current) (hcut : (c = ',' && scanner.nesting.isTop) = false) :
    (scanner.step c).Holds (current ++ [c]) ∧
      (scanner.step c).nesting = scanner.nesting.after c ∧
      (scanner.step c).arguments = scanner.arguments := by
  rw [step]
  split
  next hp =>
    obtain ⟨hword, hblank, hcolon, hother⟩ := holds_naming (c := c) hp h
    have hdepth : scanner.nesting.depth = 0 := by
      rw [Holds, hp] at h
      rw [h.1]
    split
    next hc => exact ⟨hword hc, (after_of_plain _ (.inl hc)).symm, rfl⟩
    next hnot =>
      split
      next hc =>
        obtain ⟨hc, hnil⟩ := Bool.and_eq_true_iff.mp hc
        exact ⟨hblank hc (List.isEmpty_iff.mp hnil), (after_of_plain _ (.inr (.inl hc))).symm, rfl⟩
      next hnot' =>
        split
        next hc =>
          simp only [hdepth, decide_true, Bool.and_true, Bool.and_eq_true, decide_eq_true_eq,
            Bool.not_eq_true', List.isEmpty_eq_false_iff] at hc
          exact ⟨hcolon hc.1 hc.2, (after_of_plain _ (.inr (.inr hc.1))).symm, rfl⟩
        next hnot'' =>
          rw [read, hcut, if_neg Bool.false_ne_true]
          refine ⟨hother (by simpa using hnot) ?_ ?_ _, rfl, rfl⟩
          · intro hnil
            simpa [hnil] using hnot'
          · intro hne hc
            exact hnot'' (by simp [hc, hdepth, hne])
  next hp => exact holds_read (by rw [hp]; simp) h hcut
  next hp => exact holds_read (by rw [hp]; simp) h hcut

/-- Reading the rest of a list completes the slice that was begun and those after it. -/
theorem emit_foldl_step {scanner : Scanner} {before rest : List Char} {start : Nat}
    (hstart : start ≤ before.length) (h : scanner.Holds (before.drop start))
    (hnesting : scanner.nesting = ⟨depth before, isQuoted before⟩) :
    (rest.foldl step scanner).emit.arguments.reverse =
      scanner.arguments.reverse ++
        (slices (before ++ rest) start
          ((List.range' before.length rest.length).filter (isCut (before ++ rest)))).map
          RawArgument.ofSegment := by
  -- By induction on what is left to read; `before` grows, and `start` moves from slice to slice.
  induction rest generalizing scanner before start with
  | nil => rw [List.foldl_nil, emit_of_holds h]; simp [slices]
  | cons c rest ih =>
    have hassoc : before ++ c :: rest = before ++ [c] ++ rest := by simp
    have hlength : (before ++ [c]).length = before.length + 1 := by simp
    have hcut : isCut (before ++ c :: rest) before.length =
        (c = ',' && scanner.nesting.isTop) := by
      rw [isCut, hnesting, Nesting.isTop]
      simp [Bool.and_assoc]
    have hnesting' :
        scanner.nesting.after c = ⟨depth (before ++ [c]), isQuoted (before ++ [c])⟩ := by
      rw [← foldl_after, List.foldl_append, foldl_after, hnesting]; rfl
    rw [List.foldl_cons, List.length_cons, List.range'_succ, List.filter_cons, hcut]
    cases hc : c = ',' && scanner.nesting.isTop with
    | true =>
      -- The slice ends here, and the next one starts behind the comma.
      obtain ⟨hcomma, htop⟩ := Bool.and_eq_true_iff.mp hc
      rw [decide_eq_true_eq] at hcomma
      subst hcomma
      have hnext : Holds { nesting := scanner.nesting,
                           arguments := RawArgument.ofSegment (before.drop start) ::
                             scanner.arguments }
          ((before ++ [',']).drop (before ++ [',']).length) := by
        rw [List.drop_length]; exact holds_start _ _ htop
      rw [step_of_cut h htop, ih (Nat.le_refl _) hnext (by rw [← hnesting']; rfl), if_pos rfl,
        slices, List.map_cons, hlength, ← hassoc, List.drop_append_of_le_length hstart,
        List.take_left' (by simp)]
      simp
    | false =>
      -- The character is part of the slice.
      obtain ⟨hholds, hafter, hargs⟩ := holds_step h hc
      rw [← List.drop_append_of_le_length hstart] at hholds
      rw [ih (Nat.le_trans hstart (by simp)) hholds (hafter.trans hnesting'), hargs,
        if_neg Bool.false_ne_true, hlength, hassoc]

/-- The buffers of the scanner say what was read of some slice, and its nesting is what is open. -/
theorem holds_after (s : List Char) :
    (∃ current, (after s).Holds current) ∧ (after s).nesting = ⟨depth s, isQuoted s⟩ := by
  rw [← foldl_after]
  induction s using List.reverseRecOn with
  | nil => exact ⟨⟨[], holds_start {} [] rfl⟩, rfl⟩
  | append_singleton s c ih =>
    obtain ⟨⟨current, h⟩, hnesting⟩ := ih
    rw [after, List.foldl_append, List.foldl_append, List.foldl_cons, List.foldl_nil,
      List.foldl_cons, List.foldl_nil, ← hnesting, ← after]
    cases hc : c = ',' && (after s).nesting.isTop with
    | true =>
      obtain ⟨hcomma, htop⟩ := Bool.and_eq_true_iff.mp hc
      rw [decide_eq_true_eq] at hcomma
      subst hcomma
      rw [step_of_cut h htop]
      exact ⟨⟨[], holds_start _ _ htop⟩, rfl⟩
    | false =>
      obtain ⟨hholds, hafter, -⟩ := holds_step h hc
      exact ⟨⟨_, hholds⟩, hafter⟩

end Scanner

/-! ## The two agree -/

namespace ArgumentList

theorem slices_ne_nil (raw : List Char) (start : Nat) (positions : List Nat) :
    slices raw start positions ≠ [] := by
  cases positions <;> simp [slices]

theorem length_slices (raw : List Char) (start : Nat) (positions : List Nat) :
    (slices raw start positions).length = positions.length + 1 := by
  induction positions generalizing start with
  | nil => rfl
  | cons cut cuts ih => rw [slices, List.length_cons, ih, List.length_cons]

/-- Cutting at commas, in order, loses nothing but these commas. -/
theorem intercalate_slices {raw : List Char} {start : Nat} {positions : List Nat}
    (hsorted : positions.Pairwise (· < ·)) (hstart : ∀ i ∈ positions, start ≤ i)
    (hcomma : ∀ i ∈ positions, raw[i]? = some ',') :
    [','].intercalate (slices raw start positions) = raw.drop start := by
  induction positions generalizing start with
  | nil => rw [slices, List.intercalate_singleton]
  | cons cut cuts ih =>
    obtain ⟨hcut, hsorted⟩ := List.pairwise_cons.mp hsorted
    have hle : start ≤ cut := hstart cut (List.mem_cons_self ..)
    have hhead : raw.drop cut = ',' :: raw.drop (cut + 1) := by
      obtain ⟨hlt, hget⟩ := List.getElem?_eq_some_iff.mp (hcomma cut (List.mem_cons_self ..))
      rw [List.drop_eq_getElem_cons hlt, hget]
    have hsplit : raw.drop start = (raw.drop start).take (cut - start) ++ raw.drop cut := by
      conv => lhs; rw [← List.take_append_drop (cut - start) (raw.drop start)]
      rw [List.drop_drop, Nat.add_sub_cancel' hle]
    rw [slices, List.intercalate_cons_of_ne_nil (slices_ne_nil _ _ _),
      ih hsorted (fun i hi => hcut i hi) (fun i hi => hcomma i (List.mem_cons_of_mem _ hi)),
      List.append_assoc, List.singleton_append, ← hhead, ← hsplit]

theorem intercalate_slices_cuts (raw : List Char) :
    [','].intercalate (slices raw 0 (cuts raw)) = raw := by
  have hsorted : (cuts raw).Pairwise (· < ·) := List.pairwise_lt_range.filter _
  have hcomma : ∀ i ∈ cuts raw, raw[i]? = some ',' := by
    intro i hi
    have hcut := (List.mem_filter.mp hi).2
    simp only [isCut, Bool.and_eq_true, decide_eq_true_eq] at hcut
    exact hcut.1.1
  rw [intercalate_slices hsorted (fun _ _ => Nat.zero_le _) hcomma, List.drop_zero]

end ArgumentList

/-- Trimming takes away nothing but blanks at both ends. -/
theorem Text.exists_blanks_trim (s : List Char) :
    ∃ before after, (∀ c ∈ before ++ after, Text.isBlank c = true) ∧
      s = before ++ Text.trim s ++ after := by
  refine ⟨s.takeWhile Text.isBlank,
    ((Text.trimStart s).reverse.takeWhile Text.isBlank).reverse, ?_, ?_⟩
  · intro c hc
    rcases List.mem_append.mp hc with hc | hc
    · exact List.mem_takeWhile_imp hc
    · exact List.mem_takeWhile_imp (List.mem_reverse.mp hc)
  · rw [Text.trim, Text.trimEnd, List.append_assoc, ← List.reverse_append,
      List.takeWhile_append_dropWhile, List.reverse_reverse, Text.trimStart,
      List.takeWhile_append_dropWhile]

/-- An argument list falls into the slices between its cuts, one more than there are cuts, and each
slice is an argument: a named one if it is blanks, a word, a colon and a rest, and else one without
a name. Nothing is lost but the commas at the cuts, the names with their colons, and blanks around
the texts; and the scanner is at top level wherever a name may stand, so at the start of every
argument. -/
theorem tokenize_eq_slices (raw : List Char) :
    tokenize raw =
        (if raw = [] then [] else (slices raw 0 (cuts raw)).map RawArgument.ofSegment) ∧
      (slices raw 0 (cuts raw)).length = (cuts raw).length + 1 ∧
      [','].intercalate (slices raw 0 (cuts raw)) = raw ∧
      (∀ segment word rest, IsNamed segment word rest →
        RawArgument.ofSegment segment =
          ⟨some (String.ofList word), String.ofList (Text.trim rest)⟩) ∧
      (∀ segment, (∀ word rest, ¬IsNamed segment word rest) →
        RawArgument.ofSegment segment = ⟨none, String.ofList (Text.trim segment)⟩) ∧
      (∀ s, ∃ before after, (∀ c ∈ before ++ after, Text.isBlank c = true) ∧
        s = before ++ Text.trim s ++ after) ∧
      (∀ read, read <+: raw → (Scanner.after read).phase = .naming →
        (Scanner.after read).nesting = {}) := by
  refine ⟨?_, length_slices .., intercalate_slices_cuts raw, fun _ _ _ => ofSegment_of_isNamed,
    fun _ => ofSegment_of_not_isNamed, Text.exists_blanks_trim, ?_⟩
  · rw [tokenize]
    cases raw with
    | nil => rfl
    | cons c rest =>
      rw [if_neg (by simp), if_neg (by simp), Scanner.after]
      have hslices := @Scanner.emit_foldl_step {} [] (c :: rest) 0 (Nat.le_refl 0)
        (Scanner.holds_start {} [] rfl) rfl
      simpa [cuts, List.range_eq_range'] using hslices
  · intro read _ hp
    obtain ⟨⟨current, h⟩, -⟩ := Scanner.holds_after read
    rw [Scanner.Holds, hp] at h
    exact h.1

-- Of these commas only the second one is at top level.
example : cuts "a: f(x, y), \"p, q\"".toList = [10] := by decide

example : tokenize "a: f(x, y), \"p, q\"".toList =
    [⟨some "a", "f(x, y)"⟩, ⟨none, "\"p, q\""⟩] := by rfl

end CallScript

import CallScript.Proofs.Spacing

/-!
# Argument lists as they are written

Arguments are written with commas between them, a named one with its name and a colon before its
text, and with blanks around the commas, behind the colons and at both ends as one likes. Splitting
gives back what was written, names and texts (`tokenize_writeAll`), if each argument can be written
at all (`RawArgument.IsWritable`): its name is a word, nothing can be trimmed off its text, the
text keeps its commas to itself and closes what it opens, and it does not look like a named
argument if it has no name.

That a text closes what it opens is asked in the way of the scanner, for which brackets count
inside quotes too.
-/

namespace CallScript

open ArgumentList Text

/-- A text from which nothing can be trimmed starts with no blank. -/
theorem Text.trimStart_of_trim {s : List Char} (h : trim s = s) : trimStart s = s := by
  have hsublist : List.Sublist (trimStart s) s := List.dropWhile_sublist isBlank
  refine hsublist.eq_of_length (Nat.le_antisymm hsublist.length_le ?_)
  have hle := length_trimEnd_le (trimStart s)
  rwa [← trim, h] at hle

/-! ## Texts that are closed -/

/-- Whether a text keeps to itself in a list: nothing is open at its end, and something at each of
its commas. -/
structure ArgumentList.IsClosed (s : List Char) : Prop where
  comma : ∀ p rest, s = p ++ ',' :: rest → (p.foldl Nesting.after {}).isTop = false
  end_eq : s.foldl Nesting.after {} = {}

theorem ArgumentList.isClosed_iff {s : List Char} : IsClosed s ↔
    (∀ i < s.length, s[i]? = some ',' → ((s.take i).foldl Nesting.after {}).isTop = false) ∧
      s.foldl Nesting.after {} = {} := by
  constructor
  · intro h
    refine ⟨fun i _ hi => h.comma (s.take i) (s.drop (i + 1)) ?_, h.end_eq⟩
    obtain ⟨hlt, hget⟩ := List.getElem?_eq_some_iff.mp hi
    rw [← hget, List.getElem_cons_drop, List.take_append_drop]
  · rintro ⟨hcomma, hend⟩
    refine ⟨fun p rest hs => ?_, hend⟩
    subst hs
    simpa using hcomma p.length (by simp) (by simp)

instance (s : List Char) : Decidable (IsClosed s) :=
  decidable_of_iff _ ArgumentList.isClosed_iff.symm

namespace ArgumentList.IsClosed

variable {s t : List Char}

theorem append (hs : IsClosed s) (ht : IsClosed t) : IsClosed (s ++ t) where
  comma := by
    intro p rest hp
    rcases List.append_eq_append_iff.mp hp with ⟨q, rfl, rfl⟩ | ⟨q, rfl, hq⟩
    · rw [List.foldl_append, hs.end_eq]
      exact ht.comma q rest rfl
    · cases q with
      | nil => exact absurd (ht.comma [] rest hq.symm) (by decide)
      | cons c q =>
        obtain ⟨rfl, -⟩ := List.cons.inj hq
        exact hs.comma p q rfl
  end_eq := by rw [List.foldl_append, hs.end_eq, ht.end_eq]

/-- Words, blanks and colons open nothing. -/
theorem of_plain (h : ∀ c ∈ s, isWordChar c = true ∨ isBlank c = true ∨ c = ':') : IsClosed s where
  comma := by
    rintro p rest rfl
    exact absurd (h ',' (by simp)) (by decide)
  end_eq := by
    induction s with
    | nil => rfl
    | cons c s ih =>
      rw [List.foldl_cons, Scanner.after_of_plain _ (h c (List.mem_cons_self ..))]
      exact ih fun d hd => h d (List.mem_cons_of_mem _ hd)

/-- A closed text is a segment, up to the comma behind it. -/
theorem segments_append_eq (hs : IsClosed s) (rest : List Char) :
    segments {} [] (s ++ rest) = segments {} s rest := by
  rcases segments_append {} [] s rest with ⟨-, heq⟩ | ⟨p, q, others, hp, htop, -⟩
  · rw [heq, hs.end_eq, List.nil_append]
  · rw [hs.comma p q hp] at htop
    cases htop

end ArgumentList.IsClosed

/-- Closed texts with commas between them are split where they were joined. -/
theorem ArgumentList.segments_intercalate {parts : List (List Char)} (hne : parts ≠ [])
    (hclosed : ∀ part ∈ parts, IsClosed part) :
    segments {} [] ([','].intercalate parts) = parts := by
  induction parts with
  | nil => exact absurd rfl hne
  | cons part parts ih =>
    have hpart := hclosed part (List.mem_cons_self ..)
    cases parts with
    | nil =>
      have hsegments := hpart.segments_append_eq []
      rw [List.append_nil, segments] at hsegments
      rw [List.intercalate_singleton, hsegments]
    | cons next parts =>
      have hrest := ih (by simp) fun part h => hclosed part (List.mem_cons_of_mem _ h)
      rw [List.intercalate_cons_cons, List.append_assoc, hpart.segments_append_eq,
        List.singleton_append, segments, if_pos (by decide), hrest]

/-! ## Writing a list -/

/-- The blanks before an argument, behind the colon of its name, and after it. -/
structure Spacing where
  before : List Char
  inside : List Char
  after : List Char
  isBlank : ∀ c ∈ before ++ inside ++ after, Text.isBlank c = true

namespace RawArgument

/-- Whether an argument can be written in a list: it has a word as its name, or none, and a text
from which nothing can be trimmed, which is closed, and which does not begin like a named argument
if it is none. -/
structure IsWritable (a : RawArgument) : Prop where
  word : ∀ name, a.name = some name →
    name.toList ≠ [] ∧ ∀ c ∈ name.toList, isWordChar c = true
  trimmed : trim a.text.toList = a.text.toList
  closed : IsClosed a.text.toList
  unnamed : a.name = none → ∀ word rest, word ≠ [] → (∀ c ∈ word, isWordChar c = true) →
    a.text.toList ≠ word ++ ':' :: rest

/-- What is written before the text of an argument: its name, a colon and blanks, or nothing. -/
def label (a : RawArgument) (inside : List Char) : List Char :=
  match a.name with
  | some name => name.toList ++ ':' :: inside
  | none => []

/-- An argument as it is written. -/
def write (a : RawArgument) (spacing : Spacing) : List Char :=
  spacing.before ++ (a.label spacing.inside ++ a.text.toList) ++ spacing.after

variable {a : RawArgument}

theorem IsWritable.isClosed_write (h : a.IsWritable) (spacing : Spacing) :
    IsClosed (a.write spacing) := by
  have hblank := spacing.isBlank
  simp only [List.mem_append] at hblank
  have hbefore : IsClosed spacing.before :=
    .of_plain fun c hc => .inr (.inl (hblank c (by simp [hc])))
  have hafter : IsClosed spacing.after :=
    .of_plain fun c hc => .inr (.inl (hblank c (by simp [hc])))
  have hlabel : IsClosed (a.label spacing.inside) := by
    apply IsClosed.of_plain
    intro c hc
    unfold label at hc
    split at hc
    · next name hname =>
      obtain ⟨-, hword⟩ := h.word name hname
      rcases List.mem_append.mp hc with hc | hc
      · exact .inl (hword c hc)
      · rcases List.mem_cons.mp hc with rfl | hc
        · exact .inr (.inr rfl)
        · exact .inr (.inl (hblank c (by simp [hc])))
    · exact absurd hc List.not_mem_nil
  exact (hbefore.append (hlabel.append h.closed)).append hafter

/-- What was written for an argument stands for that argument. -/
theorem IsWritable.ofSegment_write (h : a.IsWritable) (spacing : Spacing) :
    ofSegment (a.write spacing) = a := by
  have hblank := spacing.isBlank
  simp only [List.mem_append] at hblank
  have hbody : ofSegment (a.label spacing.inside ++ a.text.toList) = a := by
    obtain ⟨name, text⟩ := a
    cases name with
    | some name =>
      obtain ⟨hne, hword⟩ := h.word name rfl
      have hnamed : IsNamed (name.toList ++ ':' :: spacing.inside ++ text.toList) name.toList
          (spacing.inside ++ text.toList) := ⟨[], by simp, hne, hword, by simp⟩
      show ofSegment (name.toList ++ ':' :: spacing.inside ++ text.toList) = _
      rw [ofSegment_of_isNamed hnamed, trim_blanks_left fun c hc => hblank c (by simp [hc]),
        h.trimmed, String.ofList_toList, String.ofList_toList]
    | none =>
      have hnone : ∀ word rest, ¬IsNamed text.toList word rest := fun word rest hnamed => by
        obtain ⟨htake, hne, hdrop⟩ := isNamed_iff.mp hnamed
        obtain ⟨-, -, -, hword, -⟩ := hnamed
        refine h.unnamed rfl word rest hne hword ?_
        show text.toList = _
        rw [← trimStart_of_trim h.trimmed, ← hdrop, ← htake, List.takeWhile_append_dropWhile]
      show ofSegment text.toList = _
      rw [ofSegment_of_not_isNamed hnone, h.trimmed, String.ofList_toList]
  rw [write, ofSegment_blanks_right fun c hc => hblank c (by simp [hc]),
    ofSegment_blanks_left fun c hc => hblank c (by simp [hc]), hbody]

end RawArgument

/-- A list as it is written: its arguments, each with blanks, and a comma between two. -/
def writeAll (written : List (RawArgument × Spacing)) : List Char :=
  [','].intercalate (written.map fun (a, spacing) => a.write spacing)

/-- Splitting gives back the arguments that were written, whatever blanks were put between them. -/
theorem tokenize_writeAll (written : List (RawArgument × Spacing)) (hne : written ≠ [])
    (hwritable : ∀ a spacing, (a, spacing) ∈ written → a.IsWritable)
    (hraw : writeAll written ≠ []) :
    tokenize (writeAll written) = written.map Prod.fst := by
  have hclosed : ∀ part ∈ written.map (fun (a, spacing) => a.write spacing), IsClosed part := by
    intro part hpart
    obtain ⟨⟨a, spacing⟩, hmem, rfl⟩ := List.mem_map.mp hpart
    exact (hwritable a spacing hmem).isClosed_write spacing
  rw [tokenize_eq_segments hraw, writeAll, segments_intercalate (by simpa using hne) hclosed,
    List.map_map]
  refine List.map_congr_left fun ⟨a, spacing⟩ hmem => ?_
  exact (hwritable a spacing hmem).ofSegment_write spacing

/-- No blanks at all. -/
def Spacing.tight : Spacing := ⟨[], [], [], fun _ h => absurd h List.not_mem_nil⟩

/-- One blank wherever blanks may stand. -/
def Spacing.wide : Spacing where
  before := [' ']
  inside := [' ']
  after := [' ']
  isBlank := by
    have hblank : ∀ c ∈ [' '], Text.isBlank c = true := List.forall_mem_singleton.mpr rfl
    exact List.forall_mem_append.mpr ⟨List.forall_mem_append.mpr ⟨hblank, hblank⟩, hblank⟩

/-- A named argument and a quoted one, with blanks before the name, behind its colon and before the
comma. -/
theorem tokenize_writeAll_spaced :
    tokenize " a: f(x, y) ,\"p, q\"".toList = [⟨some "a", "f(x, y)"⟩, ⟨none, "\"p, q\""⟩] := by
  have hcall : RawArgument.IsWritable ⟨some "a", "f(x, y)"⟩ := by
    refine ⟨fun name hname => ?_, by decide, by decide, fun hnone => ?_⟩
    · cases hname
      exact ⟨by decide, List.forall_mem_singleton.mpr rfl⟩
    · cases hnone
  have hquoted : RawArgument.IsWritable ⟨none, "\"p, q\""⟩ := by
    refine ⟨fun name hname => ?_, by decide, by decide, fun _ word rest _ _ htext => ?_⟩
    · cases hname
    · have hcolon : ':' ∈ "\"p, q\"".toList := htext ▸ by simp
      exact absurd hcolon (by decide)
  refine tokenize_writeAll [(⟨some "a", "f(x, y)"⟩, .wide), (⟨none, "\"p, q\""⟩, .tight)] (by simp)
    ?_ (by decide)
  intro a spacing hmem
  rcases List.mem_pair.mp hmem with hmem | hmem
  · cases hmem
    exact hcall
  · cases hmem
    exact hquoted

end CallScript

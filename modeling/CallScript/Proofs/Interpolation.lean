import CallScript.Proofs.Lookups

/-!
# References in texts

A reference in a text begins at a brace and ends where this brace is closed. Texts in which every
brace is closed can therefore be cut into pieces, and each piece is replaced on its own
(`Scope.interpolate_append`); a reference becomes the values of the variable it names, whatever
stands around it (`Scope.interpolate_braces`).

The scan for the end of a reference counts the braces that are open. What it finds is said here
without the count: the text up to the first closing brace before which all braces are balanced
(`Scope.splitReference_balanced`, `Scope.isBalanced_of_splitReference`).

A text is gone over once, from left to right. `Scope.scan` is that pass, with the names in the
references left to a function `expand`: it asks `expand` for texts between braces of the text
alone, never for anything that was inserted. These texts are shorter, which is why
`Scope.interpolate`, the scan that expands names by itself, ends; and it is the only function that
does so (`Scope.eq_interpolate`).
-/

namespace CallScript

/-! ## Balanced braces -/

/-- Whether a text, read where `depth` braces are open, closes these and those that it opens, and no
other ones. -/
structure ClosesBraces (depth : Nat) (s : List Char) : Prop where
  before : ∀ p, p <+: s → p.count '\x7d' ≤ p.count '\x7b' + depth
  whole : s.count '\x7d' = s.count '\x7b' + depth

/-- Whether the braces of a text are balanced: no prefix closes more than it opens, and the whole
text closes as many. -/
structure IsBalanced (s : List Char) : Prop where
  before : ∀ p, p <+: s → p.count '\x7d' ≤ p.count '\x7b'
  whole : s.count '\x7d' = s.count '\x7b'

/-- Whether every brace that is opened in a text is closed there. -/
def ClosesAll (s : List Char) : Prop :=
  ∀ before rest, s = before ++ '\x7b' :: rest →
    ∃ inner after, rest = inner ++ '\x7d' :: after ∧ IsBalanced inner

variable {depth : Nat} {c : Char} {s t inner after : List Char}

theorem closesBraces_zero : ClosesBraces 0 s ↔ IsBalanced s :=
  ⟨fun h => ⟨h.before, h.whole⟩, fun h => ⟨h.before, h.whole⟩⟩

theorem closesBraces_nil : ClosesBraces depth [] ↔ depth = 0 := by
  constructor
  · intro h
    have hwhole := h.whole
    simp only [List.count_nil] at hwhole
    omega
  · rintro rfl
    exact ⟨fun p hp => by simp [List.prefix_nil.mp hp], rfl⟩

/-- What is said of all prefixes of a text is said of the empty one and of those that begin with
its first character. -/
theorem forall_prefix_cons {P : List Char → Prop} :
    (∀ p, p <+: c :: s → P p) ↔ P [] ∧ ∀ p, p <+: s → P (c :: p) := by
  constructor
  · intro h
    exact ⟨h [] (List.nil_prefix ..), fun p hp => h _ (List.cons_prefix_cons.mpr ⟨rfl, hp⟩)⟩
  · rintro ⟨hnil, hcons⟩ p hp
    rcases List.prefix_cons_iff.mp hp with rfl | ⟨q, rfl, hq⟩
    · exact hnil
    · exact hcons q hq

/-- A character takes a text from one depth to another if it makes up for the difference between
them. -/
theorem closesBraces_step {depth' : Nat} (hstep : ∀ p : List Char,
      (c :: p).count '\x7d' + p.count '\x7b' + depth' =
        (c :: p).count '\x7b' + p.count '\x7d' + depth) :
    ClosesBraces depth (c :: s) ↔ ClosesBraces depth' s := by
  constructor
  · rintro ⟨hbefore, hwhole⟩
    obtain ⟨-, hbefore⟩ := forall_prefix_cons.mp hbefore
    refine ⟨fun p hp => ?_, ?_⟩
    · have hp := hbefore p hp
      have := hstep p
      omega
    · have := hstep s
      omega
  · rintro ⟨hbefore, hwhole⟩
    refine ⟨forall_prefix_cons.mpr ⟨by simp, fun p hp => ?_⟩, ?_⟩
    · have hp := hbefore p hp
      have := hstep p
      omega
    · have := hstep s
      omega

theorem closesBraces_open : ClosesBraces depth ('\x7b' :: s) ↔ ClosesBraces (depth + 1) s := by
  refine closesBraces_step fun p => ?_
  simp only [List.count_cons_self, List.count_cons_of_ne (by decide : '\x7b' ≠ '\x7d')]
  omega

theorem closesBraces_close (hdepth : depth ≠ 0) :
    ClosesBraces depth ('\x7d' :: s) ↔ ClosesBraces (depth - 1) s := by
  refine closesBraces_step fun p => ?_
  simp only [List.count_cons_self, List.count_cons_of_ne (by decide : '\x7d' ≠ '\x7b')]
  omega

theorem not_closesBraces_close : ¬ClosesBraces 0 ('\x7d' :: s) := by
  intro h
  have hfirst := h.before ['\x7d'] (List.cons_prefix_cons.mpr ⟨rfl, List.nil_prefix ..⟩)
  exact absurd hfirst (by decide)

theorem closesBraces_cons (hopen : c ≠ '\x7b') (hclose : c ≠ '\x7d') :
    ClosesBraces depth (c :: s) ↔ ClosesBraces depth s := by
  refine closesBraces_step fun p => ?_
  rw [List.count_cons_of_ne hopen, List.count_cons_of_ne hclose]
  omega

theorem ClosesAll.of_append (h : ClosesAll (s ++ t)) : ClosesAll t := by
  intro before rest ht
  exact h (s ++ before) rest (by rw [ht, List.append_assoc])

namespace Scope

/-! ## Where a reference ends -/

/-- The scan for the end of a reference stops at the brace that closes it, whatever follows. -/
theorem splitReference_append (h : ClosesBraces depth inner) (after : List Char) :
    splitReference depth (inner ++ '\x7d' :: after) = some (inner, after) := by
  induction inner generalizing depth with
  | nil =>
    obtain rfl := closesBraces_nil.mp h
    rfl
  | cons c inner ih =>
    rw [List.cons_append, splitReference]
    by_cases hopen : c = '\x7b'
    · subst hopen
      rw [if_pos rfl, ih (closesBraces_open.mp h)]
      rfl
    rw [if_neg hopen]
    by_cases hclose : c = '\x7d'
    · subst hclose
      have hdepth : depth ≠ 0 := by
        rintro rfl
        exact not_closesBraces_close h
      rw [if_pos rfl, if_neg hdepth, ih ((closesBraces_close hdepth).mp h)]
      rfl
    · rw [if_neg hclose, ih ((closesBraces_cons hopen hclose).mp h)]
      rfl

/-- The scan finds nothing but a text that closes the braces that were open. -/
theorem closesBraces_of_splitReference (h : splitReference depth s = some (inner, after)) :
    ClosesBraces depth inner := by
  fun_induction splitReference depth s generalizing inner with
  | case1 => cases h
  | case2 depth rest ih =>
    obtain ⟨_, hrest, he⟩ := Option.map_eq_some_iff.mp h
    cases he
    exact closesBraces_open.mpr (ih hrest)
  | case3 rest =>
    cases h
    exact closesBraces_nil.mpr rfl
  | case4 depth rest hdepth _ ih =>
    obtain ⟨_, hrest, he⟩ := Option.map_eq_some_iff.mp h
    cases he
    exact (closesBraces_close hdepth).mpr (ih hrest)
  | case5 depth c rest hopen hclose ih =>
    obtain ⟨_, hrest, he⟩ := Option.map_eq_some_iff.mp h
    cases he
    exact (closesBraces_cons hopen hclose).mpr (ih hrest)

/-- Where the scan finds no end, there are not enough closing braces. -/
theorem count_le_of_splitReference (h : splitReference depth s = none) :
    s.count '\x7d' ≤ s.count '\x7b' + depth := by
  fun_induction splitReference depth s with
  | case1 => exact Nat.zero_le _
  | case2 depth rest ih =>
    have := ih (Option.map_eq_none_iff.mp h)
    rw [List.count_cons_self, List.count_cons_of_ne (by decide)]
    omega
  | case3 => cases h
  | case4 depth rest hdepth _ ih =>
    have := ih (Option.map_eq_none_iff.mp h)
    rw [List.count_cons_self, List.count_cons_of_ne (by decide)]
    omega
  | case5 depth c rest hopen hclose ih =>
    have := ih (Option.map_eq_none_iff.mp h)
    rw [List.count_cons_of_ne hopen, List.count_cons_of_ne hclose]
    omega

theorem splitReference_balanced (h : IsBalanced inner) (after : List Char) :
    splitReference 0 (inner ++ '\x7d' :: after) = some (inner, after) :=
  splitReference_append (closesBraces_zero.mpr h) after

theorem isBalanced_of_splitReference (h : splitReference 0 s = some (inner, after)) :
    IsBalanced inner :=
  closesBraces_zero.mp (closesBraces_of_splitReference h)

end Scope

/-- In a balanced text every brace is closed. -/
theorem IsBalanced.closesAll (h : IsBalanced s) : ClosesAll s := by
  rintro before rest rfl
  have hbefore := h.before before (List.prefix_append ..)
  have hwhole := h.whole
  rw [List.count_append, List.count_append, List.count_cons_self,
    List.count_cons_of_ne (by decide)] at hwhole
  cases hsplit : Scope.splitReference 0 rest with
  | none =>
    have := Scope.count_le_of_splitReference hsplit
    omega
  | some split =>
    obtain ⟨inner, after⟩ := split
    exact ⟨inner, after, Scope.eq_append_of_splitReference hsplit,
      Scope.isBalanced_of_splitReference hsplit⟩

/-! ## The name in a reference -/

theorem stripListMark?_append (s : List Char) : stripListMark? (s ++ listMark) = some s := by
  simp [stripListMark?, List.isSuffixOf_iff_suffix]

theorem stripListMark?_eq_none (h : ¬listMark <:+ s) : stripListMark? s = none := by
  simp [stripListMark?, List.isSuffixOf_iff_suffix, h]

namespace Scope

variable {scope : Scope}

/-! ## Pieces of a text -/

/-- A text without references stays as it is. -/
theorem interpolate_eq_self (h : '\x7b' ∉ s) : scope.interpolate s = s := by
  induction s with
  | nil => rw [interpolate]
  | cons c rest ih =>
    rw [List.mem_cons, not_or] at h
    rw [interpolate_cons (Ne.symm h.1), ih h.2]

/-- What closes all its braces is replaced on its own, whatever follows. -/
theorem interpolate_append (h : ClosesAll s) (t : List Char) :
    scope.interpolate (s ++ t) = scope.interpolate s ++ scope.interpolate t := by
  -- By induction on the length: behind a reference, the text goes on after its end.
  induction hn : s.length using Nat.strongRecOn generalizing s with
  | ind n ih =>
    subst hn
    cases s with
    | nil => rw [interpolate, List.nil_append, List.nil_append]
    | cons c rest =>
      by_cases hc : c = '\x7b'
      · subst hc
        obtain ⟨inner, after, rfl, hinner⟩ := h [] rest rfl
        have hafter : ClosesAll after :=
          ClosesAll.of_append (s := '\x7b' :: (inner ++ ['\x7d'])) (by simpa using h)
        have hlength : after.length < ('\x7b' :: (inner ++ '\x7d' :: after)).length := by
          simp
          omega
        rw [List.cons_append, List.append_assoc, List.cons_append,
          interpolate_reference (splitReference_balanced hinner (after ++ t)),
          interpolate_reference (splitReference_balanced hinner after),
          ih after.length hlength hafter rfl, List.append_assoc]
      · have hrest : ClosesAll rest := ClosesAll.of_append (s := [c]) h
        rw [List.cons_append, interpolate_cons hc, interpolate_cons hc,
          ih rest.length (by simp) hrest rfl, List.cons_append]

/-- A text between braces becomes the values of the variable that it names. -/
theorem interpolate_braces (h : IsBalanced inner) :
    scope.interpolate ('\x7b' :: (inner ++ ['\x7d'])) =
      (displayAll " " (scope.get (Reference.ofText (scope.interpolate inner)).name)).toList := by
  rw [interpolate_reference (splitReference_balanced h []), interpolate, List.append_nil]

/-- A reference with texts around it: the values stand between what the texts become, as they are
shown. -/
theorem interpolate_around (h : ClosesAll s) (hinner : IsBalanced inner) (t : List Char) :
    scope.interpolate (s ++ '\x7b' :: (inner ++ '\x7d' :: t)) =
      scope.interpolate s ++
        (displayAll " " (scope.get (Reference.ofText (scope.interpolate inner)).name)).toList ++
        scope.interpolate t := by
  rw [interpolate_append h, interpolate_reference (splitReference_balanced hinner t),
    List.append_assoc]

/-! ## One pass -/

/-- One pass over a text that replaces its references. What a text between braces names is found
out by `expand`. -/
def scan (scope : Scope) (expand : List Char → List Char) : List Char → List Char
  | [] => []
  | c :: rest =>
    if c = '\x7b' then
      match _h : splitReference 0 rest with
      | none => c :: rest
      | some (inner, after) =>
        (displayAll " " (scope.get (Reference.ofText (expand inner)).name)).toList ++
          scope.scan expand after
    else c :: scope.scan expand rest
termination_by s => s.length
decreasing_by
  · have h := length_splitReference _h
    simp only [List.length_cons]
    omega
  · simp

/-- A text that stands between braces in another one, with its own braces balanced. -/
structure Encloses (s inner : List Char) : Prop where
  balanced : IsBalanced inner
  between : '\x7b' :: (inner ++ ['\x7d']) <:+: s

theorem Encloses.length_lt (h : Encloses s inner) : inner.length < s.length := by
  have hle := h.between.length_le
  simp only [List.length_cons, List.length_append, List.length_nil] at hle
  omega

theorem Encloses.of_append (h : Encloses t inner) (s : List Char) : Encloses (s ++ t) inner :=
  ⟨h.balanced, h.between.trans (List.suffix_append s t).isInfix⟩

theorem encloses_of_splitReference (h : splitReference 0 t = some (inner, after)) :
    Encloses ('\x7b' :: t) inner := by
  refine ⟨isBalanced_of_splitReference h, [], after, ?_⟩
  rw [eq_append_of_splitReference h]
  simp

/-- A pass asks for the names in texts that stand between braces, and for no other ones. -/
theorem scan_congr {expand expand' : List Char → List Char}
    (h : ∀ inner, Encloses s inner → expand inner = expand' inner) :
    scope.scan expand s = scope.scan expand' s := by
  fun_induction scope.scan expand s with
  | case1 => rw [scan]
  | case2 rest hsplit =>
    rw [scan, if_pos rfl]
    split
    · rfl
    · next hsplit' =>
      rw [hsplit] at hsplit'
      cases hsplit'
  | case3 rest inner after hsplit ih =>
    have hafter : '\x7b' :: rest = ('\x7b' :: (inner ++ ['\x7d'])) ++ after := by
      rw [eq_append_of_splitReference hsplit]
      simp
    have hrest := ih fun text htext => h text (hafter ▸ htext.of_append _)
    rw [scan, if_pos rfl]
    split
    · next hsplit' =>
      rw [hsplit] at hsplit'
      cases hsplit'
    · next hsplit' =>
      rw [hsplit] at hsplit'
      cases hsplit'
      rw [h inner (encloses_of_splitReference hsplit), hrest]
  | case4 c rest hc ih =>
    rw [scan, if_neg hc, ih fun text htext => h text (htext.of_append [c])]

/-- Replacing references is one pass in which names are expanded in the same way. -/
theorem interpolate_eq_scan (s : List Char) :
    scope.interpolate s = scope.scan scope.interpolate s := by
  fun_induction scope.scan scope.interpolate s with
  | case1 => rw [interpolate]
  | case2 rest hsplit => rw [interpolate_open hsplit]
  | case3 rest inner after hsplit ih => rw [interpolate_reference hsplit, ih]
  | case4 c rest hc ih => rw [interpolate_cons hc, ih]

/-- No other function is a pass that expands names by itself. -/
theorem eq_interpolate {expand : List Char → List Char}
    (h : ∀ s, expand s = scope.scan expand s) (s : List Char) :
    expand s = scope.interpolate s := by
  induction hn : s.length using Nat.strongRecOn generalizing s with
  | ind n ih =>
    subst hn
    rw [h s, interpolate_eq_scan s]
    exact scan_congr fun inner hinner => ih inner.length hinner.length_lt inner rfl

/-- What becomes of references whose braces are closed, in every scope:

* a text without opening braces stays as it is;
* a text that closes all its braces is replaced on its own, whatever follows;
* a balanced text between braces becomes the values of a variable, shown with a space between
  them, and nothing if it is not set. The variable is named by what the text itself becomes,
  without the mark `::*` if it ends in it, and without only one of them;
* the values stand in the text as they are shown, whatever braces they contain;
* all this is one pass that expands the names in texts between braces of the text by itself. These
  texts are shorter and close all their braces, and no other function is such a pass. -/
theorem interpolate_closed_references (scope : Scope) :
    (∀ s, '\x7b' ∉ s → scope.interpolate s = s) ∧
    (∀ s t, ClosesAll s →
      scope.interpolate (s ++ t) = scope.interpolate s ++ scope.interpolate t) ∧
    (∀ inner, IsBalanced inner → ∀ name, name = (Reference.ofText (scope.interpolate inner)).name →
      scope.interpolate ('\x7b' :: (inner ++ ['\x7d'])) =
        (displayAll " " (scope.get name)).toList ∧
      (scope.get name = [] → scope.interpolate ('\x7b' :: (inner ++ ['\x7d'])) = []) ∧
      ∀ s t, ClosesAll s → scope.interpolate (s ++ '\x7b' :: (inner ++ '\x7d' :: t)) =
        scope.interpolate s ++ (displayAll " " (scope.get name)).toList ++ scope.interpolate t) ∧
    (∀ text, (Reference.ofText (text ++ listMark)).name = String.ofList text ∧
      (¬listMark <:+ text → (Reference.ofText text).name = String.ofList text)) ∧
    (∀ s, scope.interpolate s = scope.scan scope.interpolate s) ∧
    (∀ s expand, (∀ inner, Encloses s inner → expand inner = scope.interpolate inner) →
      scope.scan expand s = scope.interpolate s) ∧
    (∀ s inner, Encloses s inner → inner.length < s.length ∧ ClosesAll inner) ∧
    ∀ expand : List Char → List Char, (∀ s, expand s = scope.scan expand s) →
      expand = scope.interpolate := by
  refine ⟨fun s h => interpolate_eq_self h, fun s t h => interpolate_append h t, ?_, ?_,
    interpolate_eq_scan, ?_, ?_, ?_⟩
  · rintro inner hinner name rfl
    have hbraces := @interpolate_braces _ scope hinner
    refine ⟨hbraces, fun hunset => ?_, fun s t hs => interpolate_around hs hinner t⟩
    rw [hbraces, hunset]
    rfl
  · intro text
    constructor
    · rw [Reference.ofText, stripListMark?_append]
    · intro hmark
      rw [Reference.ofText, stripListMark?_eq_none hmark]
  · intro s expand h
    rw [interpolate_eq_scan s]
    exact scan_congr h
  · intro s inner h
    exact ⟨h.length_lt, h.balanced.closesAll⟩
  · intro expand h
    funext s
    exact eq_interpolate h s

/-- Braces in a value are no reference. -/
example : (Scope.empty.set "a" [.text "\x7bb\x7d"]).interpolate "\x7ba\x7d!".toList =
    "\x7bb\x7d!".toList := by
  cbv

end Scope

end CallScript

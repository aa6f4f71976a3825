import CallScript.Proofs.Interpolation

/-!
# Braces that are never closed

A brace that no later one closes begins no reference, so it is kept. What is meant is that it is
kept like any other character, and that the references behind it are replaced all the same. But the
search for its end goes through the whole rest of the text, and this rest is kept with it: in
`{a {x}` the closed reference `{x}` stays as it is (`Scope.unclosed_brace_hides_reference`).

What is true is `Scope.interpolate_unclosed_brace`. A text is cut in two before the first brace that
is not closed (`exists_unclosed`). The references before it are replaced, and what is behind it is
kept. So the brace is kept like any other character exactly if nothing behind it would be replaced
anyway, and in every scope exactly if the next brace behind it is not closed either.

Whether a brace is closed is said by the number of braces that are open behind it, counting itself:
it is not if this number never becomes zero (`StaysOpen`).
-/

namespace CallScript

/-- Whether a brace in front of a text is not closed in it: no prefix closes one brace more than it
opens. -/
def StaysOpen (s : List Char) : Prop :=
  ∀ p, p <+: s → p.count '\x7d' ≠ p.count '\x7b' + 1

variable {s t : List Char}

namespace Scope

/-- What has no end for a reference has none in its beginning. -/
theorem splitReference_eq_none_of_append {depth : Nat}
    (h : splitReference depth (s ++ t) = none) : splitReference depth s = none := by
  cases hsplit : splitReference depth s with
  | none => rfl
  | some split =>
    obtain ⟨inner, after⟩ := split
    have hlonger := splitReference_append (closesBraces_of_splitReference hsplit) (after ++ t)
    rw [← List.cons_append, ← List.append_assoc, ← eq_append_of_splitReference hsplit, h] at hlonger
    cases hlonger

/-- A brace stays open exactly if the search for its end fails. -/
theorem staysOpen_iff : StaysOpen s ↔ splitReference 0 s = none := by
  constructor
  · intro h
    cases hsplit : splitReference 0 s with
    | none => rfl
    | some split =>
      obtain ⟨inner, after⟩ := split
      have hs := eq_append_of_splitReference hsplit
      have hclosed := h (inner ++ ['\x7d']) ⟨after, by rw [hs, List.append_assoc]; rfl⟩
      have hwhole := (isBalanced_of_splitReference hsplit).whole
      refine absurd ?_ hclosed
      rw [List.count_append, List.count_append, hwhole]
      rfl
  · rintro h p ⟨rest, rfl⟩
    have hle := count_le_of_splitReference (splitReference_eq_none_of_append h)
    omega

end Scope

open Scope

instance : Decidable (StaysOpen s) := decidable_of_iff _ staysOpen_iff.symm

/-! ## Where the first unclosed brace is -/

theorem closesAll_nil : ClosesAll [] := by
  intro before rest h
  simp at h

theorem closesAll_cons {c : Char} (hc : c ≠ '\x7b') (h : ClosesAll s) : ClosesAll (c :: s) := by
  intro before rest hs
  cases before with
  | nil => exact absurd (List.cons.inj hs).1 hc
  | cons b before => exact h before rest (List.cons.inj hs).2

/-- A reference and a text that closes all its braces. -/
theorem closesAll_reference {inner after : List Char} (hinner : IsBalanced inner)
    (h : ClosesAll after) : ClosesAll ('\x7b' :: (inner ++ '\x7d' :: after)) := by
  intro before rest hs
  cases before with
  | nil =>
    obtain ⟨-, rfl⟩ := List.cons.inj hs
    exact ⟨inner, after, rfl, hinner⟩
  | cons b before =>
    obtain ⟨-, hs⟩ := List.cons.inj hs
    rcases List.append_eq_append_iff.mp hs with ⟨behind, -, hafter⟩ | ⟨front, hfront, hrest⟩
    · -- The brace is behind the reference.
      cases behind with
      | nil => cases (List.cons.inj hafter).1
      | cons c behind => exact h behind rest (List.cons.inj hafter).2
    · cases front with
      | nil => cases (List.cons.inj hrest).1
      | cons c front =>
        -- The brace is in the reference, and is closed there.
        obtain ⟨rfl, rfl⟩ := List.cons.inj hrest
        obtain ⟨inner', after', rfl, hinner'⟩ := hinner.closesAll before front hfront
        exact ⟨inner', after' ++ '\x7d' :: after, by simp, hinner'⟩

/-- Every text is cut in two before the first brace that is not closed, if there is one. -/
theorem exists_unclosed (s : List Char) :
    ClosesAll s ∨ ∃ before t, s = before ++ '\x7b' :: t ∧ ClosesAll before ∧ StaysOpen t := by
  -- By induction on the length: a reference is passed over as a whole.
  induction hn : s.length using Nat.strongRecOn generalizing s with
  | ind n ih =>
    subst hn
    cases s with
    | nil => exact .inl closesAll_nil
    | cons c rest =>
      by_cases hc : c = '\x7b'
      · subst hc
        cases hsplit : splitReference 0 rest with
        | none => exact .inr ⟨[], rest, rfl, closesAll_nil, staysOpen_iff.mpr hsplit⟩
        | some split =>
          obtain ⟨inner, after⟩ := split
          have hinner := isBalanced_of_splitReference hsplit
          have hlength := length_splitReference hsplit
          obtain rfl := eq_append_of_splitReference hsplit
          rcases ih after.length (by simp; omega) after rfl with
            hafter | ⟨before, t, rfl, hbefore, ht⟩
          · exact .inl (closesAll_reference hinner hafter)
          · exact .inr ⟨_, t, by simp, closesAll_reference hinner hbefore, ht⟩
      · rcases ih rest.length (by simp) rest rfl with hrest | ⟨before, t, rfl, hbefore, ht⟩
        · exact .inl (closesAll_cons hc hrest)
        · exact .inr ⟨c :: before, t, rfl, closesAll_cons hc hbefore, ht⟩

/-! ## What is kept -/

namespace Scope

variable {scope : Scope}

/-- A brace that is not closed stays, with everything behind it, and what is before it is replaced
on its own. -/
theorem interpolate_unclosed (hs : ClosesAll s) (ht : StaysOpen t) :
    scope.interpolate (s ++ '\x7b' :: t) = scope.interpolate s ++ '\x7b' :: t := by
  rw [interpolate_append hs, interpolate_open (staysOpen_iff.mp ht)]

/-- A text is kept if the first brace that it opens is not closed. -/
theorem interpolate_eq_self_of_staysOpen
    (h : ∀ before rest, t = before ++ '\x7b' :: rest → '\x7b' ∉ before → StaysOpen rest) :
    scope.interpolate t = t := by
  by_cases hmem : '\x7b' ∈ t
  · obtain ⟨before, rest, rfl, hbefore⟩ := List.eq_append_cons_of_mem hmem
    have hplain : ClosesAll before := fun front behind hfront => absurd (by simp [hfront]) hbefore
    rw [interpolate_unclosed hplain (h before rest rfl hbefore), interpolate_eq_self hbefore]
  · exact interpolate_eq_self hmem

/-- If the first brace is closed, a text grows where every variable has the same long value. -/
theorem length_lt_of_splitReference {before rest inner after : List Char}
    (hbefore : '\x7b' ∉ before) (hsplit : splitReference 0 rest = some (inner, after))
    {value : String} (hvalues : ∀ name, scope.get name = [.text value])
    (hlong : (before ++ '\x7b' :: rest).length < value.length) :
    (before ++ '\x7b' :: rest).length <
      (scope.interpolate (before ++ '\x7b' :: rest)).length := by
  have hplain : ClosesAll before := fun front behind hfront => absurd (by simp [hfront]) hbefore
  have hshown : (displayAll " " [.text value]).toList = value.toList := by
    simp [displayAll, Value.display]
  rw [interpolate_append hplain, interpolate_reference hsplit, hvalues, hshown]
  simp only [List.length_append, String.length_toList] at hlong ⊢
  omega

/-- A brace that is not closed is kept, and all that is behind it, closed references included. What
is before it is replaced, if all braces are closed there; and every text closes all its braces or
has a first one that is not closed.

So an unclosed brace is kept like any other character exactly if nothing behind it is replaced. This
is so in every scope exactly if no brace is opened behind it or the first one is not closed
either. -/
theorem interpolate_unclosed_brace (t : List Char) (ht : StaysOpen t) :
    (∀ scope : Scope, scope.interpolate ('\x7b' :: t) = '\x7b' :: t) ∧
    (∀ (scope : Scope) (s : List Char), ClosesAll s →
      scope.interpolate (s ++ '\x7b' :: t) = scope.interpolate s ++ '\x7b' :: t) ∧
    (∀ s, ClosesAll s ∨ ∃ before t, s = before ++ '\x7b' :: t ∧ ClosesAll before ∧ StaysOpen t) ∧
    (∀ scope : Scope, scope.interpolate ('\x7b' :: t) = '\x7b' :: scope.interpolate t ↔
      scope.interpolate t = t) ∧
    ((∀ scope : Scope, scope.interpolate ('\x7b' :: t) = '\x7b' :: scope.interpolate t) ↔
      ∀ before rest, t = before ++ '\x7b' :: rest → '\x7b' ∉ before → StaysOpen rest) := by
  have hkept (scope : Scope) : scope.interpolate ('\x7b' :: t) = '\x7b' :: t :=
    interpolate_open (staysOpen_iff.mp ht)
  have hlaw (scope : Scope) : scope.interpolate ('\x7b' :: t) = '\x7b' :: scope.interpolate t ↔
      scope.interpolate t = t := by
    rw [hkept, List.cons_inj_right]
    exact eq_comm
  refine ⟨hkept, fun scope s hs => interpolate_unclosed hs ht, exists_unclosed, hlaw, ?_, ?_⟩
  · rintro hscopes before rest rfl hbefore
    rw [staysOpen_iff]
    cases hsplit : splitReference 0 rest with
    | none => rfl
    | some split =>
      -- In a scope of long values, the reference would be replaced by more than it was.
      let value := String.ofList (List.replicate ((before ++ '\x7b' :: rest).length + 1) ' ')
      let scope : Scope := fun _ => [.text value]
      have hvalues : ∀ name, scope.get name = [.text value] := fun _ => rfl
      have hgrows := length_lt_of_splitReference hbefore hsplit hvalues (by simp [value])
      rw [(hlaw scope).mp (hscopes scope)] at hgrows
      exact absurd hgrows (Nat.lt_irrefl _)
  · intro hfirst scope
    exact (hlaw scope).mpr (interpolate_eq_self_of_staysOpen hfirst)

/-- In `{x} {a {x}` the first reference is replaced and the second one is kept. -/
theorem interpolate_unclosed_brace_between :
    StaysOpen "a \x7bx\x7d".toList ∧ ClosesAll "\x7bx\x7d ".toList ∧
      (Scope.empty.set "x" [.text "1"]).interpolate "\x7bx\x7d \x7ba \x7bx\x7d".toList =
        "1 \x7ba \x7bx\x7d".toList := by
  have hopen : StaysOpen "a \x7bx\x7d".toList := by decide
  have hname : splitReference 0 "x\x7d".toList = some (['x'], []) := rfl
  have hclosed : ClosesAll "\x7bx\x7d ".toList :=
    closesAll_reference (isBalanced_of_splitReference hname)
      (closesAll_cons (by decide) closesAll_nil)
  obtain ⟨-, hbefore, -⟩ := interpolate_unclosed_brace _ hopen
  refine ⟨hopen, hclosed, (hbefore _ _ hclosed).trans ?_⟩
  cbv

/-- Behind the unclosed brace of `{a {x}`, the closed reference `{x}` is not replaced. -/
theorem unclosed_brace_hides_reference :
    StaysOpen "a \x7bx\x7d".toList ∧
      (Scope.empty.set "x" [.text "1"]).interpolate "\x7ba \x7bx\x7d".toList =
        "\x7ba \x7bx\x7d".toList ∧
      '\x7b' :: (Scope.empty.set "x" [.text "1"]).interpolate "a \x7bx\x7d".toList =
        "\x7ba 1".toList ∧
      (Scope.empty.set "x" [.text "1"]).interpolate "\x7ba \x7bx\x7d".toList ≠
        '\x7b' :: (Scope.empty.set "x" [.text "1"]).interpolate "a \x7bx\x7d".toList := by
  have hkept : (Scope.empty.set "x" [.text "1"]).interpolate "\x7ba \x7bx\x7d".toList =
      "\x7ba \x7bx\x7d".toList := by cbv
  have hmeant : '\x7b' :: (Scope.empty.set "x" [.text "1"]).interpolate "a \x7bx\x7d".toList =
      "\x7ba 1".toList := by cbv
  refine ⟨by decide, hkept, hmeant, ?_⟩
  rw [hkept, hmeant]
  decide

end Scope

end CallScript

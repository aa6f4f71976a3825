import CallScript.Proofs.ArgumentTypes
import CallScript.Proofs.Spacing
import CallScript.Proofs.TargetedReading

/-!
# Parentheses that only group

Parentheses around one item are read as the item. For this, two scans have to be content with them.
The search for the closing bracket must find it at the very end, whatever the item is: it reads over
every text that is anything as if it were not there (`Text.IsPassed`, `Outline.isPassed`). And
splitting must find one item between the parentheses, without a name (`ArgumentList.IsItem`).

The latter is what was asked of the text to begin with, so a pair of parentheses may always be put
around an item. But the result need not be an item itself. Splitting counts with sign, so a comma at
which a bracket too many was closed does not end an argument, until a parenthesis in front makes up
for it: `),(` is an item that cannot be read, and `((),())` is a list (`second_pair_makes_two_items`).
What is true of any number of pairs is that they only group as long as no comma comes to the top
(`keepsCommas_iff`), so in particular around an expression with no brackets in its quotes
(`parentheses_only_group`).
-/

namespace CallScript

open ArgumentList Text

variable {s t : List Char}

/-! ## What the search for a closing bracket reads over -/

namespace Text

/-- Whether the search for a closing bracket goes on behind a text as if the text were not there. -/
def IsPassed (s : List Char) : Prop :=
  ∀ (d : Int) (rest : List Char), 1 ≤ d →
    closesFrom d false (s ++ rest) = closesFrom d false rest

theorem IsPassed.append (hs : IsPassed s) (ht : IsPassed t) : IsPassed (s ++ t) := by
  intro d rest hd
  rw [List.append_assoc, hs d _ hd, ht d rest hd]

theorem IsPassed.of_isPlain (hs : IsPlain s) : IsPassed s :=
  fun d rest _ => closesFrom_plain hs d false rest

/-- Quotes hide what is between them, also where they are written twice. -/
theorem closesFrom_doubleQuotes (d : Int) (s rest : List Char) :
    closesFrom d true (doubleQuotes s ++ '"' :: rest) = closesFrom d false rest := by
  induction s with
  | nil => rw [doubleQuotes, List.nil_append, closesFrom, if_pos rfl, Bool.not_true]
  | cons c s ih =>
    rw [doubleQuotes]
    split
    · rw [List.cons_append, List.cons_append, closesFrom, if_pos rfl, closesFrom, if_pos rfl]
      exact ih
    · next hc => rw [List.cons_append, closesFrom, if_neg hc, if_pos rfl, ih]

theorem IsPassed.quoted (s : List Char) : IsPassed ('"' :: doubleQuotes s ++ ['"']) := by
  intro d rest hd
  rw [List.append_assoc, List.cons_append, closesFrom, if_pos rfl]
  exact closesFrom_doubleQuotes d s rest

/-- If a search ends with a text, the same search with more brackets open goes on behind it. -/
theorem closesFrom_append {k : Int} {quoted : Bool} (h : closesFrom k quoted s = true)
    (hk : 1 ≤ k) {d : Int} {rest : List Char} (hd : 1 ≤ d) :
    closesFrom (k + d) quoted (s ++ rest) = closesFrom d false rest := by
  induction s generalizing k quoted with
  | nil => cases h
  | cons c s ih =>
    rw [closesFrom] at h
    rw [List.cons_append, closesFrom]
    split at h
    · next hq =>
      rw [if_pos hq]
      exact ih h hk
    · next hq =>
      rw [if_neg hq]
      cases quoted with
      | true => exact ih h hk
      | false =>
        rw [if_neg Bool.false_ne_true] at h ⊢
        split at h
        · next ho =>
          rw [if_pos ho, show k + d + 1 = k + 1 + d by omega]
          exact ih h (by omega)
        · next ho =>
          rw [if_neg ho]
          split at h
          · next hc =>
            rw [if_pos hc, if_neg (by omega)]
            split at h
            · next hone =>
              -- Here the search ended.
              rw [List.isEmpty_iff.mp h, List.nil_append, hone, show 1 + d - 1 = d by omega]
            · rw [show k + d - 1 = k - 1 + d by omega]
              exact ih h (by omega)
          · next hc =>
            rw [if_neg hc]
            exact ih h hk

/-- A bracket that is closed by the last character. -/
theorem IsPassed.of_closesAtEnd {opener : Char} (hopener : opener = '(' ∨ opener = '\x7b')
    (h : closesAtEnd (opener :: s) = true) : IsPassed (opener :: s) := by
  intro d rest hd
  rw [List.cons_append, closesFrom_opener hopener, Int.add_comm]
  exact closesFrom_append (closesFrom_of_closesAtEnd hopener h) (Int.le_refl 1) hd

end Text

/-- The search for a closing bracket reads over every text that is anything. -/
theorem Outline.isPassed (h : ofText s ≠ unreadable) : IsPassed s := by
  by_cases hbracket : ∃ word opener rest, s = word ++ opener :: rest ∧
      (∀ c ∈ word, isWordChar c = true) ∧ (opener = '(' ∨ opener = '\x7b') ∧
      closesAtEnd (opener :: rest) = true
  · obtain ⟨word, opener, rest, rfl, hword, hopener, hcloses⟩ := hbracket
    have hplain : IsPlain word := fun c hc => not_mem_structural_of_isWordChar (hword c hc)
    exact (IsPassed.of_isPlain hplain).append (.of_closesAtEnd hopener hcloses)
  · -- There is no bracket that is closed at the end, so it is a literal.
    have hnone : IsClosedBy (fun _ _ => False) s := fun word opener rest hs hword hopener hcloses =>
      absurd ⟨word, opener, rest, hs, hword, hopener, hcloses⟩ hbracket
    cases isExpression hnone h with
    | quoted content => exact .quoted content
    | yes => exact .of_isPlain (by decide)
    | no => exact .of_isPlain (by decide)
    | number reads => exact .of_isPlain (Number.isPlain_of_read? reads)
    | reference named free marked closed => exact closed.elim
    | group closed => exact closed.elim
    | call identifier closed => exact closed.elim

/-- A text that is anything, with blanks around it, may be put between parentheses. -/
theorem Outline.closesAtEnd_parentheses (h : ofText (trim s) ≠ unreadable) :
    closesAtEnd ('(' :: s ++ [')']) = true := by
  obtain ⟨before, after, hblank, hs⟩ := exists_blanks_trim s
  have hplain {blanks : List Char} (hsub : blanks ⊆ before ++ after) : IsPlain blanks :=
    fun c hc => not_mem_structural_of_isBlank (hblank c (hsub hc))
  have hpassed : IsPassed s := by
    rw [hs]
    exact ((IsPassed.of_isPlain (hplain (List.subset_append_left ..))).append
      (isPassed h)).append (.of_isPlain (hplain (List.subset_append_right ..)))
  rw [closesAtEnd, List.cons_append, closesFrom_opener (.inl rfl), hpassed _ _ (by decide)]
  rfl

/-! ## Texts that are one item -/

namespace ArgumentList

/-- Whether a text, as a list, is one argument without a name. -/
def IsItem (s : List Char) : Prop := ∃ text, tokenize s = [⟨none, text⟩]

/-- No comma is cut exactly if splitting passes over the text. -/
theorem cuts_eq_nil_iff : cuts s = [] ↔ IsUncut s := by
  rw [cuts, List.filter_eq_nil_iff]
  constructor
  · rintro h p rest rfl hquoted hdepth
    refine h p.length (by simp) ?_
    simp [isCut, hquoted, hdepth]
  · intro h i _ hcut
    simp only [isCut, Bool.and_eq_true, decide_eq_true_eq, Bool.not_eq_true'] at hcut
    obtain ⟨⟨hcomma, hdepth⟩, hquoted⟩ := hcut
    obtain ⟨hlt, hget⟩ := List.getElem?_eq_some_iff.mp hcomma
    refine h (s.take i) (s.drop (i + 1)) ?_ hquoted hdepth
    rw [← hget, List.getElem_cons_drop, List.take_append_drop]

theorem tokenize_of_isUncut (hne : s ≠ []) (h : IsUncut s) :
    tokenize s = [RawArgument.ofSegment s] := by
  rw [(tokenize_eq_slices s).1, if_neg hne, cuts_eq_nil_iff.mpr h, slices, List.drop_zero,
    List.map_singleton]

/-- One item: a text that is not empty, which splitting passes over, and which does not begin like a
named argument. -/
theorem isItem_iff : IsItem s ↔ s ≠ [] ∧ IsUncut s ∧ ∀ word rest, ¬IsNamed s word rest := by
  constructor
  · rintro ⟨text, h⟩
    have hne : s ≠ [] := by
      rintro rfl
      cases h
    have huncut : IsUncut s := by
      obtain ⟨hslices, hlength, -⟩ := tokenize_eq_slices s
      rw [h, if_neg hne] at hslices
      have hone := congrArg List.length hslices
      rw [List.length_map, hlength, List.length_singleton] at hone
      exact cuts_eq_nil_iff.mp (List.length_eq_zero_iff.mp (by omega))
    refine ⟨hne, huncut, fun word rest hnamed => ?_⟩
    rw [tokenize_of_isUncut hne huncut, ofSegment_of_isNamed hnamed] at h
    cases h
  · rintro ⟨hne, huncut, hunnamed⟩
    exact ⟨_, by rw [tokenize_of_isUncut hne huncut, ofSegment_of_not_isNamed hunnamed]⟩

theorem tokenize_of_isItem (h : IsItem s) : tokenize s = [positional s] := by
  obtain ⟨hne, huncut, hunnamed⟩ := isItem_iff.mp h
  rw [tokenize_of_isUncut hne huncut, ofSegment_of_not_isNamed hunnamed, positional]

end ArgumentList

/-! ## One pair of parentheses -/

/-- What is between two parentheses. -/
theorem Form.read_parentheses (inner : List Char) :
    read ('(' :: inner ++ [')']) =
      if closesAtEnd ('(' :: inner ++ [')']) then
        if (tokenize inner).any fun item => item.name.isSome then unreadable
        else ofItems ((tokenize inner).map fun item => read item.text.toList)
      else unreadable := by
  have htrim : trim ('(' :: inner ++ [')']) = '(' :: inner ++ [')'] := by
    rw [trim_concat (by decide)]
    rfl
  rw [read_eq, htrim, Outline.ofText_concat (.inl rfl), List.cons_append, Outline.ofBracketed,
    if_neg (by decide), if_pos rfl, List.dropLast_concat]
  by_cases hcloses : closesAtEnd ('(' :: (inner ++ [')'])) = true
  · rw [if_pos hcloses, if_pos hcloses]
  · rw [if_neg hcloses, if_neg hcloses]

theorem Text.trim_trim (s : List Char) : trim (trim s) = trim s := by
  obtain ⟨before, after, hblank, hs⟩ := exists_blanks_trim s
  conv => rhs; rw [hs]
  rw [trim_blanks_right fun c hc => hblank c (List.mem_append_right _ hc),
    trim_blanks_left fun c hc => hblank c (List.mem_append_left _ hc)]

/-- One item between parentheses is read as the item. -/
theorem Form.read_item (h : IsItem s) : read ('(' :: s ++ [')']) = read s := by
  have hitem : read (positional s).text.toList = read s := by
    rw [positional, String.toList_ofList, read_eq, trim_trim, ← read_eq]
  rw [read_parentheses, tokenize_of_isItem h, List.any_cons, List.any_nil, List.map_singleton,
    hitem]
  by_cases hnone : Outline.ofText (trim s) = .unreadable
  · have hread : read s = unreadable := by rw [read_eq, hnone]
    simp [hread, ofItems]
  · rw [if_pos (Outline.closesAtEnd_parentheses hnone)]
    rfl

theorem Reader.parse_item (reader : Reader) (target : Ty) {text : String}
    (h : IsItem text.toList) :
    reader.parse ("(" ++ text ++ ")") target = reader.parse text target := by
  have hlist : ("(" ++ text ++ ")").toList = '(' :: text.toList ++ [')'] := by
    rw [String.toList_append, String.toList_append]
    rfl
  rw [parse, hlist, Form.read_item h, parse]

/-- An expression that was read for a type is not converted to this type a second time. -/
theorem Reader.coerce_of_parse {reader : Reader} {text : String} {target : Ty} {e : Expr}
    (h : reader.parse text target = .ok e) : e.coerce target = .ok e := by
  by_cases htarget : target = .any
  · rw [htarget, Expr.coerce_any]
  · exact Expr.coerce_of_ty ((isTyped_of_parse h).2 htarget)

/-! ## Any number of pairs -/

/-- A text in a number of pairs of parentheses. -/
def parenthesize (n : Nat) (s : List Char) : List Char :=
  List.replicate n '(' ++ s ++ List.replicate n ')'

theorem parenthesize_succ (n : Nat) (s : List Char) :
    parenthesize (n + 1) s = '(' :: parenthesize n s ++ [')'] := by
  rw [parenthesize, List.replicate_succ, List.replicate_succ', parenthesize]
  simp only [List.cons_append, List.append_assoc]

/-- Behind the parentheses in front, the brackets are one deeper for each. -/
theorem ArgumentList.depth_replicate_append (n : Nat) (p : List Char) :
    depth (List.replicate n '(' ++ p) = n + depth p := by
  have hopeners : (List.replicate n '(').countP (fun c => c = '(' || c = '\x7b') = n := by
    simp [List.countP_replicate]
  have hclosers : (List.replicate n '(').countP (fun c => c = ')' || c = '\x7d') = 0 := by
    simp [List.countP_replicate]
  have hquotes : (List.replicate n '(').count '"' = 0 := by simp [List.count_replicate]
  rw [depth, List.countP_append, List.countP_append, List.count_append, hopeners, hclosers, hquotes,
    depth]
  omega

theorem ArgumentList.isQuoted_replicate_append (n : Nat) (p : List Char) :
    isQuoted (List.replicate n '(' ++ p) = isQuoted p := by
  simp [isQuoted, List.count_append, List.count_replicate]

/-- With parentheses around it a text is one item exactly if no comma is brought to the top. -/
theorem isItem_parenthesize_iff {n : Nat} (hn : 0 < n) :
    IsItem (parenthesize n s) ↔
      ∀ p rest, s = p ++ ',' :: rest → isQuoted p = false → depth p ≠ -n := by
  have hcomma (paren : Char) (hparen : paren ≠ ',') : ',' ∉ List.replicate n paren := fun h =>
    hparen (List.eq_of_mem_replicate h).symm
  rw [isItem_iff]
  constructor
  · rintro ⟨-, huncut, -⟩ p rest rfl hquoted hdepth
    refine huncut (List.replicate n '(' ++ p) (rest ++ List.replicate n ')') ?_ ?_ ?_
    · simp [parenthesize]
    · rw [isQuoted_replicate_append, hquoted]
    · rw [depth_replicate_append, hdepth]
      omega
  · intro h
    obtain ⟨m, rfl⟩ : ∃ m, n = m + 1 := ⟨n - 1, by omega⟩
    refine ⟨by simp [parenthesize_succ], ?_, ?_⟩
    · intro p rest hp hquoted hdepth
      rw [parenthesize, List.append_assoc] at hp
      obtain ⟨q, rfl, hq⟩ := exists_of_append_left (hcomma '(' (by decide)) hp
      obtain ⟨rest', rfl⟩ := exists_of_append_right (hcomma ')' (by decide)) hq
      rw [isQuoted_replicate_append] at hquoted
      rw [depth_replicate_append] at hdepth
      exact h q rest' rfl hquoted (by omega)
    · rw [parenthesize_succ]
      exact @Scanner.not_isNamed [] [] _ (by simp) (by simp) (by simp; decide)

/-- One item in several pairs of parentheses, of which each but the last leaves it one. -/
theorem Form.read_parenthesize {n : Nat} (h : ∀ k < n, IsItem (parenthesize k s)) :
    read (parenthesize n s) = read s := by
  induction n with
  | zero => simp [parenthesize]
  | succ n ih =>
    rw [parenthesize_succ, read_item (h n (Nat.lt_succ_self n))]
    exact ih fun k hk => h k (Nat.lt_succ_of_lt hk)

/-- Whether no comma outside quotes comes to the top in fewer than `n` pairs of parentheses. -/
def KeepsCommas (n : Nat) (s : List Char) : Prop :=
  ∀ p rest, s = p ++ ',' :: rest → isQuoted p = false → depth p ≤ -n ∨ 0 < depth p

theorem keepsCommas_iff {n : Nat} (hitem : IsItem s) :
    KeepsCommas n s ↔ ∀ k < n, IsItem (parenthesize k s) := by
  constructor
  · intro h k hk
    cases k with
    | zero => simpa [parenthesize] using hitem
    | succ k =>
      refine (isItem_parenthesize_iff k.succ_pos).mpr fun p rest hp hquoted hdepth => ?_
      have hkept := h p rest hp hquoted
      omega
  · intro h p rest hp hquoted
    obtain ⟨-, huncut, -⟩ := isItem_iff.mp hitem
    have hnot := huncut p rest hp hquoted
    by_contra hbetween
    have hk := h (-depth p).toNat (by omega)
    exact (isItem_parenthesize_iff (by omega)).mp hk p rest hp hquoted (by omega)

/-- In an expression, the commas stay within brackets outside quotes, and those inside quotes change
nothing about this if they are balanced. -/
theorem Reader.keepsCommas_of_parse {reader : Reader} {text : String} {target : Ty} {e : Expr}
    (h : reader.parse text target = .ok e)
    (hbalanced : ∀ p, p <+: text.toList → isQuoted p = false → quotedDepth p = 0) (n : Nat) :
    KeepsCommas n text.toList := by
  intro p rest hp hquoted
  have hopen := (isEnclosed_of_parse h).comma p rest hp hquoted
  have hquotes := hbalanced p ⟨_, hp.symm⟩ hquoted
  rw [depth_eq hquoted]
  omega

/-- Parentheses around a text that is one item, as a list, only group: with them and without them it
is read for every type as the same expression or fails alike, and so is one and the same thing to
whatever evaluates or checks it. It is not converted a second time for the parentheses.

With several pairs this is so as long as none of the inner pairs makes two items of the one, by
bringing a comma to the top that stands behind a closer too many. No number of pairs does that to
an expression in which brackets inside quotes are balanced wherever no quote is open. -/
theorem parentheses_only_group (text : String) (hitem : IsItem text.toList) :
    (∀ (reader : Reader) (target : Ty),
      reader.parse ("(" ++ text ++ ")") target = reader.parse text target ∧
      ∀ e, reader.parse text target = .ok e → e.coerce target = .ok e) ∧
    (∀ (evaluator : Evaluator) (target : Ty),
      evaluator.parse ("(" ++ text ++ ")") target = evaluator.parse text target) ∧
    ∀ n : Nat,
      (KeepsCommas n text.toList ↔ ∀ k < n, IsItem (parenthesize k text.toList)) ∧
      (KeepsCommas n text.toList →
        (∀ (reader : Reader) (target : Ty),
          reader.parse (String.ofList (parenthesize n text.toList)) target =
            reader.parse text target) ∧
        ∀ (evaluator : Evaluator) (target : Ty),
          evaluator.parse (String.ofList (parenthesize n text.toList)) target =
            evaluator.parse text target) ∧
      ((∃ (reader : Reader) (target : Ty) (e : Expr), reader.parse text target = .ok e) →
        (∀ p, p <+: text.toList → isQuoted p = false → quotedDepth p = 0) →
        KeepsCommas n text.toList) := by
  have hevaluator {text' : String}
      (h : ∀ (reader : Reader) (target : Ty), reader.parse text' target = reader.parse text target)
      (evaluator : Evaluator) (target : Ty) :
      evaluator.parse text' target = evaluator.parse text target := by
    rw [Evaluator.parse, h, Evaluator.parse]
  have hone (reader : Reader) (target : Ty) :
      reader.parse ("(" ++ text ++ ")") target = reader.parse text target :=
    reader.parse_item target hitem
  refine ⟨fun reader target => ⟨hone reader target, fun e => Reader.coerce_of_parse⟩,
    hevaluator hone, fun n => ⟨keepsCommas_iff hitem, fun hkept => ?_, ?_⟩⟩
  · have hmany (reader : Reader) (target : Ty) :
        reader.parse (String.ofList (parenthesize n text.toList)) target =
          reader.parse text target := by
      rw [Reader.parse, String.toList_ofList,
        Form.read_parenthesize ((keepsCommas_iff hitem).mp hkept), Reader.parse]
    exact ⟨hmany, hevaluator hmany⟩
  · rintro ⟨reader, target, e, hparse⟩ hbalanced
    exact Reader.keepsCommas_of_parse hparse hbalanced n

/-- Two pairs of parentheses around a call with a parenthesis in its quotes. -/
theorem parentheses_only_group_call :
    IsItem "f(\"(\", 1)".toList ∧ KeepsCommas 2 "f(\"(\", 1)".toList ∧
      (⟨"", fun _ => none⟩ : Reader).parse "((f(\"(\", 1)))" .any =
        .ok (.call ⟨"", "f", tokenize "\"(\", 1".toList⟩ .any true) := by
  have hitem : IsItem "f(\"(\", 1)".toList := ⟨"f(\"(\", 1)", rfl⟩
  have hkept : KeepsCommas 2 "f(\"(\", 1)".toList := by
    have hprefixes : ∀ p ∈ "f(\"(\", 1)".toList.inits, p ++ [','] ∈ "f(\"(\", 1)".toList.inits →
        0 < depth p := by decide
    intro p rest hp _
    refine .inr (hprefixes p ?_ ?_)
    · exact (List.mem_inits ..).mpr ⟨_, hp.symm⟩
    · exact (List.mem_inits ..).mpr ⟨rest, by simp [hp]⟩
  obtain ⟨-, -, hmany⟩ := parentheses_only_group "f(\"(\", 1)" hitem
  obtain ⟨hread, -⟩ := (hmany 2).2.1 hkept
  have hcall : Outline.ofText (trim "f(\"(\", 1)".toList) = .call "f" "\"(\", 1".toList := rfl
  refine ⟨hitem, hkept, (hread ⟨"", fun _ => none⟩ .any).trans ?_⟩
  rw [Reader.parse, Form.read_eq, hcall]
  rfl

/-- The text `),(` is one item, which cannot be read. In one pair of parentheses it still cannot be
read, and in two it is a list of two empty lists. -/
theorem second_pair_makes_two_items :
    IsItem "),(".toList ∧
      (⟨"", fun _ => none⟩ : Reader).parse "),(" .any = .error .unparsable ∧
      (⟨"", fun _ => none⟩ : Reader).parse "(),()" .any = .error .unparsable ∧
      String.ofList (parenthesize 2 "),(".toList) = "((),())" ∧
      (⟨"", fun _ => none⟩ : Reader).parse "((),())" .any =
        .ok (.list [.list [] .any, .list [] .any] .any) := by
  have hitem : IsItem "),(".toList := ⟨"),(", rfl⟩
  have hnone : Form.read "),(".toList = .unreadable := by
    rw [Form.read_eq, show Outline.ofText (trim "),(".toList) = .unreadable from rfl]
  have hempty : Form.read "()".toList = .list [] := by
    rw [show "()".toList = '(' :: [] ++ [')'] from rfl, Form.read_parentheses]
    rfl
  have htwo : Form.read "((),())".toList = .list [.list [], .list []] := by
    rw [show "((),())".toList = '(' :: "(),()".toList ++ [')'] from rfl, Form.read_parentheses,
      show tokenize "(),()".toList = [⟨none, "()"⟩, ⟨none, "()"⟩] from rfl, if_pos (by decide)]
    simp only [List.map_cons, List.map_nil, hempty]
    rfl
  refine ⟨hitem, ?_, ?_, rfl, ?_⟩
  · rw [Reader.parse, hnone, Reader.type]
  · rw [Reader.parse, show "(),()".toList = '(' :: "),(".toList ++ [')'] from rfl,
      Form.read_item hitem, hnone, Reader.type]
  · rw [Reader.parse, htwo]
    rfl

end CallScript

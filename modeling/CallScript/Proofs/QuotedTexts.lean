import CallScript.Proofs.Derivation
import CallScript.Proofs.Interpolation
import CallScript.Proofs.Spacing
import CallScript.Proofs.TargetedReading

/-!
# Texts and how they are quoted

Every text can be written down in a script, in one way: between quotes, with every quote in it
written twice (`Text.quote`). Reading it gives the text back (`Text.unquote?_eq_some_iff`), also if
it begins or ends in quotes, or in blanks, since only the blanks outside the quotes are trimmed
(`Text.trim_quote`).

So a quoted text stands for the text itself where texts or values of any kind are wanted, with the
references in it replaced when it is evaluated; and it is refused where a number or a truth value is
wanted, whatever it may look like (`quoted_texts_read_back`).
-/

namespace CallScript

open Text

variable {s : List Char}

/-! ## Quoting and reading back -/

namespace Text

/-- How a text is written: between quotes, with every quote in it twice. -/
def quote (s : List Char) : List Char := '"' :: doubleQuotes s ++ ['"']

theorem doubleQuotes_eq_flatMap (s : List Char) :
    doubleQuotes s = s.flatMap fun c => if c = '"' then ['"', '"'] else [c] := by
  induction s with
  | nil => rfl
  | cons c s ih =>
    rw [doubleQuotes, List.flatMap_cons, ih]
    split <;> rfl

/-- Halving the quotes of a text in which each was doubled gives the text. -/
theorem halveQuotes?_doubleQuotes (s : List Char) : halveQuotes? (doubleQuotes s) = some s := by
  induction s with
  | nil => rfl
  | cons c s ih =>
    rw [doubleQuotes]
    split
    · next hc => rw [halveQuotes?, ih, hc, Option.map_some]
    · next hc =>
      rw [halveQuotes?, if_neg hc, ih, Option.map_some]
      exact fun rest hquote => absurd hquote hc

theorem unquote?_quote (s : List Char) : unquote? (quote s) = some s := by
  have hlast : (doubleQuotes s ++ ['"']).getLast? = some '"' := List.getLast?_concat
  rw [quote, List.cons_append, unquote?, if_pos hlast, List.dropLast_concat,
    halveQuotes?_doubleQuotes]

/-- A text is quoted in one way, and nothing else is read back as it. -/
theorem unquote?_eq_some_iff {t : List Char} : unquote? t = some s ↔ t = quote s :=
  ⟨eq_of_unquote?, fun h => h ▸ unquote?_quote s⟩

end Text

section

variable {before after : List Char} (hbefore : ∀ c ∈ before, isBlank c = true)
  (hafter : ∀ c ∈ after, isBlank c = true)

include hbefore hafter

/-- Blanks within the quotes are not trimmed. -/
theorem Text.trim_quote (s : List Char) : trim (before ++ quote s ++ after) = quote s := by
  rw [trim_blanks_right hafter, trim_blanks_left hbefore, quote, trim_concat (by decide)]
  rfl

theorem Form.read_quote (s : List Char) :
    read (before ++ quote s ++ after) = .text (String.ofList s) := by
  rw [read_eq, trim_quote hbefore hafter, Outline.ofText, unquote?_quote]

end

/-! ## What a quoted text stands for -/

/-- The expression that a text between quotes writes: the text, to be gone over for references if it
may have any. -/
def Expr.ofQuoted (content : String) : Expr :=
  if '\x7b' ∈ content.toList then .template content else .literal (.text content)

namespace Expr

theorem ty_ofQuoted (content : String) : (ofQuoted content).ty = .text := by
  unfold ofQuoted
  split <;> rfl

theorem single_ofQuoted (content : String) : (ofQuoted content).single = true := by
  unfold ofQuoted
  split <;> rfl

/-- It stands for one text, in which the references are replaced. -/
theorem runIn_eval_ofQuoted (content : String) (evaluator : Evaluator) (root : Nat)
    (state : State) :
    (evaluator.eval ⟨root, ofQuoted content⟩).runIn state =
      (.ok [.text (String.ofList (evaluator.context.scope.interpolate content.toList))],
        state) := by
  unfold Evaluator.eval ofQuoted
  split
  · rw [Host.eval, Attempt.runIn_pure]
  · next hplain =>
    rw [Host.eval, Attempt.runIn_pure, Scope.interpolate_eq_self hplain, String.ofList_toList]

end Expr

theorem Reader.type_text (reader : Reader) (target : Ty) (content : String) :
    reader.type target (.text content) = (Expr.ofQuoted content).coerce target := by
  unfold type Expr.ofQuoted
  split <;> rfl

/-- Every text has one quoted form, in which the quotes in it are written twice, and this form is
read back as the text. With blanks around it, it is an expression of this text if a text or a value
of any kind is wanted: it evaluates to the text with its references replaced, and so to the text
itself if it opens no brace. If a number or a truth value is wanted, it is refused as a text. -/
theorem quoted_texts_read_back (s before after : List Char)
    (hbefore : ∀ c ∈ before, isBlank c = true) (hafter : ∀ c ∈ after, isBlank c = true) :
    quote s = '"' :: s.flatMap (fun c => if c = '"' then ['"', '"'] else [c]) ++ ['"'] ∧
    (∀ t, unquote? t = some s ↔ t = quote s) ∧
    ∀ (reader : Reader) (target : Ty),
      (target = .text ∨ target = .any →
        ∃ e, reader.parse (String.ofList (before ++ quote s ++ after)) target = .ok e ∧
          ∀ (evaluator : Evaluator) (root : Nat) (state : State),
            (evaluator.eval ⟨root, e⟩).runIn state =
              (.ok [.text (String.ofList (evaluator.context.scope.interpolate s))], state) ∧
            ('\x7b' ∉ s →
              (evaluator.eval ⟨root, e⟩).runIn state = (.ok [.text (String.ofList s)], state))) ∧
      (target = .number ∨ target = .boolean →
        reader.parse (String.ofList (before ++ quote s ++ after)) target =
            .error (.incompatible (.values .text true)) ∧
          (Yield.values .text true).describe = "text") := by
  refine ⟨by rw [quote, doubleQuotes_eq_flatMap], fun t => unquote?_eq_some_iff, ?_⟩
  intro reader target
  have hparse : reader.parse (String.ofList (before ++ quote s ++ after)) target =
      (Expr.ofQuoted (String.ofList s)).coerce target := by
    rw [Reader.parse, String.toList_ofList, Form.read_quote hbefore hafter, Reader.type_text]
  rw [hparse]
  refine ⟨?_, ?_⟩
  · intro htarget
    have hkept : (Expr.ofQuoted (String.ofList s)).coerce target =
        .ok (Expr.ofQuoted (String.ofList s)) := by
      rcases htarget with rfl | rfl
      · exact Expr.coerce_of_ty (Expr.ty_ofQuoted _)
      · exact Expr.coerce_any _
    refine ⟨_, hkept, fun evaluator root state => ?_⟩
    have hvalue := Expr.runIn_eval_ofQuoted (String.ofList s) evaluator root state
    rw [String.toList_ofList] at hvalue
    refine ⟨hvalue, fun hplain => ?_⟩
    rw [hvalue, Scope.interpolate_eq_self hplain]
  · intro htarget
    refine ⟨?_, rfl⟩
    unfold Expr.coerce
    rw [Expr.ty_ofQuoted, Expr.yield, Expr.ty_ofQuoted, Expr.single_ofQuoted]
    rcases htarget with rfl | rfl
    · rfl
    · rfl

/-- The text `"{x}" ` with its quotes and the blank at its end, quoted and with blanks around it. -/
theorem quoted_texts_read_back_blank :
    quote "\"\x7bx\x7d\" ".toList = "\"\"\"\x7bx\x7d\"\" \"".toList ∧
      ∃ e, (⟨"", fun _ => none⟩ : Reader).parse " \"\"\"\x7bx\x7d\"\" \"\n" .any = .ok e ∧
        ∀ root state,
          (Evaluator.eval { context := (Context.top 256).set "x" [.text "\"", .text "a"] }
            ⟨root, e⟩).runIn state = (.ok [.text "\"\" a\" "], state) := by
  obtain ⟨-, -, hread⟩ := quoted_texts_read_back "\"\x7bx\x7d\" ".toList [' '] ['\n']
    (List.forall_mem_singleton.mpr rfl) (List.forall_mem_singleton.mpr rfl)
  obtain ⟨e, hparse, hvalue⟩ := (hread ⟨"", fun _ => none⟩ .any).1 (.inr rfl)
  refine ⟨rfl, e, hparse, fun root state => (hvalue _ root state).1.trans ?_⟩
  have htext : ((Context.top 256).set "x" [.text "\"", .text "a"]).scope.interpolate
      "\"\x7bx\x7d\" ".toList = "\"\" a\" ".toList := by cbv
  rw [htext, String.ofList_toList]

end CallScript

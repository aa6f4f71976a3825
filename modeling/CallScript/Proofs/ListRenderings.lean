import CallScript.Builtin
import CallScript.Proofs.Grouping
import CallScript.Proofs.Lookups
import CallScript.Proofs.QuotedTexts

/-!
# Three ways to show a list

The values of a variable are put into one text in three ways: by a reference with the mark `::*`
in a quoted text, by one without it, and by the built-in function `join`. All three separate them by
a space. What has to be shown is that they are about the same variable, since each finds the end of
its name in a way of its own: reading searches for the bracket that closes the reference, replacing
counts braces only, and in front of `join` the argument list is split first.

Where `{name::*}` is read as a variable, its name has neither braces nor quotes
(`Form.eq_of_read_braces`), so replacing does not stop early. It keeps to itself, so splitting
leaves it whole (`Reader.isItem_of_parse`), and `join` is bound to all its values, as texts
(`Reader.bindArguments_join`). The rest is the evaluation of the call (`exists_derives_join`).
-/

namespace CallScript

open ArgumentList Text

/-! ## The name of a variable -/

theorem Reference.ofText_append_mark (s : List Char) :
    ofText (s ++ listMark) = ⟨String.ofList s, true⟩ := by
  rw [ofText, stripListMark?_append]

theorem Reference.ofText_unmarked {s : List Char} (h : ¬listMark <:+ s) :
    ofText s = ⟨String.ofList s, false⟩ := by
  rw [ofText, stripListMark?_eq_none h]

/-- What is between braces names the variable, and may be the name of one. -/
theorem Form.eq_of_read_braces {inner : List Char} {target : Reference}
    (h : read ('\x7b' :: inner ++ ['\x7d']) = .reference target) :
    target = Reference.ofText inner ∧ target.isWritable = true := by
  have htrim : trim ('\x7b' :: inner ++ ['\x7d']) = '\x7b' :: inner ++ ['\x7d'] := by
    rw [trim_concat (by decide)]
    rfl
  rw [read_eq, htrim, Outline.ofText_concat (.inr rfl), List.cons_append, Outline.ofBracketed,
    if_pos rfl, List.dropLast_concat] at h
  dsimp only at h
  by_cases hfits : (closesAtEnd ('\x7b' :: (inner ++ ['\x7d'])) &&
      (Reference.ofText inner).isWritable) = true
  · rw [if_pos hfits] at h
    cases h
    exact ⟨rfl, (Bool.and_eq_true_iff.mp hfits).2⟩
  · rw [if_neg hfits] at h
    cases h

/-- Only a reference is typed as one where every value is welcome. -/
theorem Reader.eq_of_type_reference {reader : Reader} {form : Form} {target : Reference}
    (h : reader.type .any form = .ok (.reference target)) : form = .reference target := by
  cases form with
  | reference r => cases h; rfl
  | unreadable | boolean | number => cases h
  | text content =>
    rw [type_text, Expr.coerce_any, Expr.ofQuoted] at h
    split at h <;> cases h
  | list items =>
    rw [type] at h
    cases hitems : reader.typeAll .any items with
    | error _ => rw [hitems] at h; cases h
    | ok es => rw [hitems] at h; cases h
  | call name arguments =>
    rw [type, typeCall] at h
    split at h
    · cases h
    · rw [if_neg fun hnothing => hnothing.2 rfl] at h
      cases h

section

variable {reader : Reader} {name : String} {target : Reference}
  (hread : reader.parse ("\x7b" ++ name ++ "::*\x7d") .any = .ok (.reference target))

include hread

theorem Form.read_list : read ("\x7b" ++ name ++ "::*\x7d").toList = .reference target :=
  Reader.eq_of_type_reference hread

/-- The reference is to all values of the variable, whose name has neither braces nor quotes. -/
theorem Reader.name_of_parse :
    target = ⟨name, true⟩ ∧ ∀ c ∈ name.toList, c ≠ '\x7b' ∧ c ≠ '\x7d' ∧ c ≠ '"' := by
  have hlist : ("\x7b" ++ name ++ "::*\x7d").toList =
      '\x7b' :: (name.toList ++ listMark) ++ ['\x7d'] := by
    simp [listMark]
  have hform := Form.read_list hread
  rw [hlist] at hform
  obtain ⟨htarget, hwritable⟩ := Form.eq_of_read_braces hform
  rw [Reference.ofText_append_mark, String.ofList_toList] at htarget
  subst htarget
  have hfree : name.toList ≠ [] ∧ ∀ c ∈ name.toList, c ≠ '\x7b' ∧ c ≠ '\x7d' ∧ c ≠ '"' := by
    simpa [Reference.isWritable, and_assoc] using hwritable
  exact ⟨rfl, hfree.2⟩

end

/-! ## What is shown -/

/-- A text without quotes keeps brackets outside quotes only. -/
theorem Text.quotedDepth_of_free {s : List Char} (h : '"' ∉ s) : quotedDepth s = 0 := by
  rw [quotedDepth]
  induction s with
  | nil => rfl
  | cons c s ih =>
    rw [List.mem_cons, not_or] at h
    rw [openBrackets, if_neg (Ne.symm h.1), if_neg Bool.false_ne_true, ih h.2, Int.zero_add]

/-- An expression without quotes is one item. -/
theorem Reader.isItem_of_parse {reader : Reader} {text : String} {target : Ty} {e : Expr}
    (h : reader.parse text target = .ok e) (hfree : '"' ∉ text.toList) : IsItem text.toList := by
  have henclosed := isEnclosed_of_parse h
  refine isItem_iff.mpr ⟨toList_ne_nil_of_parse h, ?_, henclosed.unnamed⟩
  intro p rest hp hquoted
  have hopen := henclosed.comma p rest hp hquoted
  have hp' : '"' ∉ p := fun hmem => hfree (hp ▸ List.mem_append_left _ hmem)
  rw [depth_eq hquoted, quotedDepth_of_free hp']
  omega

theorem Text.doubleQuotes_of_free {s : List Char} (h : '"' ∉ s) : doubleQuotes s = s := by
  induction s with
  | nil => rfl
  | cons c s ih =>
    rw [List.mem_cons, not_or] at h
    rw [doubleQuotes, if_neg (Ne.symm h.1), ih h.2]

/-- A text without quotes, put between quotes, is evaluated to the text with its references
replaced. -/
theorem Evaluator.runIn_evaluate_quoted (evaluator : Evaluator) {s : List Char} (h : '"' ∉ s)
    (state : State) :
    ((evaluator.evaluate (String.ofList ('"' :: s ++ ['"']))).runIn state).1 =
      .ok [.text (String.ofList (evaluator.context.scope.interpolate s))] := by
  have hform : Form.read ('"' :: s ++ ['"']) = .text (String.ofList s) := by
    have hquote := @Form.read_quote [] [] (fun _ h => absurd h List.not_mem_nil)
      (fun _ h => absurd h List.not_mem_nil) s
    rwa [quote, doubleQuotes_of_free h, List.nil_append, List.append_nil] at hquote
  have hparse : (evaluator.registry.reader evaluator.space).parse
      (String.ofList ('"' :: s ++ ['"'])) .any = .ok (Expr.ofQuoted (String.ofList s)) := by
    rw [Reader.parse, String.toList_ofList, hform, Reader.type_text, Expr.coerce_any]
  rw [evaluate, Attempt.runIn_bind_of_ok (runIn_read_of_ok hparse), Expr.runIn_eval_ofQuoted,
    String.toList_ofList]

/-- A text that is read as a reference is evaluated to the values it stands for. -/
theorem Evaluator.runIn_evaluate_reference (evaluator : Evaluator) {text : String}
    {target : Reference} (hread : (evaluator.registry.reader evaluator.space).parse text .any =
      .ok (.reference target)) {state : State} :
    ((evaluator.evaluate text).runIn state).1 =
      .ok (evaluator.context.scope.resolve target) := by
  rw [evaluate, Attempt.runIn_bind_of_ok (runIn_read_of_ok hread), eval, Host.eval,
    Attempt.runIn_pure]

/-- A quoted reference shows all values of the variable that it names, with the mark or without. -/
theorem Evaluator.runIn_evaluate_braces (evaluator : Evaluator) {inner : List Char}
    (h : ∀ c ∈ inner, c ≠ '\x7b' ∧ c ≠ '\x7d' ∧ c ≠ '"') (state : State) :
    ((evaluator.evaluate (String.ofList ('"' :: ('\x7b' :: inner ++ ['\x7d']) ++ ['"']))).runIn
      state).1 = .ok [.text (displayAll " "
        (evaluator.context.scope.get (Reference.ofText inner).name))] := by
  have hquote : '"' ∉ '\x7b' :: inner ++ ['\x7d'] := by
    have hinner : '"' ∉ inner := fun hmem => (h _ hmem).2.2 rfl
    simpa using hinner
  have hopen : '\x7b' ∉ inner := fun hmem => (h _ hmem).1 rfl
  have hclose : '\x7d' ∉ inner := fun hmem => (h _ hmem).2.1 rfl
  have hbalanced : IsBalanced inner := by
    refine ⟨fun p hp => ?_, by rw [List.count_eq_zero.mpr hclose, List.count_eq_zero.mpr hopen]⟩
    rw [List.count_eq_zero.mpr fun hmem => hclose (hp.subset hmem)]
    exact Nat.zero_le _
  rw [runIn_evaluate_quoted evaluator hquote, List.cons_append,
    Scope.interpolate_braces hbalanced, Scope.interpolate_eq_self hopen, String.ofList_toList]

/-! ## The call of `join` -/

/-- The built-in function as every standard evaluator has it. -/
def Function.standardJoin : Function := { Builtin.join with builtin := true }

/-- In every space the name `join` stands for the built-in function. -/
theorem Registry.lookup_join (space : String) :
    Registry.standard.lookup "join" space = some .standardJoin := by
  have hglobal : Registry.standard.get? "" "join" = some .standardJoin := rfl
  have hspaces : ∀ f ∈ Registry.standard.functions, f.signature.space = "" := by
    intro f hf
    have hmem : f.signature.space ∈ Registry.standard.functions.map fun g => g.signature.space :=
      List.mem_map_of_mem hf
    exact List.eq_of_mem_replicate (n := 9) hmem
  rw [lookup]
  split
  · next f hf =>
    obtain ⟨hnamed, hmem⟩ : isNamed space "join" f = true ∧ f ∈ Registry.standard.functions :=
      ⟨List.find?_some hf, List.mem_of_find?_eq_some hf⟩
    have hspace : f.signature.space = space := by
      simp only [isNamed, Bool.and_eq_true, decide_eq_true_eq] at hnamed
      exact hnamed.1
    rw [← hspace, hspaces f hmem, hglobal] at hf
    exact hf.symm
  · exact hglobal

section

variable {reader : Reader} {name : String} {target : Reference}
  (hread : reader.parse ("\x7b" ++ name ++ "::*\x7d") .any = .ok (.reference target))

include hread

/-- All values of the variable are bound to the parameter of `join` for them, as texts. -/
theorem Reader.bindArguments_join :
    bindArguments reader.parse Builtin.join.signature [⟨none, "\x7b" ++ name ++ "::*\x7d"⟩] =
      .ok [⟨⟨"values", .text, false, false⟩, .converted (.reference ⟨name, true⟩) .text⟩] := by
  obtain ⟨rfl, -⟩ := name_of_parse hread
  have hparse : reader.parse ("\x7b" ++ name ++ "::*\x7d") .text =
      .ok (.converted (.reference ⟨name, true⟩) .text) := by
    rw [parse, Form.read_list hread]
    rfl
  have hfit : fit reader.parse ⟨"values", .text, false, false⟩
      ⟨none, "\x7b" ++ name ++ "::*\x7d"⟩ =
        .ok (.converted (.reference ⟨name, true⟩) .text) := by
    rw [fit, hparse]
    rfl
  show (fit reader.parse ⟨"values", .text, false, false⟩ _).bind _ = _
  rw [hfit]
  rfl

/-- The call has the reference as its only argument, in all spellings of the name. -/
theorem Form.read_join :
    read ("join(\x7b" ++ name ++ "::*\x7d)").toList =
      .call "join" [⟨none, "\x7b" ++ name ++ "::*\x7d"⟩] := by
  obtain ⟨-, hname⟩ := Reader.name_of_parse hread
  obtain ⟨inner, hinner⟩ : ∃ inner, inner = ("\x7b" ++ name ++ "::*\x7d").toList := ⟨_, rfl⟩
  have hform : read inner = .reference target := hinner ▸ read_list hread
  have hquote : '"' ∉ inner := by
    have hfree : '"' ∉ name.toList := fun hmem => (hname _ hmem).2.2 rfl
    simpa [hinner] using hfree
  have hitem : IsItem inner := by
    rw [hinner] at hquote ⊢
    exact Reader.isItem_of_parse hread hquote
  have hcloses : closesAtEnd ('(' :: inner ++ [')']) = true := by
    refine Outline.closesAtEnd_parentheses fun hnone => ?_
    rw [read_eq, hnone] at hform
    cases hform
  have htrim : trim inner = inner := by
    have hends : inner = ('\x7b' :: name.toList ++ listMark) ++ ['\x7d'] := by
      simp [hinner, listMark]
    rw [hends, trim_concat (by decide)]
    rfl
  have hlist : ("join(\x7b" ++ name ++ "::*\x7d)").toList =
      "join".toList ++ '(' :: inner ++ [')'] := by
    simp [hinner]
  rw [hlist, read_call (by decide), if_pos hcloses, tokenize_of_isItem hitem, positional, htrim,
    hinner, String.ofList_toList, String.ofList_toList]

end

/-- Displaying values as texts shows them as they are. -/
theorem convertAll_text (values : List Value) :
    convertAll .text values = .ok (values.map fun v => .text v.display) := by
  induction values with
  | nil => rfl
  | cons v values ih =>
    rw [convertAll_cons, ih]
    rfl

section

variable {name : String} {target : Reference} {space : String}
  (hread : (Registry.standard.reader space).parse ("\x7b" ++ name ++ "::*\x7d") .any =
    .ok (.reference target))

include hread

/-- A call site that remembers nothing finds `join`, and binds all values of the variable. -/
theorem exists_prepare_join : ∃ bound,
    (({} : Pin).prepare Registry.standard space
        ⟨space, "join", [⟨none, "\x7b" ++ name ++ "::*\x7d"⟩]⟩).1 = .ok (.standardJoin, bound) ∧
      bound.1 =
        [⟨⟨"values", .text, false, false⟩, .converted (.reference ⟨name, true⟩) .text⟩] := by
  have hbind : bindArguments (Registry.standard.reader space).parse
      Function.standardJoin.signature [⟨none, "\x7b" ++ name ++ "::*\x7d"⟩] = .ok _ :=
    Reader.bindArguments_join hread
  exact ⟨_, Pin.prepare_eq_ok.mpr ⟨Registry.lookup_join space, Edition.bind_of_ok hbind⟩, rfl⟩

/-- The call of `join` on a variable ends with the text in which all its values are shown. -/
theorem exists_derives_join {room maxDepth : Nat} {scope : Scope} {place : Place} {state : State}
    (hunused : state.pins.get place = {}) :
    ∃ after, Derives Registry.standard maxDepth .free (.execute (room + 1) scope space place
        ⟨space, "join", [⟨none, "\x7b" ++ name ++ "::*\x7d"⟩]⟩) state
      (.ok (some (.single (.text (displayAll " " (scope.get name)))))) after := by
  obtain ⟨bound, hpure, hbound⟩ := exists_prepare_join hread
  rw [← hunused] at hpure
  obtain ⟨middle, hprepared, -⟩ := exists_runIn_prepare hpure
  obtain ⟨texts, htexts⟩ : ∃ texts, texts = (scope.get name).map fun v => Value.text v.display :=
    ⟨_, rfl⟩
  have hvalues : Derives Registry.standard maxDepth .free
      (.eval (room + 1) scope (place.child 0) (.converted (.reference ⟨name, true⟩) .text)) middle
      (.ok texts) middle := by
    have hreference := @Derives.reference Registry.standard maxDepth .free (room + 1) scope
      (place.child 0) ⟨name, true⟩ middle
    have hconverted := @Derives.converted _ _ _ _ _ _ _ .text _ _ _ hreference
    rwa [show scope.resolve ⟨name, true⟩ = scope.get name from rfl, Except.bind,
      convertAll_text, ← htexts] at hconverted
  have harguments : Derives Registry.standard maxDepth .free
      (.evalEach (room + 1) scope place 0 (bound.1.map Binding.expr)) middle (.ok [texts])
        middle := by
    rw [hbound]
    exact .evalCons hvalues .evalNil
  have hshown : displayAll " " texts = displayAll " " (scope.get name) := by
    rw [htexts, displayAll, List.map_map]
    rfl
  obtain ⟨after, hinvoked⟩ : ∃ after, Derives Registry.standard maxDepth .free
      (.invoke (room + 1) .standardJoin (Bundle.ofBindings bound.1 [texts])) middle
        (.ok [.text (displayAll " " (scope.get name))]) after := by
    rw [hbound, ← hshown]
    exact ⟨_, .invoked .done fun _ _ => trivial⟩
  exact ⟨after, .executed hprepared harguments trivial hinvoked⟩

end

/-- Evaluating the call of `join` on a variable. -/
theorem runIn_evaluate_join {space : String} {maxDepth : Nat} (hdepth : 1 ≤ maxDepth)
    (scope : Scope) {name : String} {target : Reference}
    (hread : (Registry.standard.reader space).parse ("\x7b" ++ name ++ "::*\x7d") .any =
      .ok (.reference target)) {state : State} (hsettled : state.Settled Registry.standard) :
    ((((Evaluator.standard space maxDepth).withScope scope).evaluate
      ("join(\x7b" ++ name ++ "::*\x7d)")).runIn state).1 =
        .ok [.text (displayAll " " (scope.get name))] := by
  obtain ⟨room, rfl⟩ : ∃ room, maxDepth = room + 1 := ⟨maxDepth - 1, by omega⟩
  have hparse : (Registry.standard.reader space).parse ("join(\x7b" ++ name ++ "::*\x7d)") .any =
      .ok (.call ⟨space, "join", [⟨none, "\x7b" ++ name ++ "::*\x7d"⟩]⟩ .text true) := by
    have hsignature : (Registry.standard.reader space).signature? "join" =
        some Builtin.join.signature := by
      show (Registry.standard.lookup "join" space).map Function.signature = _
      rw [Registry.lookup_join]
      rfl
    rw [Reader.parse, Form.read_join hread, Reader.type, Reader.typeCall, hsignature]
    rfl
  have hunused : state.pins.get ⟨state.nextRoot, []⟩ = {} := hsettled.unused _ (Nat.le_refl _)
  obtain ⟨after, hran⟩ := @exists_derives_join name target space hread room (room + 1) scope
    ⟨state.nextRoot, []⟩ { state with nextRoot := state.nextRoot + 1 } hunused
  have hcall := @Derives.call _ _ _ _ _ _ ⟨space, "join", _⟩ .text true _ _ _ hran
  rw [Evaluator.evaluate, Attempt.runIn_bind_of_ok (Evaluator.runIn_read_of_ok hparse)]
  exact congrArg Prod.fst hcall.runIn_eq

/-- Several functions may be registered that share expressions which were read before. -/
theorem State.Settled.registerAll {registry : Registry} {state : State}
    (h : state.Settled registry) {functions : List Function}
    (hfs : ∀ f ∈ functions, f.SharesBelow state.nextRoot) :
    state.Settled (functions.foldl Registry.register registry) := by
  induction functions generalizing registry with
  | nil => exact h
  | cons f functions ih =>
    obtain ⟨hf, hfs⟩ := List.forall_mem_cons.mp hfs
    exact ih (h.register hf) hfs

/-- Before anything was evaluated, the state of a standard evaluator is settled. -/
theorem State.settled_standard : State.Settled Registry.standard {} := by
  refine State.Settled.start.registerAll fun f hf x hx => ?_
  have hcount : f.sharedCount ∈ builtins.map Function.sharedCount := List.mem_map_of_mem hf
  have hzero : f.sharedCount = 0 := List.eq_of_mem_replicate (n := 9) hcount
  obtain ⟨i, hi, -⟩ := Vector.mem_iff_getElem.mp hx
  omega

/-- The standard evaluator shows the values of a variable alike in three ways, for every name with
which `{name::*}` is read as a variable, and whatever its values are: a quoted reference to all of
them, the call of `join` on them, and a quoted reference without the mark, if the name does not
itself end in it. All three give the displays of the values of `{name::*}`, which are those of the
variable, with one space between them.

If the name itself ends in the mark, a quoted reference without another one is about the variable
whose name is what stands before it. -/
theorem list_renderings_agree (space : String) (maxDepth : Nat) (hdepth : 1 ≤ maxDepth)
    (scope : Scope) (name : String) (target : Reference)
    (hread : (Registry.standard.reader space).parse ("\x7b" ++ name ++ "::*\x7d") .any =
      .ok (.reference target))
    (state : State) (hsettled : state.Settled Registry.standard) :
    let evaluator := (Evaluator.standard space maxDepth).withScope scope
    let values (text : String) := ((evaluator.evaluate text).runIn state).1
    let shown (name : String) := " ".intercalate ((scope.get name).map Value.display)
    values ("\x7b" ++ name ++ "::*\x7d") = .ok (scope.get name) ∧
    values ("\"\x7b" ++ name ++ "::*\x7d\"") = .ok [.text (shown name)] ∧
    values ("join(\x7b" ++ name ++ "::*\x7d)") = .ok [.text (shown name)] ∧
    (¬listMark <:+ name.toList →
      values ("\"\x7b" ++ name ++ "\x7d\"") = .ok [.text (shown name)]) ∧
    ∀ before, name.toList = before ++ listMark →
      values ("\"\x7b" ++ name ++ "\x7d\"") = .ok [.text (shown (String.ofList before))] := by
  intro evaluator values shown
  obtain ⟨rfl, hfree⟩ := Reader.name_of_parse hread
  have hmark : ∀ c ∈ listMark, c ≠ '\x7b' ∧ c ≠ '\x7d' ∧ c ≠ '"' := by simp [listMark]
  have hmarked := evaluator.runIn_evaluate_braces
    (List.forall_mem_append.mpr ⟨hfree, hmark⟩) state
  have hplain := evaluator.runIn_evaluate_braces hfree state
  have hwritten :
      String.ofList ('"' :: ('\x7b' :: (name.toList ++ listMark) ++ ['\x7d']) ++ ['"']) =
        "\"\x7b" ++ name ++ "::*\x7d\"" := by
    apply String.toList_inj.mp
    simp [listMark]
  have hwritten' : String.ofList ('"' :: ('\x7b' :: name.toList ++ ['\x7d']) ++ ['"']) =
      "\"\x7b" ++ name ++ "\x7d\"" := by
    apply String.toList_inj.mp
    simp
  rw [hwritten, Reference.ofText_append_mark, String.ofList_toList] at hmarked
  rw [hwritten'] at hplain
  refine ⟨?_, hmarked, runIn_evaluate_join hdepth scope hread hsettled, ?_, ?_⟩
  · exact evaluator.runIn_evaluate_reference hread
  · intro hends
    rw [Reference.ofText_unmarked hends, String.ofList_toList] at hplain
    exact hplain
  · intro before hends
    rw [hends, Reference.ofText_append_mark] at hplain
    exact hplain

/-- The name `a (b, c: d)`, with a text of two words and a truth value. -/
theorem list_renderings_agree_brackets :
    let scope := Scope.empty.set "a (b, c: d)" [.text "x y", .boolean true]
    let evaluator := (Evaluator.standard "" 1).withScope scope
    let values (text : String) := ((evaluator.evaluate text).runIn {}).1
    (Registry.standard.reader "").parse "\x7ba (b, c: d)::*\x7d" .any =
        .ok (.reference ⟨"a (b, c: d)", true⟩) ∧
      State.Settled Registry.standard {} ∧
      values "\x7ba (b, c: d)::*\x7d" = .ok [.text "x y", .boolean true] ∧
      values "\"\x7ba (b, c: d)::*\x7d\"" = .ok [.text "x y true"] ∧
      values "join(\x7ba (b, c: d)::*\x7d)" = .ok [.text "x y true"] ∧
      values "\"\x7ba (b, c: d)\x7d\"" = .ok [.text "x y true"] := by
  intro scope evaluator values
  have hread : (Registry.standard.reader "").parse "\x7ba (b, c: d)::*\x7d" .any =
      .ok (.reference ⟨"a (b, c: d)", true⟩) := by
    have houtline : Outline.ofText (trim "\x7ba (b, c: d)::*\x7d".toList) =
        .reference ⟨"a (b, c: d)", true⟩ := rfl
    rw [Reader.parse, Form.read_eq, houtline]
    rfl
  obtain ⟨hvalues, hquoted, hjoined, hplain, -⟩ := list_renderings_agree "" 1 (Nat.le_refl 1) scope
    "a (b, c: d)" _ hread {} State.settled_standard
  exact ⟨hread, State.settled_standard, hvalues, hquoted, hjoined, hplain (by decide)⟩

end CallScript

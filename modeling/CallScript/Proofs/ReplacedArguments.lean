import CallScript.Proofs.ArgumentSpelling
import CallScript.Proofs.Grammar
import CallScript.Proofs.Interpolation
import CallScript.Proofs.Preparation

/-!
# An argument that is written differently

If one argument of a call gets another text that fits its parameter, the other arguments do not
notice. What an argument claims depends on its name and on the parameters that are left, and not on
the texts before it. So the bindings are the same but for this one, and if they cannot be made it
is for the same reason (`Accepts.bindFrom_modify`); the call is prepared alike
(`Accepts.prepare_setText`).

A variable fits every parameter (`fit_reference`). It is written `{v}` where one value is wanted
and `{v::*}` where a list is. No type is known of it, so it is bound with a conversion unless every
value is welcome.
-/

namespace CallScript

/-! ## A variable as an argument -/

/-- How a variable is written as the argument for a parameter: its first value where one value is
wanted, and all of them where a list is. -/
def Parameter.reference (p : Parameter) (name : String) : String :=
  if p.single then "\x7b" ++ name ++ "\x7d" else "\x7b" ++ name ++ "::*\x7d"

/-- How it is read there: with a conversion, unless every value is welcome. -/
def Parameter.referenceExpr (p : Parameter) (name : String) : Expr :=
  if p.ty = .any then .reference ⟨name, !p.single⟩
  else .converted (.reference ⟨name, !p.single⟩) p.ty

/-- A text between braces is a reference if a variable may have the name. -/
theorem Outline.ofText_braces {inner : List Char}
    (h : ∀ c ∈ inner, c ∉ ['"', '(', ')', '\x7b', '\x7d'])
    (hwritable : (Reference.ofText inner).isWritable = true) :
    ofText ('\x7b' :: inner ++ ['\x7d']) = .reference (Reference.ofText inner) := by
  have hcloses : Text.closesAtEnd ('\x7b' :: (inner ++ ['\x7d'])) = true := by
    rw [Text.closesAtEnd, Text.closesFrom_opener (.inr rfl), Text.closesFrom_free h]
    rfl
  rw [ofText_concat (.inr rfl), List.cons_append]
  simp only [ofBracketed, if_pos, List.dropLast_concat, hcloses, hwritable, Bool.and_self]

theorem Form.read_braces {inner : List Char}
    (h : ∀ c ∈ inner, c ∉ ['"', '(', ')', '\x7b', '\x7d'])
    (hwritable : (Reference.ofText inner).isWritable = true) :
    read ('\x7b' :: inner ++ ['\x7d']) = .reference (Reference.ofText inner) := by
  have htrim : Text.trim ('\x7b' :: inner ++ ['\x7d']) = '\x7b' :: inner ++ ['\x7d'] := by
    rw [Text.trim_concat (by decide)]
    rfl
  rw [read_eq, htrim, Outline.ofText_braces h hwritable]

section

variable {name : String} (hname : Text.isIdentifier name.toList = true)

include hname

/-- The name of a variable has none of the characters that mean something between braces. -/
theorem Text.not_mem_of_isIdentifier {c : Char} (hc : c ∈ name.toList) :
    c ∉ ['"', '(', ')', '\x7b', '\x7d', ':', '*'] := by
  have hword := isWordChar_of_isIdentifier hname c hc
  intro hmem
  have hnone : ['"', '(', ')', '\x7b', '\x7d', ':', '*'].all (fun c => !isWordChar c) = true := rfl
  have hfalse := List.all_eq_true.mp hnone c hmem
  rw [hword] at hfalse
  cases hfalse

theorem Reference.isWritable_of_isIdentifier (all : Bool) :
    isWritable ⟨name, all⟩ = true := by
  have hne : name.toList ≠ [] := by
    intro hnil
    rw [hnil] at hname
    cases hname
  have hfree : ∀ c ∈ name.toList, c ≠ '\x7b' ∧ c ≠ '\x7d' ∧ c ≠ '"' := by
    intro c hc
    have hmem := Text.not_mem_of_isIdentifier hname hc
    simp only [List.mem_cons, not_or] at hmem
    exact ⟨hmem.2.2.2.1, hmem.2.2.2.2.1, hmem.1⟩
  simpa [isWritable, hne, and_assoc] using hfree

/-- A variable that is written as an argument is read as such, whatever the parameter is. -/
theorem Form.read_parameterReference (p : Parameter) :
    read (p.reference name).toList = .reference ⟨name, !p.single⟩ := by
  have hfree : ∀ c ∈ name.toList, c ∉ ['"', '(', ')', '\x7b', '\x7d'] := by
    intro c hc hmem
    apply Text.not_mem_of_isIdentifier hname hc
    exact List.mem_append_left [':', '*'] hmem
  unfold Parameter.reference
  cases p.single with
  | true =>
    have hofText : Reference.ofText name.toList = ⟨name, false⟩ := by
      rw [Reference.ofText, stripListMark?_eq_none, String.ofList_toList]
      intro hmark
      exact Text.not_mem_of_isIdentifier hname (hmark.subset (List.mem_of_getLast? rfl)) (by decide)
    have hread := read_braces hfree (hofText ▸ Reference.isWritable_of_isIdentifier hname false)
    rw [hofText] at hread
    simpa using hread
  | false =>
    have hofText : Reference.ofText (name.toList ++ listMark) = ⟨name, true⟩ := by
      simp only [Reference.ofText, stripListMark?_append, String.ofList_toList]
    have hmarked : ∀ c ∈ name.toList ++ listMark, c ∉ ['"', '(', ')', '\x7b', '\x7d'] := by
      intro c hc
      rcases List.mem_append.mp hc with hc | hc
      · exact hfree c hc
      · have hmark : c = ':' ∨ c = '*' := by simpa [listMark] using hc
        rcases hmark with rfl | rfl
        · decide
        · decide
    have hread := read_braces hmarked (hofText ▸ Reference.isWritable_of_isIdentifier hname true)
    rw [hofText] at hread
    simpa [listMark] using hread

/-- A variable may be the argument for a parameter, whatever its type is. -/
theorem fit_reference (reader : Reader) (p : Parameter) (argument : RawArgument) :
    fit reader.parse p { argument with text := p.reference name } = .ok (p.referenceExpr name) := by
  have hparse : reader.parse (p.reference name) p.ty = .ok (p.referenceExpr name) := by
    rw [Reader.parse, Form.read_parameterReference hname, Reader.type, Expr.coerce,
      Parameter.referenceExpr]
    by_cases hany : p.ty = .any
    · simp [hany, Ty.accepts]
    · have hty : Ty.any ≠ p.ty := fun h => hany h.symm
      simp [hany, hty, Ty.accepts, Expr.ty]
  have hsingle : (p.referenceExpr name).single = p.single := by
    unfold Parameter.referenceExpr
    split <;> simp [Expr.single]
  rw [fit, hparse]
  simp [hsingle]

end

theorem single_of_fit {parse : String → Ty → Except ParseFailure Expr} {p : Parameter}
    {argument : RawArgument} {e : Expr} (h : fit parse p argument = .ok e)
    (hsingle : p.single = true) : e.single = true := by
  unfold fit at h
  split at h
  · cases h
  · cases h
  · split at h
    · cases h
    · next hfits =>
      cases h
      simpa [hsingle] using hfits

/-! ## One argument is written differently -/

section

variable {parse : String → Ty → Except ParseFailure Expr} {pool : List Parameter}
  {arguments : List RawArgument} {i : Nat} {p : Parameter}

/-- Whether the argument at a position is bound to a parameter from a pool, once those before it
are: it claims the parameter, and its text fits. -/
inductive Accepts (parse : String → Ty → Except ParseFailure Expr) :
    List Parameter → List RawArgument → Nat → Parameter → Prop where
  | here {pool argument arguments p left e} (claims : claim pool argument = .ok (p, left))
      (fits : fit parse p argument = .ok e) : Accepts parse pool (argument :: arguments) 0 p
  | later {pool argument arguments q left e i p} (claims : claim pool argument = .ok (q, left))
      (fits : fit parse q argument = .ok e) (rest : Accepts parse left arguments i p) :
      Accepts parse pool (argument :: arguments) (i + 1) p

/-- The text of the argument fits. -/
theorem Accepts.exists_fit (h : Accepts parse pool arguments i p) {argument : RawArgument}
    (hi : arguments[i]? = some argument) : ∃ e, fit parse p argument = .ok e := by
  induction h with
  | here claims fits =>
    cases hi
    exact ⟨_, fits⟩
  | later _ _ _ ih => exact ih hi

/-- Where the argument is bound, it is bound to the parameter. -/
theorem Accepts.getElem?_bindFrom (h : Accepts parse pool arguments i p) {argument : RawArgument}
    (hi : arguments[i]? = some argument) {e : Expr} (hfit : fit parse p argument = .ok e)
    {bindings : List Binding} (hbind : bindFrom parse pool arguments = .ok bindings) :
    bindings[i]? = some ⟨p, e⟩ := by
  induction h generalizing bindings with
  | here claims fits =>
    cases hi
    obtain ⟨_, _, _, rest, hclaims, hfits, -, rfl⟩ := bindFrom_cons_eq_ok.mp hbind
    cases claims.symm.trans hclaims
    cases hfit.symm.trans hfits
    rfl
  | later claims _ _ ih =>
    obtain ⟨_, _, _, rest, hclaims, -, hrest, rfl⟩ := bindFrom_cons_eq_ok.mp hbind
    cases claims.symm.trans hclaims
    exact ih hi hfit hrest

/-- With another text that fits there, the arguments are bound as before, but for this one; and if
they cannot be bound, it is for the same reason. -/
theorem Accepts.bindFrom_modify (h : Accepts parse pool arguments i p) {argument : RawArgument}
    (hi : arguments[i]? = some argument) {text : String} {e : Expr}
    (hfit : fit parse p { argument with text } = .ok e) :
    bindFrom parse pool (arguments.modify i fun argument => { argument with text }) =
      (bindFrom parse pool arguments).map (·.set i ⟨p, e⟩) := by
  induction h with
  | @here pool _ arguments p left _ claims fits =>
    cases hi
    have hclaims : claim pool { argument with text } = .ok (p, left) := claims
    simp only [List.modify_zero_cons, bindFrom, claims, hclaims, fits, hfit, bind, Except.bind]
    cases bindFrom parse left arguments <;> rfl
  | @later pool _ arguments _ left _ i _ claims fits _ ih =>
    simp only [List.modify_succ_cons, bindFrom, claims, fits, ih hi hfit, bind, Except.bind]
    cases bindFrom parse left arguments <;> rfl

end

/-- The call with another text for one of its arguments. -/
def CallSite.setText (site : CallSite) (i : Nat) (text : String) : CallSite :=
  { site with arguments := site.arguments.modify i fun argument => { argument with text } }

section

variable {registry : Registry} {space : String} {site : CallSite} {f : Function}

theorem Pin.prepare_of_found (hfound : registry.lookup site.name site.space = some f) :
    (({} : Pin).prepare registry space site).1 =
      (Edition.bind ⟨f.signature, registry.reader space⟩ site).map (f, ·) := by
  rw [Pin.prepare, Option.none_or, hfound]
  dsimp only [Option.getD_none]
  cases Edition.bind ⟨f.signature, registry.reader space⟩ site <;> rfl

/-- A call is prepared as before with another text that fits, but for the binding of this text. -/
theorem Accepts.prepare_setText (hfound : registry.lookup site.name site.space = some f) {i : Nat}
    {p : Parameter}
    (h : Accepts (registry.reader space).parse f.signature.parameters site.arguments i p)
    {argument : RawArgument} (hi : site.arguments[i]? = some argument) {text : String} {e e' : Expr}
    (hfit : fit (registry.reader space).parse p argument = .ok e)
    (hfit' : fit (registry.reader space).parse p { argument with text } = .ok e') :
    (∀ cause, (({} : Pin).prepare registry space site).1 = .error cause →
      (({} : Pin).prepare registry space (site.setText i text)).1 = .error cause) ∧
    ∀ bound, (({} : Pin).prepare registry space site).1 = .ok (f, bound) →
      bound.1[i]? = some ⟨p, e⟩ ∧
      ∃ bound', (({} : Pin).prepare registry space (site.setText i text)).1 = .ok (f, bound') ∧
        bound'.1 = bound.1.set i ⟨p, e'⟩ := by
  have hfound' : registry.lookup (site.setText i text).name (site.setText i text).space = some f :=
    hfound
  have hbind : bindArguments (registry.reader space).parse f.signature
      (site.setText i text).arguments =
        (bindArguments (registry.reader space).parse f.signature site.arguments).map
          (·.set i ⟨p, e'⟩) := h.bindFrom_modify hi hfit'
  rw [Pin.prepare_of_found hfound, Pin.prepare_of_found hfound']
  cases hbound : bindArguments (registry.reader space).parse f.signature site.arguments with
  | error cause =>
    rw [hbound] at hbind
    rw [Edition.bind_of_error hbound, Edition.bind_of_error hbind]
    refine ⟨?_, fun _ h => by cases h⟩
    intro _ h
    cases h
    rfl
  | ok bindings =>
    rw [hbound] at hbind
    rw [Edition.bind_of_ok hbound, Edition.bind_of_ok hbind]
    refine ⟨fun _ h => (by cases h), ?_⟩
    intro bound hbound'
    cases hbound'
    exact ⟨h.getElem?_bindFrom hi hfit hbound, _, rfl, rfl⟩

end

end CallScript

import Mathlib.Data.List.Induction
import Mathlib.Data.List.Nodup
import CallScript.Binding

/-!
# Which parameter an argument gets

`bindArguments` takes parameters out of a pool that shrinks from argument to argument. This module
says what it does without a pool. The parameter that an argument *claims* (`claimAt`) depends on
the arguments before it only through what they claim: it is the one of its name, or else the first
declared one that none of them claims. From that,

* an argument *fits* (`Fits`) if it claims a parameter that is still unclaimed, its text reads as
  an expression of the type of that parameter, and this is no list where one value is wanted;
* it *fails* otherwise, and with which error is said by `Fails`;
* a declared parameter is *missing* (`missing?`) if it is required and no argument claims it.

Binding succeeds exactly if all arguments fit and nothing is missing, and it then gives what the
arguments fit; else it fails with the error of the first argument that does not, or, if there is
none, names the first missing parameter (`bindArguments_eq`).

The invariant behind it: after some arguments that fit, the pool is what they leave `unclaimed`, in
the order of declaration (`claim_unclaimed`). Names of parameters must differ, as declarations
promise, or else a name would not tell which parameter it takes out of the pool.
-/

namespace CallScript

section

variable (parse : String → Ty → Except ParseFailure Expr) (parameters : List Parameter)
  (arguments : List RawArgument)

/-- The parameter that the argument at a position claims: the one of its name, or for an argument
without a name the first one that no argument before it claims. -/
def claimAt (i : Nat) : Option Parameter :=
  match arguments[i]? with
  | none => none
  | some argument =>
    match argument.name with
    | some name => parameters.find? fun p => p.name = name
    | none => parameters.find? fun p =>
        (List.range i).attach.all fun j => claimAt j.1 ≠ some p
termination_by i
decreasing_by exact List.mem_range.mp j.2

/-- Whether no argument before a position claims a parameter. -/
def IsUnclaimed (i : Nat) (p : Parameter) : Prop :=
  ∀ j < i, claimAt parameters arguments j ≠ some p

instance (i : Nat) (p : Parameter) : Decidable (IsUnclaimed parameters arguments i p) :=
  inferInstanceAs (Decidable (∀ j < i, claimAt parameters arguments j ≠ some p))

/-- The argument at a position claims a parameter that no argument before it claims. -/
def Claims (i : Nat) (p : Parameter) : Prop :=
  claimAt parameters arguments i = some p ∧ IsUnclaimed parameters arguments i p

/-- The argument at a position can be bound, and to what. -/
def Fits (i : Nat) (binding : Binding) : Prop :=
  ∃ argument, arguments[i]? = some argument ∧ Claims parameters arguments i binding.parameter ∧
    parse argument.text binding.parameter.ty = .ok binding.expr ∧
    (binding.parameter.single = true → binding.expr.single = true)

/-- The argument at a position cannot be bound, and with what error. -/
inductive Fails (i : Nat) : BindError → Prop where
  /-- No parameter of its name is declared, or that one is claimed already. -/
  | unknown {argument : RawArgument} {name : String} (at_i : arguments[i]? = some argument)
      (named : argument.name = some name) (taken : ∀ p, ¬Claims parameters arguments i p) :
      Fails i (.unknownParameter name)
  /-- It has no name, and every declared parameter is claimed already. -/
  | tooMany {argument : RawArgument} (at_i : arguments[i]? = some argument)
      (unnamed : argument.name = none) (taken : ∀ p, ¬Claims parameters arguments i p) :
      Fails i .tooManyArguments
  /-- Its text is no expression. -/
  | unparsable {argument : RawArgument} {p : Parameter} (at_i : arguments[i]? = some argument)
      (claims : Claims parameters arguments i p)
      (refused : parse argument.text p.ty = .error .unparsable) :
      Fails i (.unparsable argument.text)
  /-- Its text is an expression of another type. -/
  | incompatible {argument : RawArgument} {p : Parameter} {got : Yield}
      (at_i : arguments[i]? = some argument) (claims : Claims parameters arguments i p)
      (refused : parse argument.text p.ty = .error (.incompatible got)) :
      Fails i (.typeMismatch p got)
  /-- Its text is a list where one value is wanted. -/
  | severalValues {argument : RawArgument} {p : Parameter} {e : Expr}
      (at_i : arguments[i]? = some argument) (claims : Claims parameters arguments i p)
      (parsed : parse argument.text p.ty = .ok e) (wanted : p.single = true)
      (got : e.single = false) : Fails i (.typeMismatch p (.values e.ty false))

/-- The first declared parameter that is required and that no argument claims. -/
def missing? : Option Parameter :=
  parameters.find? fun p => !p.optional && IsUnclaimed parameters arguments arguments.length p

/-- The parameters that no argument before a position claims, in the order of declaration. -/
def unclaimed (i : Nat) : List Parameter :=
  parameters.filter fun p => IsUnclaimed parameters arguments i p

end

variable {parse : String → Ty → Except ParseFailure Expr} {parameters : List Parameter}
  {arguments : List RawArgument}

theorem claimAt_of_name {i : Nat} {argument : RawArgument} {name : String}
    (hi : arguments[i]? = some argument) (hname : argument.name = some name) :
    claimAt parameters arguments i = parameters.find? fun p => p.name = name := by
  rw [claimAt, hi]
  simp only [hname]

theorem claimAt_of_no_name {i : Nat} {argument : RawArgument}
    (hi : arguments[i]? = some argument) (hname : argument.name = none) :
    claimAt parameters arguments i =
      parameters.find? fun p => IsUnclaimed parameters arguments i p := by
  rw [claimAt, hi]
  simp only [hname]
  congr 1
  funext p
  rw [Bool.eq_iff_iff, List.all_eq_true, decide_eq_true_eq]
  constructor
  · intro h j hj
    simpa using h ⟨j, List.mem_range.mpr hj⟩ (List.mem_attach ..)
  · intro h j _
    simpa using h j.1 (List.mem_range.mp j.2)

theorem mem_of_claimAt {i : Nat} {p : Parameter} (h : claimAt parameters arguments i = some p) :
    p ∈ parameters := by
  rw [claimAt] at h
  split at h
  · cases h
  · split at h <;> exact List.mem_of_find?_eq_some h

theorem isUnclaimed_succ {i : Nat} {p : Parameter} :
    IsUnclaimed parameters arguments (i + 1) p ↔
      IsUnclaimed parameters arguments i p ∧ claimAt parameters arguments i ≠ some p := by
  constructor
  · intro h
    exact ⟨fun j hj => h j (Nat.lt_succ_of_lt hj), h i (Nat.lt_succ_self i)⟩
  · rintro ⟨h, hi⟩ j hj
    rcases Nat.lt_succ_iff_lt_or_eq.mp hj with hj | rfl
    · exact h j hj
    · exact hi

/-- What is claimed leaves the pool, and nothing else does. -/
theorem unclaimed_succ {i : Nat} {p : Parameter} (h : claimAt parameters arguments i = some p) :
    unclaimed parameters arguments (i + 1) =
      (unclaimed parameters arguments i).filter fun q => q ≠ p := by
  rw [unclaimed, unclaimed, List.filter_filter]
  congr 1
  funext q
  rw [Bool.eq_iff_iff]
  simp only [decide_eq_true_eq, Bool.and_eq_true, isUnclaimed_succ, h, ne_eq, Option.some.injEq]
  rw [and_comm, eq_comm]

/-- Where names differ, taking out the first parameter of a name takes out all there are. -/
theorem eraseP_name {pool : List Parameter} {p : Parameter} (hp : p ∈ pool)
    (distinct : (pool.map Parameter.name).Nodup) :
    pool.eraseP (fun q => q.name = p.name) = pool.filter fun q => q ≠ p := by
  induction pool with
  | nil => rfl
  | cons q pool ih =>
    rw [List.map_cons, List.nodup_cons] at distinct
    rw [List.eraseP_cons, List.filter_cons]
    by_cases hq : q = p
    · subst hq
      have hrest : ∀ r ∈ pool, r ≠ q := by
        rintro r hr rfl
        exact distinct.1 (List.mem_map_of_mem hr)
      simp only [decide_true, cond_true, ne_eq, not_true_eq_false, decide_false,
        Bool.false_eq_true, if_false]
      exact (List.filter_eq_self.mpr fun r hr => by simpa using hrest r hr).symm
    · have hmem : p ∈ pool := (List.mem_cons.mp hp).resolve_left fun e => hq e.symm
      have hname : q.name ≠ p.name := fun e => distinct.1 (e ▸ List.mem_map_of_mem hmem)
      simp only [hname, decide_false, cond_false, ne_eq, hq, not_false_eq_true, decide_true,
        if_true, ih hmem distinct.2]

theorem mem_unclaimed {i : Nat} {p : Parameter} :
    p ∈ unclaimed parameters arguments i ↔
      p ∈ parameters ∧ IsUnclaimed parameters arguments i p := by
  rw [unclaimed, List.mem_filter, decide_eq_true_eq]

theorem nodup_unclaimed (distinct : (parameters.map Parameter.name).Nodup) (i : Nat) :
    ((unclaimed parameters arguments i).map Parameter.name).Nodup :=
  distinct.sublist (List.filter_sublist.map _)

theorem eq_of_name (distinct : (parameters.map Parameter.name).Nodup) {p q : Parameter}
    (hp : p ∈ parameters) (hq : q ∈ parameters) (hname : p.name = q.name) : p = q :=
  List.inj_on_of_nodup_map distinct hp hq hname

/-- An argument that claims an unclaimed parameter takes that one out of the pool. -/
theorem claim_unclaimed (distinct : (parameters.map Parameter.name).Nodup) {i : Nat}
    {argument : RawArgument} {p : Parameter} (hi : arguments[i]? = some argument)
    (h : Claims parameters arguments i p) :
    claim (unclaimed parameters arguments i) argument =
      .ok (p, unclaimed parameters arguments (i + 1)) := by
  obtain ⟨hclaim, hfree⟩ := h
  have hmem : p ∈ unclaimed parameters arguments i :=
    mem_unclaimed.mpr ⟨mem_of_claimAt hclaim, hfree⟩
  have hpool : ((unclaimed parameters arguments i).map Parameter.name).Nodup :=
    nodup_unclaimed distinct i
  rw [unclaimed_succ hclaim]
  unfold claim
  cases hname : argument.name with
  | some name =>
    -- The pool has one parameter of this name at most, so the search there finds `p` too.
    rw [claimAt_of_name hi hname] at hclaim
    have hp : p.name = name := by simpa using List.find?_some hclaim
    subst hp
    have hfind : (unclaimed parameters arguments i).find? (fun q => q.name = p.name) = some p := by
      cases hq : (unclaimed parameters arguments i).find? (fun q => q.name = p.name) with
      | none => exact absurd (List.find?_eq_none.mp hq p hmem) (by simp)
      | some q =>
        have hqp : q.name = p.name := by simpa using List.find?_some hq
        rw [eq_of_name hpool (List.mem_of_find?_eq_some hq) hmem hqp]
    simp only [hfind, eraseP_name hmem hpool]
  | none =>
    -- The first parameter that is left is the head of the pool.
    rw [claimAt_of_no_name hi hname, ← List.head?_filter, ← unclaimed] at hclaim
    obtain ⟨rest, hrest⟩ := List.head?_eq_some_iff.mp hclaim
    have hnotin : ∀ q ∈ rest, q ≠ p := by
      rintro q hq rfl
      rw [hrest] at hpool
      exact (List.nodup_cons.mp hpool).1 (List.mem_map_of_mem hq)
    rw [hrest]
    simp only [List.filter_cons, ne_eq, not_true_eq_false, decide_false, Bool.false_eq_true,
      if_false]
    rw [List.filter_eq_self.mpr fun q hq => by simpa using hnotin q hq]

/-- An argument that claims nothing unclaimed finds nothing in the pool. -/
theorem claim_of_not_claims (distinct : (parameters.map Parameter.name).Nodup) {i : Nat}
    {argument : RawArgument} (hi : arguments[i]? = some argument)
    (h : ∀ p, ¬Claims parameters arguments i p) :
    claim (unclaimed parameters arguments i) argument =
      match argument.name with
      | some name => .error (.unknownParameter name)
      | none => .error .tooManyArguments := by
  unfold claim
  cases hname : argument.name with
  | some name =>
    have hnone : (unclaimed parameters arguments i).find? (fun q => q.name = name) = none := by
      -- A parameter of this name in the pool would be declared, and so be claimed.
      refine List.find?_eq_none.mpr ?_
      intro q hq hqname
      obtain ⟨hmem, hfree⟩ := mem_unclaimed.mp hq
      have hqname : q.name = name := by simpa using hqname
      cases hp : parameters.find? (fun q => q.name = name) with
      | none => exact absurd (List.find?_eq_none.mp hp q hmem) (by simp [hqname])
      | some p =>
        have hpname : p.name = name := by simpa using List.find?_some hp
        obtain rfl := eq_of_name distinct (List.mem_of_find?_eq_some hp) hmem
          (hpname.trans hqname.symm)
        exact h p ⟨(claimAt_of_name hi hname).trans hp, hfree⟩
    simp only [hnone]
  | none =>
    cases hpool : unclaimed parameters arguments i with
    | nil => rfl
    | cons q rest =>
      have hq : q ∈ unclaimed parameters arguments i := by rw [hpool]; exact List.mem_cons_self ..
      refine absurd ⟨?_, (mem_unclaimed.mp hq).2⟩ (h q)
      rw [claimAt_of_no_name hi hname, ← List.head?_filter, ← unclaimed, hpool]
      rfl

/-! ## What one argument does -/

theorem Claims.unique {i : Nat} {p q : Parameter} (hp : Claims parameters arguments i p)
    (hq : Claims parameters arguments i q) : p = q := by
  have h := hp.1.symm.trans hq.1
  injection h

theorem fit_of_fits {i : Nat} {argument : RawArgument} {binding : Binding}
    (hi : arguments[i]? = some argument) (h : Fits parse parameters arguments i binding) :
    fit parse binding.parameter argument = .ok binding.expr := by
  obtain ⟨argument', hi', -, hparse, hsingle⟩ := h
  obtain rfl : argument = argument' := by rw [hi] at hi'; injection hi'
  simp only [fit, hparse]
  split
  · next hlist =>
    obtain ⟨hp, he⟩ := Bool.and_eq_true_iff.mp hlist
    rw [hsingle hp] at he
    exact absurd he (by simp)
  · rfl

/-- What happens at an argument that fits: it is bound, and the next one finds the rest. -/
theorem bindFrom_of_fits (distinct : (parameters.map Parameter.name).Nodup) {i : Nat}
    {binding : Binding} (h : Fits parse parameters arguments i binding) :
    bindFrom parse (unclaimed parameters arguments i) (arguments.drop i) =
      (bindFrom parse (unclaimed parameters arguments (i + 1)) (arguments.drop (i + 1))).map
        (binding :: ·) := by
  obtain ⟨argument, hi, hclaims, -, -⟩ := id h
  obtain ⟨hlt, hget⟩ := List.getElem?_eq_some_iff.mp hi
  rw [List.drop_eq_getElem_cons hlt, hget, bindFrom, claim_unclaimed distinct hi hclaims]
  simp only [bind, Except.bind, fit_of_fits hi h]
  cases bindFrom parse (unclaimed parameters arguments (i + 1)) (arguments.drop (i + 1)) <;> rfl

/-- What happens at an argument that fails: binding ends with its error. -/
theorem bindFrom_of_fails (distinct : (parameters.map Parameter.name).Nodup) {i : Nat}
    {error : BindError} (h : Fails parse parameters arguments i error) :
    bindFrom parse (unclaimed parameters arguments i) (arguments.drop i) = .error error := by
  have hcons {argument : RawArgument} (hi : arguments[i]? = some argument) :
      arguments.drop i = argument :: arguments.drop (i + 1) := by
    obtain ⟨hlt, hget⟩ := List.getElem?_eq_some_iff.mp hi
    rw [List.drop_eq_getElem_cons hlt, hget]
  have hunfit {argument : RawArgument} {p : Parameter} (hi : arguments[i]? = some argument)
      (hclaims : Claims parameters arguments i p) (hfit : fit parse p argument = .error error) :
      bindFrom parse (unclaimed parameters arguments i) (arguments.drop i) = .error error := by
    rw [hcons hi, bindFrom, claim_unclaimed distinct hi hclaims]
    simp only [bind, Except.bind, hfit]
  cases h with
  | unknown hi hname htaken =>
    rw [hcons hi, bindFrom, claim_of_not_claims distinct hi htaken, hname]
    rfl
  | tooMany hi hname htaken =>
    rw [hcons hi, bindFrom, claim_of_not_claims distinct hi htaken, hname]
    rfl
  | unparsable hi hclaims hparse => exact hunfit hi hclaims (by rw [fit, hparse])
  | incompatible hi hclaims hparse => exact hunfit hi hclaims (by rw [fit, hparse])
  | severalValues hi hclaims hparse hwanted hgot =>
    exact hunfit hi hclaims (by rw [fit, hparse]; simp [hwanted, hgot])

/-- Every argument fits or fails. -/
theorem fits_or_fails (parse : String → Ty → Except ParseFailure Expr)
    (parameters : List Parameter) {i : Nat} (hi : i < arguments.length) :
    (∃ binding, Fits parse parameters arguments i binding) ∨
      ∃ error, Fails parse parameters arguments i error := by
  have hat : arguments[i]? = some arguments[i] := List.getElem?_eq_getElem hi
  by_cases hclaims : ∃ p, Claims parameters arguments i p
  · obtain ⟨p, hclaims⟩ := hclaims
    cases hparse : parse arguments[i].text p.ty with
    | error failure =>
      cases failure with
      | unparsable => exact .inr ⟨_, .unparsable hat hclaims hparse⟩
      | incompatible got => exact .inr ⟨_, .incompatible hat hclaims hparse⟩
    | ok e =>
      by_cases hlist : p.single = true ∧ e.single = false
      · exact .inr ⟨_, .severalValues hat hclaims hparse hlist.1 hlist.2⟩
      · refine .inl ⟨⟨p, e⟩, _, hat, hclaims, hparse, ?_⟩
        intro hp
        simpa using fun he => hlist ⟨hp, he⟩
  · have htaken : ∀ p, ¬Claims parameters arguments i p := fun p hp => hclaims ⟨p, hp⟩
    cases hname : arguments[i].name with
    | some name => exact .inr ⟨_, .unknown hat hname htaken⟩
    | none => exact .inr ⟨_, .tooMany hat hname htaken⟩

theorem not_fails_of_fits {i : Nat} {binding : Binding} {error : BindError}
    (h : Fits parse parameters arguments i binding) :
    ¬Fails parse parameters arguments i error := by
  obtain ⟨argument, hi, hclaims, hparse, hsingle⟩ := h
  -- A claim can only fail by its text, and the text of this one reads as `binding.expr`.
  have hsame {argument' : RawArgument} {p : Parameter} (hi' : arguments[i]? = some argument')
      (hclaims' : Claims parameters arguments i p) :
      parse argument'.text p.ty = .ok binding.expr ∧ p = binding.parameter := by
    obtain rfl : argument = argument' := by rw [hi] at hi'; injection hi'
    obtain rfl := hclaims'.unique hclaims
    exact ⟨hparse, rfl⟩
  intro hfails
  cases hfails with
  | unknown hi' hname htaken => exact htaken _ hclaims
  | tooMany hi' hname htaken => exact htaken _ hclaims
  | unparsable hi' hclaims' hrefused =>
    rw [(hsame hi' hclaims').1] at hrefused
    cases hrefused
  | incompatible hi' hclaims' hrefused =>
    rw [(hsame hi' hclaims').1] at hrefused
    cases hrefused
  | severalValues hi' hclaims' hparse' hwanted hgot =>
    obtain ⟨hparsed, rfl⟩ := hsame hi' hclaims'
    rw [hparsed] at hparse'
    cases hparse'
    rw [hsingle hwanted] at hgot
    exact absurd hgot (by simp)

/-! ## What all arguments do -/

/-- As long as arguments fit, binding goes on with what they leave unclaimed. -/
theorem bindFrom_eq_map (distinct : (parameters.map Parameter.name).Nodup)
    {bindings : List Binding}
    (h : ∀ i binding, bindings[i]? = some binding → Fits parse parameters arguments i binding) :
    bindFrom parse parameters arguments =
      (bindFrom parse (unclaimed parameters arguments bindings.length)
        (arguments.drop bindings.length)).map (bindings ++ ·) := by
  -- By induction on how many arguments were bound, the last one of them last.
  induction bindings using List.reverseRecOn with
  | nil =>
    have hall : unclaimed parameters arguments 0 = parameters :=
      List.filter_eq_self.mpr fun p _ => by simp [IsUnclaimed]
    rw [List.length_nil, hall, List.drop_zero]
    cases bindFrom parse parameters arguments <;> rfl
  | append_singleton bindings binding ih =>
    have hlast : Fits parse parameters arguments bindings.length binding :=
      h bindings.length binding (by simp)
    rw [ih fun i b hb => h i b (by
        obtain ⟨hlt, -⟩ := List.getElem?_eq_some_iff.mp hb
        rwa [List.getElem?_append_left hlt]),
      bindFrom_of_fits distinct hlast, List.length_append, List.length_singleton]
    cases bindFrom parse (unclaimed parameters arguments (bindings.length + 1))
      (arguments.drop (bindings.length + 1)) <;> simp [Except.map]

/-- If all arguments fit, binding ends with what they fit, or with the first missing parameter. -/
theorem bindFrom_of_all_fit (distinct : (parameters.map Parameter.name).Nodup)
    {bindings : List Binding} (hlength : bindings.length = arguments.length)
    (h : ∀ i binding, bindings[i]? = some binding → Fits parse parameters arguments i binding) :
    bindFrom parse parameters arguments =
      match missing? parameters arguments with
      | some p => .error (.missingRequired p.name)
      | none => .ok bindings := by
  have hfind : (unclaimed parameters arguments arguments.length).find? (fun p => !p.optional) =
      missing? parameters arguments := by
    rw [unclaimed, List.find?_filter, missing?]
    congr 1
    funext p
    rw [Bool.eq_iff_iff]
    simp [and_comm]
  rw [bindFrom_eq_map distinct h, hlength, List.drop_length, bindFrom, hfind]
  cases missing? parameters arguments with
  | some p => rfl
  | none => simp [Except.map]

/-- Either some arguments fit and the next one fails, or all of them fit. -/
theorem exists_fits (parse : String → Ty → Except ParseFailure Expr)
    (parameters : List Parameter) (n : Nat) (hn : n ≤ arguments.length) :
    ∃ bindings : List Binding,
      (∀ i binding, bindings[i]? = some binding → Fits parse parameters arguments i binding) ∧
      (bindings.length = n ∨ bindings.length < n ∧
        ∃ error, Fails parse parameters arguments bindings.length error) := by
  induction n with
  | zero => exact ⟨[], by simp, .inl rfl⟩
  | succ n ih =>
    obtain ⟨bindings, hfits, hlength | ⟨hlt, hfails⟩⟩ := ih (Nat.le_of_succ_le hn)
    · rcases fits_or_fails parse parameters hn with
        ⟨binding, hbinding⟩ | hfails
      · refine ⟨bindings ++ [binding], ?_, .inl (by simp [hlength])⟩
        intro i b hb
        rw [List.getElem?_append] at hb
        split at hb
        · exact hfits i b hb
        · next hlt =>
          rw [List.getElem?_singleton] at hb
          split at hb
          · obtain rfl : i = n := by omega
            obtain rfl : binding = b := by injection hb
            exact hbinding
          · cases hb
      · exact ⟨bindings, hfits, .inr ⟨hlength ▸ Nat.lt_succ_self _, hlength ▸ hfails⟩⟩
    · exact ⟨bindings, hfits, .inr ⟨Nat.lt_succ_of_lt hlt, hfails⟩⟩

/-- No parameter is bound twice. -/
theorem nodup_of_fits (distinct : (parameters.map Parameter.name).Nodup)
    {bindings : List Binding}
    (h : ∀ i binding, bindings[i]? = some binding → Fits parse parameters arguments i binding) :
    (bindings.map fun b => b.parameter.name).Nodup := by
  rw [List.nodup_iff_pairwise_ne, List.pairwise_map, List.pairwise_iff_getElem]
  intro i j hi hj hij hname
  obtain ⟨-, -, hclaims, -, -⟩ := h i _ (List.getElem?_eq_getElem hi)
  obtain ⟨-, -, hclaims', -, -⟩ := h j _ (List.getElem?_eq_getElem hj)
  have hsame := eq_of_name distinct (mem_of_claimAt hclaims.1) (mem_of_claimAt hclaims'.1) hname
  exact hclaims'.2 i hij (hclaims.1.trans (congrArg some hsame))

/-- The bindings that some arguments fit, as a list. -/
theorem exists_bindings {n : Nat} (hn : n ≤ arguments.length)
    (h : ∀ i < n, ∃ binding, Fits parse parameters arguments i binding) :
    ∃ bindings : List Binding, bindings.length = n ∧
      ∀ i binding, bindings[i]? = some binding → Fits parse parameters arguments i binding := by
  obtain ⟨bindings, hfits, hlength | ⟨hlt, _, hfails⟩⟩ := exists_fits parse parameters n hn
  · exact ⟨bindings, hlength, hfits⟩
  · obtain ⟨binding, hbinding⟩ := h bindings.length hlt
    exact absurd hfails (not_fails_of_fits hbinding)

theorem lt_length_of_fails {i : Nat} {error : BindError}
    (h : Fails parse parameters arguments i error) : i < arguments.length := by
  have hsome : ∃ argument, arguments[i]? = some argument := by
    cases h with
    | unknown hi | tooMany hi | unparsable hi | incompatible hi | severalValues hi =>
      exact ⟨_, hi⟩
  obtain ⟨argument, hi⟩ := hsome
  exact (List.getElem?_eq_some_iff.mp hi).1

theorem bindFrom_eq_ok_iff (distinct : (parameters.map Parameter.name).Nodup)
    {bindings : List Binding} :
    bindFrom parse parameters arguments = .ok bindings ↔
      bindings.length = arguments.length ∧
      (∀ i binding, bindings[i]? = some binding → Fits parse parameters arguments i binding) ∧
      missing? parameters arguments = none := by
  constructor
  · intro h
    obtain ⟨found, hfits, hlength | ⟨-, error, hfails⟩⟩ := exists_fits parse parameters
      arguments.length (Nat.le_refl _)
    · rw [bindFrom_of_all_fit distinct hlength hfits] at h
      cases hmissing : missing? parameters arguments with
      | some p => rw [hmissing] at h; cases h
      | none =>
        rw [hmissing] at h
        cases h
        exact ⟨hlength, hfits, rfl⟩
    · rw [bindFrom_eq_map distinct hfits, bindFrom_of_fails distinct hfails] at h
      cases h
  · rintro ⟨hlength, hfits, hmissing⟩
    rw [bindFrom_of_all_fit distinct hlength hfits, hmissing]

theorem bindFrom_eq_error_iff (distinct : (parameters.map Parameter.name).Nodup)
    {error : BindError} :
    bindFrom parse parameters arguments = .error error ↔
      (∃ i, Fails parse parameters arguments i error ∧
        ∀ j < i, ∃ binding, Fits parse parameters arguments j binding) ∨
      (∀ i < arguments.length, ∃ binding, Fits parse parameters arguments i binding) ∧
        ∃ p, missing? parameters arguments = some p ∧ error = .missingRequired p.name := by
  constructor
  · intro h
    obtain ⟨found, hfits, hend⟩ := exists_fits parse parameters
      arguments.length (Nat.le_refl _)
    have hfit : ∀ i < found.length, ∃ binding, Fits parse parameters arguments i binding :=
      fun i hi => ⟨found[i], hfits i _ (List.getElem?_eq_getElem hi)⟩
    rcases hend with hlength | ⟨-, failure, hfails⟩
    · rw [bindFrom_of_all_fit distinct hlength hfits] at h
      cases hmissing : missing? parameters arguments with
      | some p =>
        rw [hmissing] at h
        cases h
        exact .inr ⟨hlength ▸ hfit, p, rfl, rfl⟩
      | none => rw [hmissing] at h; cases h
    · rw [bindFrom_eq_map distinct hfits, bindFrom_of_fails distinct hfails] at h
      cases h
      exact .inl ⟨found.length, hfails, hfit⟩
  · rintro (⟨i, hfails, hbefore⟩ | ⟨hall, p, hmissing, rfl⟩)
    · have hle := Nat.le_of_lt (lt_length_of_fails hfails)
      obtain ⟨found, rfl, hfits⟩ := exists_bindings hle hbefore
      rw [bindFrom_eq_map distinct hfits, bindFrom_of_fails distinct hfails]
      rfl
    · obtain ⟨found, hlength, hfits⟩ := exists_bindings (Nat.le_refl _) hall
      rw [bindFrom_of_all_fit distinct hlength hfits, hmissing]

theorem missing?_eq_none_iff :
    missing? parameters arguments = none ↔ ∀ p ∈ parameters,
      IsUnclaimed parameters arguments arguments.length p → p.optional = true := by
  rw [missing?, List.find?_eq_none]
  apply forall₂_congr
  intro p _
  simp only [Bool.and_eq_true, decide_eq_true_eq, Bool.not_eq_true', not_and]
  constructor
  · intro h hfree
    by_contra hp
    exact h (by simpa using hp) hfree
  · intro h hp hfree
    rw [h hfree] at hp
    exact absurd hp (by simp)

/-- A required parameter that is not missing is bound. -/
theorem mem_of_required {bindings : List Binding} (hlength : bindings.length = arguments.length)
    (hfits : ∀ i binding, bindings[i]? = some binding →
      Fits parse parameters arguments i binding)
    (hmissing : missing? parameters arguments = none) {p : Parameter} (hp : p ∈ parameters)
    (hrequired : p.optional = false) : p ∈ bindings.map Binding.parameter := by
  have hclaimed : ¬IsUnclaimed parameters arguments arguments.length p := fun hfree => by
    rw [missing?_eq_none_iff.mp hmissing p hp hfree] at hrequired
    exact absurd hrequired (by simp)
  simp only [IsUnclaimed, not_forall, not_not] at hclaimed
  obtain ⟨i, hi, hclaim⟩ := hclaimed
  have hat : bindings[i]? = some bindings[i] := List.getElem?_eq_getElem (hlength ▸ hi)
  obtain ⟨-, -, hclaims, -, -⟩ := hfits i _ hat
  have hsame : bindings[i].parameter = p := by
    have hboth := hclaims.1.symm.trans hclaim
    injection hboth
  exact List.mem_map.mpr ⟨bindings[i], List.getElem_mem _, hsame⟩

/-- Binding succeeds exactly if every argument fits and every parameter that no argument claims is
optional. It then binds, in the order of the arguments, what each of them fits; no parameter twice
and every required one. It fails with the error of the first argument that fails, or, if there is
none, with the first required parameter that no argument claims. -/
theorem bindArguments_eq (parse : String → Ty → Except ParseFailure Expr) (signature : Signature)
    (arguments : List RawArgument)
    (distinct : (signature.parameters.map Parameter.name).Nodup) :
    ((∃ bindings, bindArguments parse signature arguments = .ok bindings) ↔
      (∀ i < arguments.length, ∃ binding, Fits parse signature.parameters arguments i binding) ∧
      ∀ p ∈ signature.parameters,
        IsUnclaimed signature.parameters arguments arguments.length p → p.optional = true) ∧
    (∀ bindings, bindArguments parse signature arguments = .ok bindings →
      bindings.length = arguments.length ∧
      (∀ i binding, bindings[i]? = some binding →
        Fits parse signature.parameters arguments i binding) ∧
      (bindings.map fun b => b.parameter.name).Nodup ∧
      ∀ p ∈ signature.parameters, p.optional = false → p ∈ bindings.map Binding.parameter) ∧
    (∀ error, bindArguments parse signature arguments = .error error ↔
      (∃ i, Fails parse signature.parameters arguments i error ∧
        ∀ j < i, ∃ binding, Fits parse signature.parameters arguments j binding) ∨
      (∀ i < arguments.length, ∃ binding, Fits parse signature.parameters arguments i binding) ∧
        ∃ p, missing? signature.parameters arguments = some p ∧
          error = .missingRequired p.name) := by
  refine ⟨⟨?_, ?_⟩, ?_, fun error => bindFrom_eq_error_iff distinct⟩
  · rintro ⟨bindings, h⟩
    obtain ⟨hlength, hfits, hmissing⟩ := (bindFrom_eq_ok_iff distinct).mp h
    refine ⟨?_, missing?_eq_none_iff.mp hmissing⟩
    intro i hi
    have hlt : i < bindings.length := hlength ▸ hi
    exact ⟨bindings[i], hfits i _ (List.getElem?_eq_getElem hlt)⟩
  · rintro ⟨hall, hoptional⟩
    obtain ⟨bindings, hlength, hfits⟩ := exists_bindings (Nat.le_refl _) hall
    exact ⟨bindings, (bindFrom_eq_ok_iff distinct).mpr
      ⟨hlength, hfits, missing?_eq_none_iff.mpr hoptional⟩⟩
  · intro bindings h
    obtain ⟨hlength, hfits, hmissing⟩ := (bindFrom_eq_ok_iff distinct).mp h
    exact ⟨hlength, hfits, nodup_of_fits distinct hfits,
      fun p hp hrequired => mem_of_required hlength hfits hmissing hp hrequired⟩

/-- Two arguments where the second one gets the parameter that the first one leaves. -/
theorem fits_second_after_named :
    ([⟨"a", .text, true, false⟩, ⟨"b", .text, true, false⟩].map Parameter.name).Nodup ∧
    bindArguments (fun text _ => .ok (.literal (.text text)))
        ⟨"", "f", [⟨"a", .text, true, false⟩, ⟨"b", .text, true, false⟩], none, true⟩
        [⟨some "a", "x"⟩, ⟨none, "y"⟩] =
      .ok [⟨⟨"a", .text, true, false⟩, .literal (.text "x")⟩,
        ⟨⟨"b", .text, true, false⟩, .literal (.text "y")⟩] ∧
    Fits (fun text _ => .ok (.literal (.text text)))
      [⟨"a", .text, true, false⟩, ⟨"b", .text, true, false⟩]
      [⟨some "a", "x"⟩, ⟨none, "y"⟩] 1 ⟨⟨"b", .text, true, false⟩, .literal (.text "y")⟩ := by
  have distinct :
      ([⟨"a", .text, true, false⟩, ⟨"b", .text, true, false⟩].map Parameter.name).Nodup := by decide
  refine ⟨distinct, rfl, ?_⟩
  have hbound := (bindArguments_eq (fun text _ => .ok (.literal (.text text)))
    ⟨"", "f", [⟨"a", .text, true, false⟩, ⟨"b", .text, true, false⟩], none, true⟩
    [⟨some "a", "x"⟩, ⟨none, "y"⟩] distinct).2.1 _ rfl
  exact hbound.2.1 1 _ rfl

end CallScript

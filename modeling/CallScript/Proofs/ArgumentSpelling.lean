import Mathlib.Data.List.Perm.Basic
import CallScript.Proofs.Pool

/-!
# How arguments are written

A parameter can be given by its name or by its place, and named arguments can stand in any order.
Once the arguments are bound, nothing of that is left:

* `bindFrom_of_spellsOut`: where binding succeeds, arguments without a name can be written with
  the name of the parameter they were bound to, all of them or some, and the bindings are the same
  ones in the same order. An argument without a name takes the head of the pool, and the head of
  the pool is also the first parameter of its own name, so this needs no assumption on the
  signature.
* `exists_bindFrom_of_perm`: arguments that all have a name can be permuted, and the bindings are
  permuted with them. Here names of parameters must differ: of two parameters of one name, the
  first argument of that name gets the one that is declared first.

A named argument takes its parameter out of the middle of the pool, so the pools of a list and of
its permutation differ after every argument; they agree again where the same parameters are
gone. With differing names, what is left is a `filter` (`claim_name_eq_ok_iff`), and filters
commute.

Failing binds are not compared: which error is reported does depend on the order.
-/

namespace CallScript

variable {parse : String → Ty → Except ParseFailure Expr} {pool : List Parameter}
  {arguments arguments' : List RawArgument} {bindings bindings' : List Binding}

/-- The expression bound to a parameter, by the name of the parameter. -/
def boundTo? (bindings : List Binding) (name : String) : Option Expr :=
  (bindings.find? fun b => b.parameter.name = name).map Binding.expr

/-- The second list of arguments is the first one with names written out: some of its arguments
without a name have the name of the parameter that the binding in their place is of. -/
inductive SpellsOut : List Binding → List RawArgument → List RawArgument → Prop where
  | done : SpellsOut [] [] []
  /-- An argument stays as it is, with or without a name. -/
  | kept {binding : Binding} {bindings : List Binding} {argument : RawArgument}
      {arguments arguments' : List RawArgument} (rest : SpellsOut bindings arguments arguments') :
      SpellsOut (binding :: bindings) (argument :: arguments) (argument :: arguments')
  /-- An argument without a name gets the one of its parameter. -/
  | named {binding : Binding} {bindings : List Binding} {text : String}
      {arguments arguments' : List RawArgument} (rest : SpellsOut bindings arguments arguments') :
      SpellsOut (binding :: bindings) (⟨none, text⟩ :: arguments)
        (⟨some binding.parameter.name, text⟩ :: arguments')

/-! ## One argument -/

/-- Binding succeeds at the first argument and then at the others, in what that one leaves. -/
theorem bindFrom_cons_eq_ok {argument : RawArgument} :
    bindFrom parse pool (argument :: arguments) = .ok bindings ↔
      ∃ p left e rest, claim pool argument = .ok (p, left) ∧ fit parse p argument = .ok e ∧
        bindFrom parse left arguments = .ok rest ∧ bindings = ⟨p, e⟩ :: rest := by
  rw [bindFrom]
  constructor
  · intro h
    cases hclaim : claim pool argument with
    | error error => rw [hclaim] at h; cases h
    | ok claimed =>
      obtain ⟨p, left⟩ := claimed
      rw [hclaim] at h
      cases hfit : fit parse p argument with
      | error error => simp only [bind, Except.bind, hfit] at h; cases h
      | ok e =>
        cases hrest : bindFrom parse left arguments with
        | error error => simp only [bind, Except.bind, hfit, hrest] at h; cases h
        | ok rest =>
          simp only [bind, Except.bind, hfit, hrest] at h
          cases h
          exact ⟨p, left, e, rest, rfl, hfit, hrest, rfl⟩
  · rintro ⟨p, left, e, rest, hclaim, hfit, hrest, rfl⟩
    simp only [hclaim, hfit, hrest, bind, Except.bind]

/-- The head of the pool is what an argument without a name claims, and it is the first one of
its own name. -/
theorem claim_of_claim_no_name {text : String} {p : Parameter} {left : List Parameter}
    (h : claim pool ⟨none, text⟩ = .ok (p, left)) :
    claim pool ⟨some p.name, text⟩ = .ok (p, left) := by
  cases pool with
  | nil => cases h
  | cons q pool =>
    cases h
    simp [claim]

/-- By its name, an argument claims the only parameter of that name, and leaves the others in
their order. -/
theorem claim_name_eq_ok_iff (distinct : (pool.map Parameter.name).Nodup) {name text : String}
    {p : Parameter} {left : List Parameter} :
    claim pool ⟨some name, text⟩ = .ok (p, left) ↔
      p ∈ pool ∧ p.name = name ∧ left = pool.filter fun q => q ≠ p := by
  simp only [claim]
  constructor
  · intro h
    cases hfind : pool.find? (fun q => q.name = name) with
    | none => rw [hfind] at h; cases h
    | some found =>
      have hmem : found ∈ pool := List.mem_of_find?_eq_some hfind
      obtain rfl : found.name = name := by simpa using List.find?_some hfind
      rw [hfind] at h
      cases h
      exact ⟨hmem, rfl, eraseP_name hmem distinct⟩
  · rintro ⟨hmem, rfl, rfl⟩
    have hfind : pool.find? (fun q => q.name = p.name) = some p := by
      cases hfound : pool.find? (fun q => q.name = p.name) with
      | none => exact absurd (List.find?_eq_none.mp hfound p hmem) (by simp)
      | some q =>
        have hname : q.name = p.name := by simpa using List.find?_some hfound
        rw [eq_of_name distinct (List.mem_of_find?_eq_some hfound) hmem hname]
    rw [hfind]
    simp only [eraseP_name hmem distinct]

/-- What a claim leaves still has differing names. -/
theorem nodup_of_claim (distinct : (pool.map Parameter.name).Nodup) {argument : RawArgument}
    {p : Parameter} {left : List Parameter} (h : claim pool argument = .ok (p, left)) :
    (left.map Parameter.name).Nodup := by
  obtain ⟨name, text⟩ := argument
  have hleft : left.Sublist pool := by
    cases name with
    | some name =>
      obtain ⟨-, -, rfl⟩ := (claim_name_eq_ok_iff distinct).mp h
      exact List.filter_sublist
    | none =>
      cases pool with
      | nil => cases h
      | cons q pool =>
        cases h
        exact List.sublist_cons_self ..
  exact distinct.sublist (hleft.map _)

/-- Two named arguments can be claimed in the other order: they claim the same parameters and
leave the same ones. -/
theorem claim_swap (distinct : (pool.map Parameter.name).Nodup) {n m text text' : String}
    {p q : Parameter} {left left' : List Parameter}
    (hfirst : claim pool ⟨some n, text⟩ = .ok (p, left))
    (hsecond : claim left ⟨some m, text'⟩ = .ok (q, left')) :
    ∃ between, claim pool ⟨some m, text'⟩ = .ok (q, between) ∧
      claim between ⟨some n, text⟩ = .ok (p, left') := by
  have hleft := nodup_of_claim distinct hfirst
  obtain ⟨hp, hn, rfl⟩ := (claim_name_eq_ok_iff distinct).mp hfirst
  obtain ⟨hq, hm, rfl⟩ := (claim_name_eq_ok_iff hleft).mp hsecond
  rw [List.mem_filter, decide_eq_true_eq] at hq
  have hclaim : claim pool ⟨some m, text'⟩ = .ok (q, pool.filter fun r => r ≠ q) :=
    (claim_name_eq_ok_iff distinct).mpr ⟨hq.1, hm, rfl⟩
  refine ⟨_, hclaim, (claim_name_eq_ok_iff (nodup_of_claim distinct hclaim)).mpr ⟨?_, hn, ?_⟩⟩
  · rw [List.mem_filter, decide_eq_true_eq]
    exact ⟨hp, fun hpq => hq.2 hpq.symm⟩
  · rw [List.filter_filter, List.filter_filter]
    refine List.filter_congr fun r _ => ?_
    rw [Bool.and_comm]

/-! ## All arguments -/

/-- Writing out names changes nothing about what is bound. -/
theorem bindFrom_of_spellsOut (hspell : SpellsOut bindings arguments arguments')
    (h : bindFrom parse pool arguments = .ok bindings) :
    bindFrom parse pool arguments' = .ok bindings := by
  induction hspell generalizing pool with
  | done => exact h
  | kept _ ih =>
    obtain ⟨p, left, e, rest, hclaim, hfit, hrest, hbindings⟩ := bindFrom_cons_eq_ok.mp h
    obtain ⟨rfl, rfl⟩ := List.cons.inj hbindings
    exact bindFrom_cons_eq_ok.mpr ⟨p, left, e, _, hclaim, hfit, ih hrest, rfl⟩
  | named _ ih =>
    obtain ⟨p, left, e, rest, hclaim, hfit, hrest, hbindings⟩ := bindFrom_cons_eq_ok.mp h
    obtain ⟨rfl, rfl⟩ := List.cons.inj hbindings
    -- The name is that of the claimed parameter, and the text is the same, so it fits as well.
    exact bindFrom_cons_eq_ok.mpr
      ⟨p, left, e, _, claim_of_claim_no_name hclaim, hfit, ih hrest, rfl⟩

/-- Named arguments in another order are bound to the same, in that order. -/
theorem exists_bindFrom_of_perm (hperm : arguments.Perm arguments')
    (distinct : (pool.map Parameter.name).Nodup)
    (named : ∀ argument ∈ arguments, argument.name.isSome)
    (h : bindFrom parse pool arguments = .ok bindings) :
    ∃ bindings', bindFrom parse pool arguments' = .ok bindings' ∧ bindings'.Perm bindings := by
  induction hperm generalizing pool bindings with
  | nil => exact ⟨bindings, h, .refl _⟩
  | cons argument _ ih =>
    obtain ⟨p, left, e, rest, hclaim, hfit, hrest, rfl⟩ := bindFrom_cons_eq_ok.mp h
    obtain ⟨rest', hrest', hperm⟩ := ih (nodup_of_claim distinct hclaim)
      (fun a ha => named a (List.mem_cons_of_mem _ ha)) hrest
    exact ⟨⟨p, e⟩ :: rest', bindFrom_cons_eq_ok.mpr ⟨p, left, e, rest', hclaim, hfit, hrest', rfl⟩,
      hperm.cons _⟩
  | swap second first others =>
    -- The two that change places claim their parameters one after the other, and then the rest
    -- goes on in the same pool.
    obtain ⟨p, left, e, rest, hp, hfit, hrest, rfl⟩ := bindFrom_cons_eq_ok.mp h
    obtain ⟨q, left', e', rest', hq, hfit', hrest', rfl⟩ := bindFrom_cons_eq_ok.mp hrest
    obtain ⟨n, hn⟩ := Option.isSome_iff_exists.mp (named first (by simp))
    obtain ⟨m, hm⟩ := Option.isSome_iff_exists.mp (named second (by simp))
    obtain ⟨_, text⟩ := first
    obtain ⟨_, text'⟩ := second
    obtain rfl : _ = some n := hn
    obtain rfl : _ = some m := hm
    obtain ⟨between, hq', hp'⟩ := claim_swap distinct hp hq
    have hothers := bindFrom_cons_eq_ok.mpr ⟨p, left', e, rest', hp', hfit, hrest', rfl⟩
    exact ⟨⟨q, e'⟩ :: ⟨p, e⟩ :: rest',
      bindFrom_cons_eq_ok.mpr ⟨q, between, e', _, hq', hfit', hothers, rfl⟩, .swap ..⟩
  | trans hfirst _ ih ih' =>
    obtain ⟨between, hbetween, hperm⟩ := ih distinct named h
    obtain ⟨bindings', h', hperm'⟩ := ih' distinct
      (fun a ha => named a (hfirst.mem_iff.mpr ha)) hbetween
    exact ⟨bindings', h', hperm'.trans hperm⟩

/-- Where parameters differ in their names, the name of a binding finds that binding. -/
theorem boundTo?_of_mem (hnodup : (bindings.map fun b => b.parameter.name).Nodup) {b : Binding}
    (hb : b ∈ bindings) : boundTo? bindings b.parameter.name = some b.expr := by
  unfold boundTo?
  cases hfound : bindings.find? (fun c => c.parameter.name = b.parameter.name) with
  | none => exact absurd (List.find?_eq_none.mp hfound b hb) (by simp)
  | some c =>
    have hname : c.parameter.name = b.parameter.name := by simpa using List.find?_some hfound
    rw [List.inj_on_of_nodup_map hnodup (List.mem_of_find?_eq_some hfound) hb hname]
    rfl

/-- A name that finds nothing is the name of no binding. -/
theorem boundTo?_eq_none_iff {name : String} :
    boundTo? bindings name = none ↔ ∀ b ∈ bindings, b.parameter.name ≠ name := by
  simp [boundTo?]

/-- In permuted bindings of differing parameters, a name finds the same expression. -/
theorem boundTo?_of_perm (hperm : bindings'.Perm bindings)
    (hnodup : (bindings.map fun b => b.parameter.name).Nodup) (name : String) :
    boundTo? bindings' name = boundTo? bindings name := by
  by_cases hname : ∃ b ∈ bindings, b.parameter.name = name
  · obtain ⟨b, hb, rfl⟩ := hname
    have hnodup' := (hperm.map fun b : Binding => b.parameter.name).nodup_iff.mpr hnodup
    rw [boundTo?_of_mem hnodup hb, boundTo?_of_mem hnodup' (hperm.mem_iff.mpr hb)]
  · have hnone : ∀ b ∈ bindings, b.parameter.name ≠ name := fun b hb h => hname ⟨b, hb, h⟩
    rw [boundTo?_eq_none_iff.mpr hnone,
      boundTo?_eq_none_iff.mpr fun b hb => hnone b (hperm.mem_iff.mp hb)]

/-- How arguments are written does not matter once they are bound. Arguments without a name can be
written with the name of the parameter they were bound to, all of them or some: the bindings are
the same. And named arguments can stand in any order: one order can be bound if the other can, to
the same expressions, so every parameter has the same expression. -/
theorem bindArguments_spelling (parse : String → Ty → Except ParseFailure Expr)
    (signature : Signature) (distinct : (signature.parameters.map Parameter.name).Nodup) :
    (∀ arguments arguments' bindings,
      bindArguments parse signature arguments = .ok bindings →
      SpellsOut bindings arguments arguments' →
      bindArguments parse signature arguments' = .ok bindings) ∧
    (∀ arguments arguments' : List RawArgument,
      (∀ argument ∈ arguments, argument.name.isSome) → arguments.Perm arguments' →
      ((∃ bindings, bindArguments parse signature arguments = .ok bindings) ↔
        ∃ bindings', bindArguments parse signature arguments' = .ok bindings') ∧
      ∀ bindings bindings', bindArguments parse signature arguments = .ok bindings →
        bindArguments parse signature arguments' = .ok bindings' →
        bindings'.Perm bindings ∧
          ∀ name, boundTo? bindings' name = boundTo? bindings name) := by
  refine ⟨fun arguments arguments' bindings h hspell => bindFrom_of_spellsOut hspell h, ?_⟩
  intro arguments arguments' hnamed hperm
  have hnamed' : ∀ argument ∈ arguments', argument.name.isSome :=
    fun a ha => hnamed a (hperm.mem_iff.mpr ha)
  refine ⟨⟨?_, ?_⟩, ?_⟩
  · rintro ⟨bindings, h⟩
    obtain ⟨bindings', h', -⟩ := exists_bindFrom_of_perm hperm distinct hnamed h
    exact ⟨bindings', h'⟩
  · rintro ⟨bindings', h'⟩
    obtain ⟨bindings, h, -⟩ := exists_bindFrom_of_perm hperm.symm distinct hnamed' h'
    exact ⟨bindings, h⟩
  · intro bindings bindings' h h'
    obtain ⟨found, hfound, hbindings⟩ := exists_bindFrom_of_perm hperm distinct hnamed h
    obtain rfl : found = bindings' := Except.ok.inj (hfound.symm.trans h')
    have hnodup : (bindings.map fun b => b.parameter.name).Nodup :=
      nodup_of_fits distinct ((bindFrom_eq_ok_iff distinct).mp h).2.1
    exact ⟨hbindings, boundTo?_of_perm hbindings hnodup⟩

/-- A call of two parameters, with the second one first: its other argument can be named, and then
the two can change places. -/
theorem bindArguments_second_first :
    ([⟨"a", .text, true, false⟩, ⟨"b", .text, true, false⟩].map Parameter.name).Nodup ∧
    ∃ bindings bindings' : List Binding,
      bindArguments (fun text _ => .ok (.literal (.text text)))
          ⟨"", "f", [⟨"a", .text, true, false⟩, ⟨"b", .text, true, false⟩], none, true⟩
          [⟨some "b", "y"⟩, ⟨none, "x"⟩] = .ok bindings ∧
      bindArguments (fun text _ => .ok (.literal (.text text)))
          ⟨"", "f", [⟨"a", .text, true, false⟩, ⟨"b", .text, true, false⟩], none, true⟩
          [⟨some "b", "y"⟩, ⟨some "a", "x"⟩] = .ok bindings ∧
      bindArguments (fun text _ => .ok (.literal (.text text)))
          ⟨"", "f", [⟨"a", .text, true, false⟩, ⟨"b", .text, true, false⟩], none, true⟩
          [⟨some "a", "x"⟩, ⟨some "b", "y"⟩] = .ok bindings' ∧
      bindings'.Perm bindings ∧ boundTo? bindings' "a" = boundTo? bindings "a" ∧
      boundTo? bindings "a" = some (.literal (.text "x")) := by
  have distinct :
      ([⟨"a", .text, true, false⟩, ⟨"b", .text, true, false⟩].map Parameter.name).Nodup := by decide
  obtain ⟨hspelling, hperm⟩ := bindArguments_spelling (fun text _ => .ok (.literal (.text text)))
    ⟨"", "f", [⟨"a", .text, true, false⟩, ⟨"b", .text, true, false⟩], none, true⟩ distinct
  have hnamed := hspelling [⟨some "b", "y"⟩, ⟨none, "x"⟩] _ _ rfl (.kept (.named .done))
  obtain ⟨hbindings, hlookup⟩ := (hperm [⟨some "b", "y"⟩, ⟨some "a", "x"⟩]
    [⟨some "a", "x"⟩, ⟨some "b", "y"⟩] (by decide) (.swap ..)).2 _ _ hnamed rfl
  exact ⟨distinct, _, _, rfl, hnamed, rfl, hbindings, hlookup "a", rfl⟩

end CallScript

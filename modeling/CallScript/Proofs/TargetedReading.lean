import CallScript.Proofs.ConversionFailures
import CallScript.Proofs.Determinism

/-!
# Reading for a type is reading and converting

A text can be read where a value of a particular type is wanted, or where every value is welcome.
The two expressions differ in their conversions: where a type is wanted, one is written around each
part of a list that is not known to be of this type, and where none is wanted there are no
conversions at all. This module says that it comes to the same: the first expression ends with what
the second one does, all of it converted to the wanted type (`Session.targeted_reading`).

What reading has to do with it is a relation between two expressions (`Expr.Aims`): they have the
same leaves, and of a leaf that is not converted it is known that its values are of the type already
(`Expr.IsKnown`). So the second expression says how the first was read, and the rest is about two
evaluations. They go through the same leaves in the same order. A leaf ends alike on both sides
(`Derives.ends_alike`), and so its conversions are those of its values (`Expr.Aims.convertsTo`). But
the two may fail at different leaves: a conversion that fails ends the first evaluation at once,
while the second goes on. Therefore nothing is said here of how they fail, only of when they do.

All this is asked of deterministic functions, since the two evaluations run the same functions on
the same arguments, but not at the same moment; and of honest ones, since a call is not converted if
its function declares the wanted type.
-/

namespace CallScript

/-! ## The two readings of a text -/

/-- Whether all values of a leaf are known to be of a type before it runs: it is written as one, or
it calls a function that declares the type. -/
def Expr.IsKnown (registry : Registry) (target : Ty) : Expr → Prop
  | .literal value => value.ty = target
  | .template _ => target = .text
  | .call site _ _ => ∀ f, registry.lookup site.name site.space = some f → f.signature.ty = target
  | _ => False

/-- Whether the first expression says how a text is read where every value is welcome, and the
second how it is read where a value of type `target` is wanted. -/
inductive Expr.Aims (registry : Registry) (target : Ty) : Expr → Expr → Prop where
  | kept {e} (known : target = .any ∨ e.IsKnown registry target) : Aims registry target e e
  | converted {e} : Aims registry target e (.converted e target)
  | list {items items' : List Expr} {ty ty'} (length : items'.length = items.length)
      (parts : ∀ (i : Nat) (item item' : Expr), items[i]? = some item → items'[i]? = some item' →
        Aims registry target item item') :
      Aims registry target (.list items ty) (.list items' ty')

theorem Expr.Aims.single_eq {registry : Registry} {target : Ty} {plain aimed : Expr}
    (h : plain.Aims registry target aimed) : plain.single = aimed.single := by
  cases h <;> rfl

/-- Every expression may stand where every value is welcome, and no conversion is written there. -/
theorem Expr.coerce_any (e : Expr) : e.coerce .any = .ok e := rfl

theorem Expr.coerce_of_ty {target : Ty} {e : Expr} (h : e.ty = target) :
    e.coerce target = .ok e := by
  simp [coerce, Ty.accepts, h]

/-- Where a conversion is not written the expression is of the wanted type. -/
theorem Expr.aims_of_coerce {registry : Registry} {target : Ty} {e aimed : Expr}
    (h : e.coerce target = .ok aimed) (hknown : e.ty = target → e.IsKnown registry target) :
    e.Aims registry target aimed := by
  unfold coerce at h
  split at h
  · split at h
    · next hkept =>
      cases h
      refine .kept ?_
      simp only [Bool.or_eq_true, decide_eq_true_eq] at hkept
      exact hkept.imp_right hknown
    · cases h
      exact .converted
  · cases h

namespace Reader

variable {registry : Registry} {space : String} {target : Ty}

theorem aims_of_typeCall {name : String} {arguments : List RawArgument} {aimed : Expr}
    (h : (registry.reader space).typeCall target name arguments = .ok aimed) :
    ∃ plain, (registry.reader space).typeCall .any name arguments = .ok plain ∧
      plain.Aims registry target aimed := by
  have declared {f : Function} (hf : registry.lookup name space = some f) :
      (registry.reader space).signature? name = some f.signature :=
    Option.map_eq_some_iff.mpr ⟨f, hf, rfl⟩
  unfold typeCall at h ⊢
  split at h
  · next hnone =>
    -- There is no function to be found.
    refine ⟨_, Expr.coerce_any _, Expr.aims_of_coerce h fun _ f hf => ?_⟩
    rw [declared hf] at hnone
    cases hnone
  · next signature hsignature =>
    split at h
    · cases h
    · have hfree : ¬(signature.returns = none ∧ Ty.any ≠ Ty.any) := fun h => h.2 rfl
      refine ⟨_, if_neg hfree, Expr.aims_of_coerce h fun hty f hf => ?_⟩
      rw [declared hf] at hsignature
      cases hsignature
      exact hty

mutual

/-- A text that is read where a particular type is wanted is read where none is wanted. -/
theorem aims_of_type (htarget : target ≠ .any) {form : Form} {aimed : Expr}
    (h : (registry.reader space).type target form = .ok aimed) :
    ∃ plain, (registry.reader space).type .any form = .ok plain ∧
      plain.Aims registry target aimed := by
  cases form with
  | unreadable => simp [type] at h
  | text content =>
    simp only [type] at h ⊢
    split at h
    · next hrefers => exact ⟨_, if_pos hrefers, Expr.aims_of_coerce h fun hty => hty.symm⟩
    · next hplain => exact ⟨_, if_neg hplain, Expr.aims_of_coerce h id⟩
  | boolean _ | number _ =>
    simp only [type] at h ⊢
    exact ⟨_, Expr.coerce_any _, Expr.aims_of_coerce h id⟩
  | reference _ =>
    simp only [type] at h ⊢
    exact ⟨_, Expr.coerce_any _, Expr.aims_of_coerce h fun hty => absurd hty.symm htarget⟩
  | list items =>
    simp only [type] at h ⊢
    obtain ⟨aimed', haimed, h⟩ := exists_of_bind_eq_ok h
    obtain ⟨plains, hplains, hlength, hparts⟩ := aims_of_typeAll htarget haimed
    have hlist : (Expr.list aimed' target).coerce target = .ok (.list aimed' target) :=
      Expr.coerce_of_ty rfl
    rw [commonTy_of_typeAll haimed htarget, hlist] at h
    cases h
    rw [hplains]
    exact ⟨_, Expr.coerce_any _, .list hlength hparts⟩
  | call name arguments =>
    simp only [type] at h ⊢
    exact aims_of_typeCall h

theorem aims_of_typeAll (htarget : target ≠ .any) {forms : List Form} {aimed : List Expr}
    (h : (registry.reader space).typeAll target forms = .ok aimed) :
    ∃ plain, (registry.reader space).typeAll .any forms = .ok plain ∧
      aimed.length = plain.length ∧
      ∀ (i : Nat) (e e' : Expr), plain[i]? = some e → aimed[i]? = some e' →
        e.Aims registry target e' := by
  cases forms with
  | nil =>
    simp only [typeAll, Except.ok.injEq] at h
    subst h
    exact ⟨[], rfl, rfl, fun i e e' he => by simp at he⟩
  | cons form forms =>
    simp only [typeAll] at h ⊢
    obtain ⟨first', hfirst', h⟩ := exists_of_bind_eq_ok h
    obtain ⟨rest', hrest', h⟩ := exists_of_bind_eq_ok h
    cases h
    obtain ⟨first, hfirst, hhead⟩ := aims_of_type htarget hfirst'
    obtain ⟨rest, hrest, hlength, htail⟩ := aims_of_typeAll htarget hrest'
    rw [hfirst, hrest]
    refine ⟨first :: rest, rfl, by rw [List.length_cons, List.length_cons, hlength], ?_⟩
    intro i e e' he he'
    cases i with
    | zero =>
      cases he
      cases he'
      exact hhead
    | succ i => exact htail i e e' he he'

end

/-! ## Texts that cannot be read -/

theorem typeCall_any_ne_error {r : Reader} {name : String} {arguments : List RawArgument}
    {failure : ParseFailure} : r.typeCall .any name arguments ≠ .error failure := by
  intro h
  unfold typeCall at h
  split at h
  · cases h
  · split at h
    · next hnothing => exact hnothing.2 rfl
    · cases h

mutual

/-- Where every value is welcome, a text is refused only because it is no expression. -/
theorem eq_unparsable_of_type {r : Reader} {form : Form} {failure : ParseFailure}
    (h : r.type .any form = .error failure) : failure = .unparsable := by
  cases form with
  | unreadable =>
    simp only [type] at h
    cases h
    rfl
  | text content =>
    simp only [type] at h
    split at h <;> cases h
  | boolean _ | number _ | reference _ =>
    simp only [type] at h
    cases h
  | list items =>
    simp only [type] at h
    rcases error_of_bind_eq_error h with h | ⟨es, -, h⟩
    · exact eq_unparsable_of_typeAll h
    · cases h
  | call name arguments =>
    simp only [type] at h
    exact absurd h typeCall_any_ne_error

theorem eq_unparsable_of_typeAll {r : Reader} {forms : List Form} {failure : ParseFailure}
    (h : r.typeAll .any forms = .error failure) : failure = .unparsable := by
  cases forms with
  | nil =>
    simp only [typeAll] at h
    cases h
  | cons form forms =>
    simp only [typeAll] at h
    rcases error_of_bind_eq_error h with h | ⟨first, -, h⟩
    · exact eq_unparsable_of_type h
    · rcases error_of_bind_eq_error h with h | ⟨rest, -, h⟩
      · exact eq_unparsable_of_typeAll h
      · cases h

end

theorem coerce_ne_unparsable {target : Ty} {e : Expr} : e.coerce target ≠ .error .unparsable := by
  unfold Expr.coerce
  split
  · split <;> exact fun h => by cases h
  · exact fun h => by cases h

mutual

/-- A text that is no expression where a particular type is wanted is none anywhere. -/
theorem unparsable_of_type (htarget : target ≠ .any) {form : Form}
    (h : (registry.reader space).type target form = .error .unparsable) :
    (registry.reader space).type .any form = .error .unparsable := by
  cases form with
  | unreadable => simp only [type]
  | text content =>
    simp only [type] at h
    split at h <;> exact absurd h coerce_ne_unparsable
  | boolean _ | number _ | reference _ =>
    simp only [type] at h
    exact absurd h coerce_ne_unparsable
  | list items =>
    simp only [type] at h ⊢
    rcases error_of_bind_eq_error h with h | ⟨es, -, h⟩
    · rw [unparsable_of_typeAll htarget h]
      rfl
    · exact absurd h coerce_ne_unparsable
  | call name arguments =>
    simp only [type, typeCall] at h
    split at h
    · exact absurd h coerce_ne_unparsable
    · split at h
      · cases h
      · exact absurd h coerce_ne_unparsable

theorem unparsable_of_typeAll (htarget : target ≠ .any) {forms : List Form}
    (h : (registry.reader space).typeAll target forms = .error .unparsable) :
    (registry.reader space).typeAll .any forms = .error .unparsable := by
  cases forms with
  | nil =>
    simp only [typeAll] at h
    cases h
  | cons form forms =>
    simp only [typeAll] at h ⊢
    rcases error_of_bind_eq_error h with h | ⟨first', hfirst', h⟩
    · rw [unparsable_of_type htarget h]
      rfl
    · -- What comes before the text at fault can be read in both ways.
      obtain ⟨first, hfirst, -⟩ := aims_of_type htarget hfirst'
      rw [hfirst]
      rcases error_of_bind_eq_error h with h | ⟨rest, -, h⟩
      · show (do let items ← (registry.reader space).typeAll .any forms; _) = _
        rw [unparsable_of_typeAll htarget h]
        rfl
      · cases h

end

/-- How a text is read where every value is welcome, by how it is read where one of a type is
wanted. -/
theorem parse_any (text : String) (target : Ty) :
    (∀ aimed, (registry.reader space).parse text target = .ok aimed →
      ∃ plain, (registry.reader space).parse text .any = .ok plain ∧
        plain.Aims registry target aimed) ∧
    ((registry.reader space).parse text target = .error .unparsable →
      (registry.reader space).parse text .any = .error .unparsable) := by
  by_cases htarget : target = .any
  · subst htarget
    exact ⟨fun aimed h => ⟨aimed, h, .kept (.inl rfl)⟩, id⟩
  · exact ⟨fun _ => aims_of_type htarget, unparsable_of_type htarget⟩

end Reader

/-! ## Values that are converted -/

/-- Whether values are those of a list, each converted to a type. -/
def ConvertTo (target : Ty) : List Value → List Value → Prop :=
  List.Forall₂ fun u v => u.convert? target = some v

theorem convertAll_eq_ok_iff {target : Ty} {us vs : List Value} :
    convertAll target us = .ok vs ↔ ConvertTo target us vs := by
  induction us generalizing vs with
  | nil =>
    rw [ConvertTo, List.forall₂_nil_left_iff]
    constructor
    · rintro ⟨⟩
      rfl
    · rintro rfl
      rfl
  | cons u us ih =>
    rw [convertAll_cons, ConvertTo, List.forall₂_cons_left_iff]
    constructor
    · intro h
      split at h
      · next w hw =>
        obtain ⟨rest, hrest, rfl⟩ := exists_of_map_eq_ok h
        exact ⟨w, rest, hw, ih.mp hrest, rfl⟩
      · cases h
    · rintro ⟨w, rest, hw, hrest, rfl⟩
      rw [hw, ih.mpr hrest]
      rfl

/-- A value of the wanted type is converted to itself. -/
theorem Value.convert?_eq_self {v : Value} {target : Ty} (h : target ≠ .any → v.ty = target) :
    v.convert? target = some v := by
  cases target with
  | any => rfl
  | text | number | boolean =>
    cases v with
    | text | number | boolean => first | rfl | cases h (by decide)

/-- Values of the wanted type are converted to themselves. -/
theorem HasTy.convertTo_iff {target : Ty} {us vs : List Value} (h : HasTy target us) :
    ConvertTo target us vs ↔ vs = us := by
  induction us generalizing vs with
  | nil => rw [ConvertTo, List.forall₂_nil_left_iff]
  | cons u us ih =>
    have hself : u.convert? target = some u :=
      Value.convert?_eq_self fun htarget => h htarget u (List.mem_cons_self ..)
    have hrest : ∀ {rest}, ConvertTo target us rest ↔ rest = us :=
      ih (h.mono fun v hv => List.mem_cons_of_mem _ hv)
    rw [ConvertTo, List.forall₂_cons_left_iff]
    constructor
    · rintro ⟨w, rest, hw, hconverted, rfl⟩
      rw [hself] at hw
      cases hw
      rw [hrest.mp hconverted]
    · rintro rfl
      exact ⟨u, us, hself, hrest.mpr rfl, rfl⟩

/-- The values of several parts are converted part by part. -/
theorem convertTo_flatten_iff {target : Ty} {uss : List (List Value)} {vs : List Value} :
    ConvertTo target uss.flatten vs ↔
      ∃ vss, List.Forall₂ (ConvertTo target) uss vss ∧ vs = vss.flatten := by
  induction uss generalizing vs with
  | nil => simp [ConvertTo]
  | cons us uss ih =>
    rw [List.flatten_cons]
    constructor
    · intro h
      have hflip : List.Forall₂ (flip fun u v : Value => u.convert? target = some v) vs
        (us ++ uss.flatten) := .flip h
      obtain ⟨vss, hvss, hrest⟩ := ih.mp (.flip (List.forall₂_drop_append _ _ _ hflip))
      have hfirst := List.forall₂_take_append _ _ _ hflip
      refine ⟨vs.take us.length :: vss, .cons (.flip hfirst) hvss, ?_⟩
      rw [List.flatten_cons, ← hrest, List.take_append_drop]
    · rintro ⟨vss, hvss, rfl⟩
      obtain ⟨first, rest, hfirst, hrest, rfl⟩ := List.forall₂_cons_left_iff.mp hvss
      exact List.rel_append hfirst (ih.mpr ⟨rest, hrest, rfl⟩)

/-! ## The two evaluations -/

/-- Whether the registered functions that an evaluation comes to run return values of the types that
they declare. -/
def Moment.IsHonest (registry : Registry) (maxDepth : Nat) (moment : Moment) : Prop :=
  ∀ f ∈ registry.functions, ∀ room arguments called values,
    moment.LeadsTo registry maxDepth ⟨.invoke room f arguments, called⟩ →
    ((registry.invoke maxDepth room f arguments).runIn called).1 = .ok values →
    Law.honest.returns f values

/-- Whether an expression is laid out at a place, in a state in which its memory is its own. -/
def State.Hosts (registry : Registry) (place : Place) (e : Expr) (state : State) : Prop :=
  ∃ layout, state.Secludes registry place.root layout ∧
    layout.Covers place (registry.callAt e)

/-- The same for the parts of the expression at `place`, from `index` on. -/
def State.HostsEach (registry : Registry) (place : Place) (index : Nat) (items : List Expr)
    (state : State) : Prop :=
  ∃ layout, state.Secludes registry place.root layout ∧
    layout.CoversEach registry place index items

/-- Whether an expression ends with what another one does, converted to a type, wherever the two are
evaluated. -/
def Expr.ConvertsTo (registry : Registry) (maxDepth : Nat) (target : Ty) (plain aimed : Expr) :
    Prop :=
  ∀ {room : Nat} {scope : Scope} {place place' : Place} {state state' after after' : State}
    {outcome outcome' : Except Fault (List Value)},
    state.Hosts registry place plain → state'.Hosts registry place' aimed →
    Moment.AgreeOnRuns registry maxDepth ⟨.eval room scope place plain, state⟩
      ⟨.eval room scope place' aimed, state'⟩ →
    Moment.IsHonest registry maxDepth ⟨.eval room scope place plain, state⟩ →
    Derives registry maxDepth .free (.eval room scope place plain) state outcome after →
    Derives registry maxDepth .free (.eval room scope place' aimed) state' outcome' after' →
    ∀ vs, outcome' = .ok vs ↔ ∃ us, outcome = .ok us ∧ ConvertTo target us vs

section

variable {registry : Registry} {maxDepth room : Nat} {target : Ty} {scope : Scope}
  {place place' : Place} {state state' after after' : State}

theorem Moment.IsHonest.next {moment later : Moment} (h : moment.IsHonest registry maxDepth)
    (hnext : Moment.Next registry maxDepth moment later) : later.IsHonest registry maxDepth :=
  fun f hf room arguments called values hcalled =>
    h f hf room arguments called values (.head hnext hcalled)

theorem State.HostsEach.head {index : Nat} {item : Expr} {items : List Expr}
    (h : state.HostsEach registry place index (item :: items)) :
    state.Hosts registry (place.child index) item := by
  obtain ⟨layout, hstate, hlaid⟩ := h
  exact ⟨layout, hstate, hlaid.head⟩

theorem State.HostsEach.tail {index : Nat} {item : Expr} {items : List Expr}
    {outcome : Except Fault (List Value)} (h : state.HostsEach registry place index (item :: items))
    (hran : Derives registry maxDepth .free (.eval room scope (place.child index) item) state
      outcome after) : after.HostsEach registry place (index + 1) items := by
  obtain ⟨layout, hstate, hlaid⟩ := h
  exact ⟨layout, hran.secludes hstate rfl hlaid.head, hlaid.tail⟩

/-- The values of a leaf are of the type that is known of it. -/
theorem Expr.hasTy_of_isKnown {e : Expr} {values : List Value} (h : e.IsKnown registry target)
    (hhosts : state.Hosts registry place e)
    (hhonest : Moment.IsHonest registry maxDepth ⟨.eval room scope place e, state⟩)
    (hran : Derives registry maxDepth .free (.eval room scope place e) state (.ok values) after) :
    HasTy target values := by
  cases e with
  | literal value =>
    cases hran.isEvaluated
    intro _ v hv
    rw [List.mem_singleton.mp hv]
    exact h
  | template text =>
    cases hran.isEvaluated
    intro _ v hv
    rw [List.mem_singleton.mp hv]
    exact Eq.symm h
  | call site ty single =>
    obtain ⟨layout, hstate, hlaid⟩ := hhosts
    obtain ⟨executed, hexecuted, hvalues⟩ := hran.isEvaluated
    obtain ⟨returned, rfl, rfl⟩ := exists_of_map_eq_ok hvalues.symm
    obtain ⟨_, -, hfails⟩ | ⟨f, bound, middle, hprepared, hrun⟩ := hexecuted.isDerived
    · cases hfails
    obtain ⟨_, -, hfails⟩ | ⟨arguments, called, result, harguments, -, hinvoked, hreturned⟩ := hrun
    · cases hfails
    obtain ⟨returns, rfl, rfl⟩ := exists_of_map_eq_ok hreturned.symm
    obtain ⟨-, hfound⟩ := hstate.agrees.prepared hlaid.call.here hprepared
    apply hasTy_shape
    · exact (hhonest.next .call) f (Registry.mem_of_lookup hfound) _ _ _ _
        (.single (.run hprepared harguments)) (congrArg Prod.fst hinvoked.runIn_eq)
    · intro declared hdeclared
      rw [← h f hfound, Signature.ty, hdeclared, Option.getD_some]
  | reference | list | converted => exact h.elim

/-- Parts are converted one by one. -/
theorem Expr.convertsTo_each {items items' : List Expr} {index : Nat}
    {outcome outcome' : Except Fault (List (List Value))} (hlength : items'.length = items.length)
    (hparts : ∀ (i : Nat) (item item' : Expr), items[i]? = some item → items'[i]? = some item' →
      item.ConvertsTo registry maxDepth target item')
    (hhosts : state.HostsEach registry place index items)
    (hhosts' : state'.HostsEach registry place' index items')
    (hagree : Moment.AgreeOnRuns registry maxDepth ⟨.evalEach room scope place index items, state⟩
      ⟨.evalEach room scope place' index items', state'⟩)
    (hhonest : Moment.IsHonest registry maxDepth ⟨.evalEach room scope place index items, state⟩)
    (hran : Derives registry maxDepth .free (.evalEach room scope place index items) state outcome
      after)
    (hran' : Derives registry maxDepth .free (.evalEach room scope place' index items') state'
      outcome' after') (vss : List (List Value)) :
    outcome' = .ok vss ↔ ∃ uss, outcome = .ok uss ∧ List.Forall₂ (ConvertTo target) uss vss := by
  induction items generalizing items' index state state' outcome outcome' vss with
  | nil =>
    obtain rfl := List.eq_nil_of_length_eq_zero hlength
    obtain ⟨rfl, -⟩ := hran.isEvaluated
    obtain ⟨rfl, -⟩ := hran'.isEvaluated
    constructor
    · rintro ⟨⟩
      exact ⟨[], rfl, .nil⟩
    · rintro ⟨_, ⟨⟩, ⟨⟩⟩
      rfl
  | cons item items ih =>
    cases items' with
    | nil => cases hlength
    | cons item' items' =>
      have hhead {first first' : Except Fault (List Value)} {middle middle' : State}
          (hfirst : Derives registry maxDepth .free (.eval room scope (place.child index) item)
            state first middle)
          (hfirst' : Derives registry maxDepth .free (.eval room scope (place'.child index) item')
            state' first' middle') (vs : List Value) :
          first' = .ok vs ↔ ∃ us, first = .ok us ∧ ConvertTo target us vs :=
        hparts 0 item item' rfl rfl hhosts.head hhosts'.head (hagree.next .head .head)
          (hhonest.next .head) hfirst hfirst' vs
      obtain ⟨_, hfirst, rfl⟩ | ⟨us, middle, rest, hfirst, hrest, rfl⟩ := hran.isEvaluated
      · -- The first part fails, and so does what it is converted to.
        obtain ⟨_, -, rfl⟩ | ⟨_, _, _, hfirst', -, -⟩ := hran'.isEvaluated
        · constructor
          · rintro ⟨⟩
          · rintro ⟨_, ⟨⟩, -⟩
        · obtain ⟨_, ⟨⟩, -⟩ := (hhead hfirst hfirst' _).mp rfl
      · obtain ⟨_, hfirst', rfl⟩ | ⟨ws, middle', rest', hfirst', hrest', rfl⟩ := hran'.isEvaluated
        · -- The values of the first part have no counterparts.
          constructor
          · rintro ⟨⟩
          · rintro ⟨uss, huss, hconverted⟩
            obtain ⟨others, -, rfl⟩ := exists_of_map_eq_ok huss
            obtain ⟨vs, _, hvs, -, rfl⟩ := List.forall₂_cons_left_iff.mp hconverted
            cases (hhead hfirst hfirst' vs).mpr ⟨us, rfl, hvs⟩
        · obtain ⟨_, ⟨⟩, hws⟩ := (hhead hfirst hfirst' ws).mp rfl
          have htail := ih (Nat.succ.inj hlength)
            (fun i other other' h h' => hparts (i + 1) other other' h h') (hhosts.tail hfirst)
            (hhosts'.tail hfirst') (hagree.next (.tail hfirst) (.tail hfirst'))
            (hhonest.next (.tail hfirst)) hrest hrest'
          constructor
          · intro h
            obtain ⟨others', rfl, rfl⟩ := exists_of_map_eq_ok h
            obtain ⟨others, rfl, hothers⟩ := (htail others').mp rfl
            exact ⟨us :: others, rfl, .cons hws hothers⟩
          · rintro ⟨uss, huss, hconverted⟩
            obtain ⟨others, rfl, rfl⟩ := exists_of_map_eq_ok huss
            obtain ⟨vs, others', hvs, hothers, rfl⟩ := List.forall₂_cons_left_iff.mp hconverted
            cases (hhead hfirst hfirst' vs).mpr ⟨us, rfl, hvs⟩
            rw [(htail others').mpr ⟨others, rfl, hothers⟩]
            rfl

/-- An expression that is read for a type ends with what the plain one does, converted. -/
theorem Expr.Aims.convertsTo {plain aimed : Expr} (h : plain.Aims registry target aimed) :
    plain.ConvertsTo registry maxDepth target aimed := by
  -- A leaf ends alike on both sides.
  have alike {e : Expr} {room : Nat} {scope : Scope} {place place' : Place}
      {state state' after after' : State} {outcome outcome' : Except Fault (List Value)}
      (hhosts : state.Hosts registry place e) (hhosts' : state'.Hosts registry place' e)
      (hagree : Moment.AgreeOnRuns registry maxDepth ⟨.eval room scope place e, state⟩
        ⟨.eval room scope place' e, state'⟩)
      (hran : Derives registry maxDepth .free (.eval room scope place e) state outcome after)
      (hran' : Derives registry maxDepth .free (.eval room scope place' e) state' outcome' after') :
      outcome' = outcome := by
    obtain ⟨layout, hstate, hlaid⟩ := hhosts
    obtain ⟨layout', hstate', hlaid'⟩ := hhosts'
    obtain ⟨_, hsame⟩ :=
      hran.ends_alike hstate rfl ⟨place', hlaid, hlaid', rfl⟩ hstate' rfl hagree
    exact (hran'.unique hsame).1
  induction h with
  | @kept e known =>
    intro room scope place place' state state' after after' outcome outcome' hhosts hhosts' hagree
      hhonest hran hran' vs
    obtain rfl := alike hhosts hhosts' hagree hran hran'
    have htyped {us : List Value} (hus : outcome' = .ok us) : HasTy target us := by
      subst hus
      rcases known with rfl | hknown
      · exact fun hany => absurd rfl hany
      · exact hasTy_of_isKnown hknown hhosts hhonest hran
    constructor
    · intro hvs
      exact ⟨vs, hvs, (htyped hvs).convertTo_iff.mpr rfl⟩
    · rintro ⟨us, hus, hconverted⟩
      rw [hus, (htyped hus).convertTo_iff.mp hconverted]
  | @converted e =>
    intro room scope place place' state state' after after' outcome outcome' hhosts hhosts' hagree
      hhonest hran hran' vs
    obtain ⟨layout', hstate', hlaid'⟩ := hhosts'
    obtain ⟨part, hpart, rfl⟩ := hran'.isEvaluated
    obtain rfl := alike hhosts ⟨layout', hstate', hlaid'.converted⟩
      (hagree.of_leadsTo .refl (.single .inner)) hran hpart
    constructor
    · intro hvs
      obtain ⟨us, hus, hconverted⟩ := exists_of_bind_eq_ok hvs
      exact ⟨us, hus, convertAll_eq_ok_iff.mp hconverted⟩
    · rintro ⟨us, rfl, hconverted⟩
      exact convertAll_eq_ok_iff.mpr hconverted
  | list length _ ih =>
    intro room scope place place' state state' after after' outcome outcome' hhosts hhosts' hagree
      hhonest hran hran' vs
    obtain ⟨layout, hstate, hlaid⟩ := hhosts
    obtain ⟨layout', hstate', hlaid'⟩ := hhosts'
    obtain ⟨parts, hparts, rfl⟩ := hran.isEvaluated
    obtain ⟨parts', hparts', rfl⟩ := hran'.isEvaluated
    have heach := convertsTo_each length ih ⟨layout, hstate, hlaid.items⟩
      ⟨layout', hstate', hlaid'.items⟩ (hagree.next .items .items) (hhonest.next .items) hparts
      hparts'
    constructor
    · intro hvs
      obtain ⟨vss, rfl, rfl⟩ := exists_of_map_eq_ok hvs
      obtain ⟨uss, rfl, hconverted⟩ := (heach vss).mp rfl
      exact ⟨uss.flatten, rfl, convertTo_flatten_iff.mpr ⟨vss, hconverted, rfl⟩⟩
    · rintro ⟨us, hus, hconverted⟩
      obtain ⟨uss, rfl, rfl⟩ := exists_of_map_eq_ok hus
      obtain ⟨vss, hvss, rfl⟩ := convertTo_flatten_iff.mp hconverted
      rw [(heach vss).mpr ⟨uss, rfl, hvss⟩]
      rfl

end

/-! ## Reading for a type -/

namespace Session

/-- What is honest from now on is honest in every evaluation. -/
theorem IsHonest.moment {session later : Session} (h : session.IsHonest)
    (hlater : Steady .free session later) {maxDepth : Nat} {start : Moment}
    (hstart : later.Begins maxDepth start) : start.IsHonest session.registry maxDepth := by
  intro f hf room arguments called values hcalled hvalues
  refine h f hf later hlater maxDepth room arguments called values ⟨start, hstart, ?_⟩ hvalues
  rwa [hlater.registry_eq]

theorem Isolates.hosts {session : Session} {x : Rooted Expr} (h : session.Isolates x) :
    session.state.Hosts session.registry ⟨x.root, []⟩ x.item :=
  ⟨_, h.secludes, Layout.covers_add⟩

/-- Reading a text where a value of a type is wanted comes to the same as reading it where every
value is welcome, and converting the values:

* where every value is welcome, a text is never refused for its type;
* if it is no expression where the type is wanted, it is none there;
* if it is an expression where the type is wanted, it is one there, and stands for one value in both
  or in none. In the same context, the first ends with some values if and only if the second ends
  with values that can all be converted to the type, and these are the conversions in order. The
  functions have to be deterministic and honest; the two may be read and evaluated one after the
  other, in any order and whatever happens in between. -/
theorem targeted_reading (session : Session) (hreached : Reached .free session)
    (space text : String) (target : Ty) :
    let reader := session.registry.reader space
    (∀ got, reader.parse text .any ≠ .error (.incompatible got)) ∧
    (reader.parse text target = .error .unparsable →
      reader.parse text .any = .error .unparsable) ∧
    ∀ aimed, reader.parse text target = .ok aimed →
      ∃ plain, reader.parse text .any = .ok plain ∧ plain.single = aimed.single ∧
        (session.IsDeterministic → session.IsHonest → ∀ x y later other,
          session.HasRead space text target x later → session.HasRead space text .any y other →
          ∀ (context : Context) (vs : List Value),
            ((Evaluator.eval ⟨session.registry, space, context⟩ x).runIn later.state).1 = .ok vs ↔
              ∃ us,
                ((Evaluator.eval ⟨session.registry, space, context⟩ y).runIn other.state).1 =
                  .ok us ∧
                List.Forall₂ (fun u v => u.convert? target = some v) us vs) := by
  intro reader
  obtain ⟨hread, hrefused⟩ := Reader.parse_any text target
  refine ⟨fun got hgot => ?_, hrefused, ?_⟩
  · cases Reader.eq_unparsable_of_type hgot
  intro aimed haimed
  obtain ⟨plain, hplain, haims⟩ := hread aimed haimed
  refine ⟨plain, hplain, haims.single_eq, ?_⟩
  intro hdeterministic hhonest x y later other hx hy context vs
  obtain ⟨hparsed, hlater, hisolates⟩ := hx.isolates hreached
  obtain ⟨hparsed', hother, hisolates'⟩ := hy.isolates hreached
  cases haimed.symm.trans hparsed
  cases hplain.symm.trans hparsed'
  have hhosts := hisolates.hosts
  have hhosts' := hisolates'.hosts
  rw [hlater.registry_eq] at hhosts
  rw [hother.registry_eq] at hhosts'
  have hbegins := @Begins.evaluate _ _ context hisolates.read
  have hbegins' := @Begins.evaluate _ _ context hisolates'.read
  rw [eval_eq_run, eval_eq_run]
  exact haims.convertsTo hhosts' hhosts (hdeterministic.agreeOnRuns hother hlater hbegins' hbegins)
    (hhonest.moment hother hbegins') (derives ..) (derives ..) vs

/-- A function that ends with one value is honest, however much room there is. -/
theorem honest_of_runIn_constant {registry : Registry} {maxDepth room : Nat} {name : String}
    {v : Value} {arguments : Bundle} {state : State} {values : List Value}
    (h : ((registry.invoke maxDepth room (.constant name v) arguments).runIn state).1 = .ok values) :
    Law.honest.returns (.constant name v) values := by
  cases room with
  | zero =>
    have hran := @Derives.noRoom registry maxDepth .free (.constant name v) arguments state
    cases h.symm.trans (congrArg Prod.fst hran.runIn_eq)
  | succ room =>
    have hran : Derives registry maxDepth .free (.invoke (room + 1) (.constant name v) arguments)
        state (.ok [v]) _ := .invoked .done fun _ _ => trivial
    cases h.symm.trans (congrArg Prod.fst hran.runIn_eq)
    exact honest_constant _ _

theorem isHonest_nestedSession : nestedSession.IsHonest := by
  intro f hf later _ maxDepth room arguments called values _ hvalues
  rw [functions_nestedSession] at hf
  rcases List.mem_pair.mp hf with rfl | rfl
  · exact honest_of_runIn_constant hvalues
  · exact fun ty hty => by cases hty

/-- The text `g()` is read where a text is wanted, while `g` returns a truth value, and then where
every value is welcome. The second reading ends with the truth value, and so the first one ends with
its text. -/
theorem targeted_reading_shown :
    nestedSession.IsDeterministic ∧ nestedSession.IsHonest ∧
      (nestedSession.registry.reader "").parse "g()" .text = .ok shownCall ∧
      ∃ x y later other,
        nestedSession.HasRead "" "g()" .text x later ∧ nestedSession.HasRead "" "g()" .any y other ∧
        ((Evaluator.eval ⟨nestedSession.registry, "", .top 256⟩ y).runIn other.state).1 =
          .ok [.boolean true] ∧
        ((Evaluator.eval ⟨nestedSession.registry, "", .top 256⟩ x).runIn later.state).1 =
          .ok [.text "true"] := by
  have hparsed := runIn_parse_shownCall
  have hparsed' : (Evaluator.parse ⟨nestedSession.registry, "", .top 256⟩ "g()" .any).runIn
      { nextRoot := 2 } = (.ok ⟨2, .call ⟨"", "g", []⟩ .boolean true⟩, { nextRoot := 3 }) := by
    rw [Evaluator.parse, parse_plainCall]
    rfl
  obtain ⟨hparse, -⟩ := of_runIn_parse hparsed
  have hx : nestedSession.HasRead "" "g()" .text ⟨1, shownCall⟩
      { nestedSession with state := { nextRoot := 2 }, read := [⟨1, shownCall⟩] } :=
    ⟨nestedSession, _, _, .refl, hparsed, .refl⟩
  have hy : nestedSession.HasRead "" "g()" .any ⟨2, .call ⟨"", "g", []⟩ .boolean true⟩
      { nestedSession with
        state := { nextRoot := 3 }
        read := [⟨2, .call ⟨"", "g", []⟩ .boolean true⟩, ⟨1, shownCall⟩] } :=
    ⟨_, _, _, .single ⟨.parse hparsed, rfl⟩, hparsed', .refl⟩
  obtain ⟨-, -, hread⟩ :=
    targeted_reading nestedSession (reached_nestedSession .free) "" "g()" .text
  obtain ⟨plain, -, -, hvalues⟩ := hread shownCall hparse
  have hplain := @runIn_eval_plainCall 2 { nextRoot := 3 } (Pins.get_empty _)
  refine ⟨isDeterministic_nestedSession, isHonest_nestedSession, hparse, _, _, _, _, hx, hy, hplain,
    ?_⟩
  have hboth := hvalues isDeterministic_nestedSession isHonest_nestedSession _ _ _ _ hx hy
  exact (hboth (.top 256) _).mpr ⟨_, hplain, .cons rfl .nil⟩

end Session

end CallScript

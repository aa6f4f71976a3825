import CallScript.Proofs.Outcomes
import CallScript.Proofs.TargetedReading

/-!
# What a text ends with when it is read for a type

A text can be read where every value is welcome, or where values of some type are wanted. If the
first reading ends with some values in one state, the second one gives these values converted,
everywhere (`Expr.Aims.givesConverted`), or the fault that converting them ends with.

That is so wherever the conversions are. In a list they are spread over its items, and then the
items are converted one by one, which fails at the same value as converting all of them at once
(`convertAll_flatten`). Where the type is known already there is none, and then the values are of
that type (`Expr.IsKnown.hasTy`): a function that honours its type gives no others.
-/

namespace CallScript

/-! ## What a part ends with when it is read for its parameter -/

theorem HasTy.convertAll_eq {target : Ty} {values : List Value} (h : HasTy target values) :
    convertAll target values = .ok values :=
  convertAll_eq_ok_iff.mpr (h.convertTo_iff.mpr rfl)

/-- Converting the values of several parts is converting them part by part. -/
theorem convertAll_flatten (target : Ty) (uss : List (List Value)) :
    convertAll target uss.flatten = (uss.mapM (convertAll target)).map List.flatten := by
  have happend (us vs : List Value) : convertAll target (us ++ vs) =
      (convertAll target us).bind fun us => (convertAll target vs).map (us ++ ·) := by
    rw [convertAll, List.mapM_append]
    show ((convertAll target us).bind fun us => (convertAll target vs).bind fun vs =>
      .ok (us ++ vs)) = _
    cases convertAll target us with
    | error fault => rfl
    | ok us => cases convertAll target vs <;> rfl
  induction uss with
  | nil => rfl
  | cons us uss ih =>
    rw [List.flatten_cons, happend, ih, List.mapM_cons]
    cases convertAll target us with
    | error fault => rfl
    | ok vs => cases uss.mapM (convertAll target) <;> rfl

section

variable {registry : Registry} {maxDepth room : Nat} {layout : Layout} {state after : State}
  {scope : Scope} {place : Place} {target : Ty}

/-- The values of a leaf are of the type that is known of it. -/
theorem Expr.IsKnown.hasTy {e : Expr} (h : e.IsKnown registry target)
    (hreliable : registry.IsReliable maxDepth) (hconforms : state.Conforms registry layout)
    (hlaid : layout.Covers place (registry.callAt e)) {values : List Value}
    (hran : Derives registry maxDepth .free (.eval room scope place e) state (.ok values) after) :
    HasTy target values := by
  cases e with
  | literal value =>
    cases hran.isEvaluated
    intro _ v hv
    rw [List.mem_singleton.mp hv]
    exact h
  | template text =>
    cases hran.isEvaluated
    intro _ v hv
    rw [List.mem_singleton.mp hv]
    exact Eq.symm h
  | call site ty single =>
    obtain ⟨f, arguments, result, hfound, hresult, rfl⟩ :=
      hran.exists_gives_invoke hreliable.repeats hconforms hlaid
    apply hasTy_shape
    · exact hreliable.honest f (Registry.mem_of_lookup hfound) _ _ _ hresult
    · intro declared hdeclared
      rw [← h f hfound, Signature.ty, hdeclared, Option.getD_some]
  | reference | list | converted => exact h.elim

/-- An expression that stands for one value ends with no more than one, if what is noted in it is
right. -/
theorem Expr.IsNoted.length_le_one {e : Expr} (h : e.IsNoted registry) (hsingle : e.single = true)
    (hreliable : registry.IsReliable maxDepth) (hconforms : state.Conforms registry layout)
    (hlaid : layout.Covers place (registry.callAt e)) {values : List Value}
    (hran : Derives registry maxDepth .free (.eval room scope place e) state (.ok values) after) :
    values.length ≤ 1 := by
  match e with
  | .literal _ | .template _ =>
    cases hran.isEvaluated
    exact Nat.le_refl 1
  | .reference r =>
    cases hran.isEvaluated
    have hall : r.all = false := by simpa [single] using hsingle
    rw [Scope.resolve, hall, if_neg Bool.false_ne_true]
    exact List.length_take_le 1 _
  | .list _ _ => cases hsingle
  | .converted inner target =>
    obtain ⟨part, hpart, hvalues⟩ := hran.isEvaluated
    obtain ⟨us, rfl, hconverted⟩ := exists_of_bind_eq_ok hvalues.symm
    have hinner : inner.IsNoted registry := fun site ty single hcall =>
      h site ty single (.converted hcall)
    rw [length_of_convertAll hconverted]
    exact hinner.length_le_one hsingle hreliable hconforms hlaid.converted hpart
  | .call site ty single =>
    obtain ⟨f, _, result, hfound, -, rfl⟩ :=
      hran.exists_gives_invoke hreliable.repeats hconforms hlaid
    obtain ⟨-, hnoted⟩ := h site ty single .call f hfound
    exact Signature.length_shape_le (hnoted.trans hsingle) result

/-- What a reader notes is right while no function is registered. -/
theorem Reader.isNoted_of_parse {space text : String} {e : Expr}
    (h : (registry.reader space).parse text target = .ok e) : e.IsNoted registry := by
  intro site ty single hcall f hfound
  have hnotes := notes_of_type h hcall
  have hspace : site.space = space := hnotes.space
  have hdeclared : (registry.reader space).signature? site.name = some f.signature := by
    rw [← hspace]
    exact Option.map_eq_some_iff.mpr ⟨f, hfound, rfl⟩
  obtain ⟨rfl, rfl, -⟩ := hnotes.declared f.signature hdeclared
  exact ⟨rfl, rfl⟩

/-- Whether an expression gives the values that another one ends with, converted to a type. -/
def Expr.GivesConverted (registry : Registry) (maxDepth : Nat) (target : Ty) (plain aimed : Expr) :
    Prop :=
  ∀ {room : Nat} {scope : Scope} {place : Place} {layout : Layout} {state after : State}
    {us : List Value}, state.Conforms registry layout →
    layout.Covers place (registry.callAt plain) →
    Derives registry maxDepth .free (.eval room scope place plain) state (.ok us) after →
    Gives registry maxDepth (.eval room scope · aimed) (convertAll target us)

/-- Parts are converted one by one, and the first that fails to be ends the evaluation. -/
theorem Expr.givesConverted_each {items items' : List Expr} {index : Nat}
    {uss : List (List Value)} (hlength : items'.length = items.length)
    (hparts : ∀ (i : Nat) (item item' : Expr), items[i]? = some item → items'[i]? = some item' →
      item.GivesConverted registry maxDepth target item')
    (hconforms : state.Conforms registry layout)
    (hlaid : layout.CoversEach registry place index items)
    (hran : Derives registry maxDepth .free (.evalEach room scope place index items) state
      (.ok uss) after) :
    Gives registry maxDepth (.evalEach room scope · index items')
      (uss.mapM (convertAll target)) := by
  induction items generalizing items' index layout state uss with
  | nil =>
    obtain rfl := List.eq_nil_of_length_eq_zero hlength
    obtain ⟨huss, -⟩ := hran.isEvaluated
    cases huss
    exact .evalNil
  | cons item items ih =>
    cases items' with
    | nil => cases hlength
    | cons item' items' =>
      obtain ⟨_, -, hfails⟩ | ⟨us, middle, rest, hfirst, hrest, huss⟩ := hran.isEvaluated
      · cases hfails
      obtain ⟨others, rfl, rfl⟩ := exists_of_map_eq_ok huss.symm
      have hhead : Gives registry maxDepth (.eval room scope · item') (convertAll target us) :=
        hparts 0 item item' rfl rfl hconforms hlaid.head hfirst
      rw [List.mapM_cons]
      cases hconverted : convertAll target us with
      | error fault =>
        rw [hconverted] at hhead
        exact .evalFails hhead
      | ok vs =>
        rw [hconverted] at hhead
        obtain ⟨newer, hextends, hmiddle⟩ :=
          hfirst.conforms hconforms ⟨_, hlaid.head, hlaid.head, rfl⟩
        have htail := ih (Nat.succ.inj hlength)
          (fun i other other' h h' => hparts (i + 1) other other' h h') hmiddle
          (hlaid.tail.mono hextends) hrest
        have hcons := hhead.evalCons htail
        cases hothers : others.mapM (convertAll target) with
        | error fault =>
          rw [hothers] at hcons
          exact hcons
        | ok vss =>
          rw [hothers] at hcons
          exact hcons

/-- An expression that is read for a type gives what the plain one ends with, converted. -/
theorem Expr.Aims.givesConverted {plain aimed : Expr} (h : plain.Aims registry target aimed)
    (hreliable : registry.IsReliable maxDepth) :
    plain.GivesConverted registry maxDepth target aimed := by
  induction h with
  | @kept e known =>
    intro room scope place layout state after us hconforms hlaid hran
    have htyped : HasTy target us := by
      rcases known with rfl | hknown
      · exact fun hany => absurd rfl hany
      · exact hknown.hasTy hreliable hconforms hlaid hran
    rw [htyped.convertAll_eq]
    exact hran.gives_eval hreliable.repeats hconforms hlaid
  | converted =>
    intro room scope place layout state after us hconforms hlaid hran
    exact (hran.gives_eval hreliable.repeats hconforms hlaid).converted
  | list length _ ih =>
    intro room scope place layout state after us hconforms hlaid hran
    obtain ⟨parts, hparts, hus⟩ := hran.isEvaluated
    obtain ⟨uss, rfl, rfl⟩ := exists_of_map_eq_ok hus.symm
    rw [convertAll_flatten]
    exact (givesConverted_each length ih hconforms hlaid.items hparts).list

end

end CallScript

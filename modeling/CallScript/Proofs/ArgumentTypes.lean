import Mathlib.Data.List.Nodup
import CallScript.Proofs.Session

/-!
# The types of arguments

When a text is read, the type of a call in it is what its function declares at that moment. Where
another type is wanted a conversion is written around the call, and none where the types agree: then
the values of the call are handed on as they are. The function is looked up again when the call is
first executed. If it was replaced in between by one that declares another type, the conversion that
would be needed is missing, and a value of a wrong type gets to a parameter, although every body
returns values of the type that its function declares.

That is the only way for it to happen. A reader writes expressions whose parts have the types that
are noted in them (`Expr.IsTyped`); such an expression yields values of its type, as far as the calls
that it hands on have found functions of this type (`Expr.Yields`), and as far as bodies return what
they declare while it is evaluated (`Law.honest`). So a function is run on arguments of its types if
the calls that are handed on to it agree with that (`State.Agrees`), since a call site remembers how
it bound its arguments only together with the function whose parameters they were bound to
(`State.IsTyped`).
-/

namespace CallScript

/-- Whether values are of a type; all are if it is `any`. -/
def HasTy (ty : Ty) (values : List Value) : Prop := ty ≠ .any → ∀ v ∈ values, v.ty = ty

theorem HasTy.nil (ty : Ty) : HasTy ty [] := fun _ _ h => absurd h List.not_mem_nil

theorem HasTy.mono {ty : Ty} {values values' : List Value} (h : HasTy ty values)
    (hsub : ∀ v ∈ values', v ∈ values) : HasTy ty values' := fun hty v hv => h hty v (hsub v hv)

/-- Whether the call at a place has found no function that declares another type. -/
def State.Declares (state : State) (ty : Ty) (place : Place) : Prop :=
  ∀ f, (state.pins.get place).callee = some f →
    ∀ declared, f.signature.returns = some declared → declared = ty

/-- The places of the calls whose values an expression hands on as they are: the expression itself,
if it is a call, and what its items hand on, if it is a list. -/
inductive Expr.HandsOn : Expr → Place → Place → Prop where
  | call {site ty single place} : HandsOn (.call site ty single) place place
  | list {items : List Expr} {ty place target} {index : Nat} {item : Expr}
      (part : items[index]? = some item) (handed : HandsOn item (place.child index) target) :
      HandsOn (.list items ty) place target

/-- The law that bodies return values of the type that their functions declare. -/
def Law.honest : Law where
  returns f values := ∀ ty, f.signature.returns = some ty → HasTy ty values
  passes _ _ _ := True

/-- Whether the calls whose values bound arguments hand on to parameters of a particular type have
found functions that declare this type, or that return nothing. -/
def State.Agrees (state : State) (place : Place) (bindings : List Binding) : Prop :=
  ∀ (index : Nat) (b : Binding), bindings[index]? = some b → b.parameter.ty ≠ .any →
    ∀ target, b.expr.HandsOn (place.child index) target → state.Declares b.parameter.ty target

/-- Whether what bodies return under a law is of the type that their functions declare. -/
def Law.IsHonest (law : Law) : Prop :=
  ∀ f values, law.returns f values → Law.honest.returns f values

/-- Whether every bound argument has values of the type of a parameter of its name; looked up by the
name of a parameter, they are of its type, as far as names tell parameters apart. -/
structure Bundle.IsTyped (parameters : List Parameter) (bundle : Bundle) : Prop where
  entries : ∀ entry ∈ bundle.entries, ∃ p ∈ parameters,
    p.name = entry.1 ∧ (p.ty ≠ .any → ∀ v ∈ entry.2, v.ty = p.ty)
  get : (parameters.map Parameter.name).Nodup → ∀ p ∈ parameters, p.ty ≠ .any →
    ∀ v ∈ bundle.get p.name, v.ty = p.ty

/-! ## Readers write typed expressions -/

/-- Whether the parts of every list in an expression have the type that is noted for them. -/
inductive Expr.IsTyped : Expr → Prop where
  | literal {value} : IsTyped (.literal value)
  | template {text} : IsTyped (.template text)
  | reference {target} : IsTyped (.reference target)
  | list {items ty} (parts : ∀ item ∈ items, IsTyped item)
      (same : ty ≠ .any → ∀ item ∈ items, item.ty = ty) : IsTyped (.list items ty)
  | converted {inner target} (part : IsTyped inner) : IsTyped (.converted inner target)
  | call {site ty single} : IsTyped (.call site ty single)

theorem Expr.isTyped_of_coerce {target : Ty} {e e' : Expr} (h : e.coerce target = .ok e')
    (he : e.IsTyped) : e'.IsTyped ∧ (target ≠ .any → e'.ty = target) := by
  unfold coerce at h
  split at h
  · split at h
    · next hsame =>
      cases h
      refine ⟨he, ?_⟩
      intro hany
      simpa [hany] using hsame
    · cases h
      exact ⟨.converted he, fun _ => rfl⟩
  · cases h

/-- The parts of a list have the type they have in common, if that is a particular one. -/
theorem ty_eq_commonTy {target : Ty} {items : List Expr} (h : commonTy target items ≠ .any)
    {item : Expr} (hitem : item ∈ items) : item.ty = commonTy target items := by
  cases items with
  | nil => exact absurd hitem List.not_mem_nil
  | cons first rest =>
    rw [commonTy] at h ⊢
    split at h
    · next hall =>
      rw [if_pos hall]
      rcases List.mem_cons.mp hitem with rfl | hitem
      · rfl
      · simpa using List.all_eq_true.mp hall item hitem
    · exact absurd rfl h

namespace Reader

mutual

theorem isTyped_of_type {r : Reader} {target : Ty} {form : Form} {e : Expr}
    (h : r.type target form = .ok e) : e.IsTyped ∧ (target ≠ .any → e.ty = target) := by
  cases form with
  | unreadable => simp [type] at h
  | text content =>
    simp only [type] at h
    split at h
    · exact Expr.isTyped_of_coerce h .template
    · exact Expr.isTyped_of_coerce h .literal
  | boolean _ => exact Expr.isTyped_of_coerce (by simpa [type] using h) .literal
  | number _ => exact Expr.isTyped_of_coerce (by simpa [type] using h) .literal
  | reference _ => exact Expr.isTyped_of_coerce (by simpa [type] using h) .reference
  | list items =>
    simp only [type] at h
    obtain ⟨es, hes, h⟩ := exists_of_bind_eq_ok h
    refine Expr.isTyped_of_coerce h (.list (isTyped_of_typeAll hes) ?_)
    intro hty item hitem
    exact ty_eq_commonTy hty hitem
  | call name arguments =>
    simp only [type, typeCall] at h
    split at h
    · exact Expr.isTyped_of_coerce h .call
    · split at h
      · cases h
      · exact Expr.isTyped_of_coerce h .call

theorem isTyped_of_typeAll {r : Reader} {target : Ty} {forms : List Form} {es : List Expr}
    (h : r.typeAll target forms = .ok es) : ∀ e ∈ es, e.IsTyped := by
  cases forms with
  | nil =>
    simp only [typeAll, Except.ok.injEq] at h
    subst h
    simp
  | cons form forms =>
    simp only [typeAll] at h
    obtain ⟨e, he, h⟩ := exists_of_bind_eq_ok h
    obtain ⟨rest, hrest, h⟩ := exists_of_bind_eq_ok h
    cases h
    intro e' he'
    rcases List.mem_cons.mp he' with rfl | he'
    · exact (isTyped_of_type he).1
    · exact isTyped_of_typeAll hrest e' he'

end

/-- An expression that was read for a particular type is of that type. -/
theorem isTyped_of_parse {r : Reader} {text : String} {target : Ty} {e : Expr}
    (h : r.parse text target = .ok e) : e.IsTyped ∧ (target ≠ .any → e.ty = target) :=
  isTyped_of_type h

/-- Expressions at hand are still typed when one more was read. -/
theorem isTyped_push {r : Reader} {text : String} {target : Ty} {e : Expr} {n root : Nat}
    {exprs : Vector (Rooted Expr) n} (h : r.parse text target = .ok e)
    (hexprs : ∀ x ∈ exprs, x.item.IsTyped) : ∀ x ∈ exprs.push ⟨root, e⟩, x.item.IsTyped := by
  intro x hx
  rcases Vector.mem_push.mp hx with hx | rfl
  · exact hexprs x hx
  · exact (isTyped_of_parse h).1

end Reader

/-! ## Bindings fit their parameters -/

theorem mem_of_claim {pool rest : List Parameter} {argument : RawArgument} {p : Parameter}
    (h : claim pool argument = .ok (p, rest)) : p ∈ pool ∧ ∀ q ∈ rest, q ∈ pool := by
  unfold claim at h
  split at h
  · split at h
    · next hfind =>
      cases h
      exact ⟨List.mem_of_find?_eq_some hfind, fun q => List.mem_of_mem_eraseP⟩
    · cases h
  · split at h
    · cases h
      exact ⟨List.mem_cons_self .., fun q => List.mem_cons_of_mem _⟩
    · cases h

theorem mem_of_bindFrom {parse : String → Ty → Except ParseFailure Expr} {pool : List Parameter}
    {arguments : List RawArgument} {bindings : List Binding}
    (h : bindFrom parse pool arguments = .ok bindings) : ∀ b ∈ bindings, b.parameter ∈ pool := by
  induction arguments generalizing pool bindings with
  | nil =>
    rw [bindFrom] at h
    split at h
    · cases h
    · cases h
      simp
  | cons argument arguments ih =>
    rw [bindFrom] at h
    obtain ⟨⟨p, rest⟩, hclaim, h⟩ := exists_of_bind_eq_ok h
    obtain ⟨e, -, h⟩ := exists_of_bind_eq_ok h
    obtain ⟨bindings', hbind, h⟩ := exists_of_bind_eq_ok h
    cases h
    obtain ⟨hp, hrest⟩ := mem_of_claim hclaim
    intro b hb
    rcases List.mem_cons.mp hb with rfl | hb
    · exact hp
    · exact hrest _ (ih hbind b hb)

/-- An argument is bound to a parameter of the signature, by an expression of its type. -/
structure Binding.Fits (signature : Signature) (b : Binding) : Prop where
  parameter : b.parameter ∈ signature.parameters
  isTyped : b.expr.IsTyped
  ty : b.parameter.ty ≠ .any → b.expr.ty = b.parameter.ty

theorem isTyped_of_fits {signature : Signature} {bindings : List Binding}
    (h : ∀ b ∈ bindings, b.Fits signature) : ∀ e ∈ bindings.map Binding.expr, e.IsTyped := by
  intro e he
  obtain ⟨b, hb, rfl⟩ := List.mem_map.mp he
  exact (h b hb).isTyped

theorem Edition.fits_of_bind {edition : Edition} {site : CallSite} {bound : Bound site}
    (h : edition.bind site = .ok bound) : ∀ b ∈ bound.1, b.Fits edition.signature := by
  have hbind := bindArguments_of_bind h
  intro b hb
  obtain ⟨argument, -, hparse⟩ := exists_of_mem_bindArguments hbind hb
  obtain ⟨htyped, hty⟩ := Reader.isTyped_of_parse hparse
  exact ⟨mem_of_bindFrom hbind b hb, htyped, hty⟩

theorem Bundle.mem_of_mem_insert {bundle : Bundle} {name : String} {values : List Value}
    {entry : String × List Value} (h : entry ∈ (bundle.insert name values).entries) :
    entry = (name, values) ∨ entry ∈ bundle.entries := by
  rw [insert] at h
  split at h
  · obtain ⟨old, hold, rfl⟩ := List.mem_map.mp h
    split
    · exact .inl rfl
    · exact .inr hold
  · rcases List.mem_append.mp h with h | h
    · exact .inr h
    · exact .inl (List.mem_singleton.mp h)

/-- Every entry of a bundle is from one of the bindings, with values of its expression. -/
theorem Bundle.mem_of_mem_ofBindings {bindings : List Binding} {values : List (List Value)}
    {entry : String × List Value} (h : entry ∈ (ofBindings bindings values).entries) :
    ∃ pair ∈ bindings.zip values, entry.1 = pair.1.parameter.name ∧ ∀ v ∈ entry.2, v ∈ pair.2 := by
  have hfold (pairs : List (Binding × List Value)) (bundle : Bundle)
      (h : entry ∈ (pairs.foldl (fun bundle pair =>
        bundle.insert pair.1.parameter.name
          (if pair.1.parameter.single then pair.2.take 1 else pair.2)) bundle).entries) :
      entry ∈ bundle.entries ∨
        ∃ pair ∈ pairs, entry.1 = pair.1.parameter.name ∧ ∀ v ∈ entry.2, v ∈ pair.2 := by
    induction pairs generalizing bundle with
    | nil => exact .inl h
    | cons pair pairs ih =>
      rcases ih _ h with hentry | ⟨pair', hmem, hsame⟩
      · rcases mem_of_mem_insert hentry with rfl | hentry
        · refine .inr ⟨pair, List.mem_cons_self .., rfl, ?_⟩
          intro v hv
          dsimp only at hv
          split at hv
          · exact List.mem_of_mem_take hv
          · exact hv
        · exact .inl hentry
      · exact .inr ⟨pair', List.mem_cons_of_mem _ hmem, hsame⟩
  rcases hfold _ _ h with hentry | hfound
  · exact absurd hentry List.not_mem_nil
  · exact hfound

/-- A lookup finds an entry, so its values are of the type of the parameter of this name. -/
theorem Bundle.isTyped_of_entries {parameters : List Parameter} {bundle : Bundle}
    (h : ∀ entry ∈ bundle.entries, ∃ p ∈ parameters, p.name = entry.1 ∧ HasTy p.ty entry.2) :
    bundle.IsTyped parameters := by
  refine ⟨h, ?_⟩
  intro distinct p hp hty v hv
  rw [Bundle.get] at hv
  split at hv
  · next entry hentry =>
    -- Names tell parameters apart, so the entry was made for `p`.
    obtain ⟨q, hq, hname, hvalues⟩ := h entry (List.mem_of_find?_eq_some hentry)
    have hsame : entry.1 = p.name := by simpa using List.find?_some hentry
    obtain rfl := List.inj_on_of_nodup_map distinct hq hp (hname.trans hsame)
    exact hvalues hty v hv
  · exact absurd hv List.not_mem_nil

/-- A function runs on arguments of its types if the expressions that are bound to its parameters
have values of theirs. -/
theorem Bundle.isTyped_ofBindings {signature : Signature} {bindings : List Binding}
    {values : List (List Value)} (hfits : ∀ b ∈ bindings, b.Fits signature)
    (hvalues : ∀ pair ∈ bindings.zip values, HasTy pair.1.parameter.ty pair.2) :
    (Bundle.ofBindings bindings values).IsTyped signature.parameters := by
  apply isTyped_of_entries
  intro entry hentry
  obtain ⟨pair, hmem, hname, hsub⟩ := Bundle.mem_of_mem_ofBindings hentry
  have hfit := hfits pair.1 (List.of_mem_zip hmem).1
  exact ⟨pair.1.parameter, hfit.parameter, hname.symm, (hvalues pair hmem).mono hsub⟩

/-! ## What expressions yield -/

theorem State.Declares.of_extends {state after : State} {ty : Ty} {place : Place}
    (h : after.Declares ty place) (hextends : state.Extends after) : state.Declares ty place :=
  fun f hf => h f (hextends.callee place f hf)

/-- Whether the values of an expression are of its type, given that the calls whose values it hands
on have found functions of this type. -/
def Expr.Yields (e : Expr) (place : Place) (state : State) (values : List Value) : Prop :=
  (∀ target, e.HandsOn place target → state.Declares e.ty target) → HasTy e.ty values

/-- The same for the parts of the expression at `place`, from `index` on. -/
def YieldsEach (items : List Expr) (place : Place) (index : Nat) (state : State)
    (values : List (List Value)) : Prop :=
  ∀ (i : Nat) (vs : List Value), values[i]? = some vs →
    ∃ e, items[i]? = some e ∧ e.Yields (place.child (index + i)) state vs

theorem Expr.Yields.of_extends {e : Expr} {place : Place} {state after : State}
    {values : List Value} (h : e.Yields place state values) (hextends : state.Extends after) :
    e.Yields place after values :=
  fun hdeclares => h fun target htarget => (hdeclares target htarget).of_extends hextends

theorem YieldsEach.nil (place : Place) (index : Nat) (state : State) :
    YieldsEach [] place index state [] := fun _ _ h => by simp at h

theorem YieldsEach.cons {e : Expr} {items : List Expr} {place : Place} {index : Nat} {state : State}
    {vs : List Value} {values : List (List Value)} (h : e.Yields (place.child index) state vs)
    (h' : YieldsEach items place (index + 1) state values) :
    YieldsEach (e :: items) place index state (vs :: values) := by
  intro i ws hws
  cases i with
  | zero =>
    obtain rfl : vs = ws := by simpa using hws
    exact ⟨e, rfl, h⟩
  | succ i =>
    obtain ⟨item, hitem, hyields⟩ := h' i ws (by simpa using hws)
    refine ⟨item, by simpa using hitem, ?_⟩
    rwa [Nat.add_right_comm] at hyields

/-- What a call hands back is of the type that its function declares. -/
theorem hasTy_shape {f : Function} {values : List Value} (h : Law.honest.returns f values) {ty : Ty}
    (hdeclares : ∀ declared, f.signature.returns = some declared → declared = ty) :
    HasTy ty (((f.signature.shape values).map Returned.values).getD []) := by
  rw [Signature.shape]
  split
  · exact .nil ty
  · next declared hdeclared =>
    have hvalues := h declared hdeclared
    rw [hdeclares declared hdeclared] at hvalues
    -- Both arities hand back values that the body ended with.
    apply hvalues.mono
    intro v hv
    split at hv
    · cases values with
      | nil => exact absurd hv List.not_mem_nil
      | cons first rest =>
        obtain rfl : v = first := List.mem_singleton.mp hv
        exact List.mem_cons_self ..
    · exact hv

theorem hasTy_convertAll {target : Ty} {values converted : List Value}
    (h : convertAll target values = .ok converted) : HasTy target converted := by
  intro hty
  induction values generalizing converted with
  | nil =>
    cases h
    simp
  | cons v values ih =>
    rw [convertAll_cons] at h
    split at h
    · next w hw =>
      obtain ⟨ws, hws, rfl⟩ := exists_of_map_eq_ok h
      intro v' hv'
      rcases List.mem_cons.mp hv' with rfl | hv'
      · exact Value.ty_of_convert? hw hty
      · exact ih hws v' hv'
    · cases h

/-- The values of a list are of the type that its items have in common. -/
theorem YieldsEach.flatten {items : List Expr} {ty : Ty} {place : Place} {state : State}
    {values : List (List Value)} (h : YieldsEach items place 0 state values)
    (hsame : ty ≠ .any → ∀ item ∈ items, item.ty = ty) :
    (Expr.list items ty).Yields place state values.flatten := by
  intro hdeclares hty v hv
  obtain ⟨vs, hvs, hv⟩ := List.mem_flatten.mp hv
  obtain ⟨i, hi⟩ := List.mem_iff_getElem?.mp hvs
  obtain ⟨item, hitem, hyields⟩ := h i vs hi
  rw [Nat.zero_add] at hyields
  have hitemTy : item.ty = ty := hsame hty item (List.mem_of_getElem? hitem)
  have hvalues : HasTy item.ty vs := hyields fun target htarget => by
    rw [hitemTy]
    exact hdeclares target (.list hitem htarget)
  rw [hitemTy] at hvalues
  exact hvalues hty v hv

/-- What bound arguments yield is of the types of their parameters, if the functions that were found
for them agree with that. -/
theorem YieldsEach.hasTy_of_agrees {f : Function} {bindings : List Binding} {place : Place}
    {state : State} {values : List (List Value)}
    (h : YieldsEach (bindings.map Binding.expr) place 0 state values)
    (hfits : ∀ b ∈ bindings, b.Fits f.signature) (hagrees : state.Agrees place bindings) :
    ∀ pair ∈ bindings.zip values, HasTy pair.1.parameter.ty pair.2 := by
  rintro ⟨b, vs⟩ hpair hty
  obtain ⟨i, hi⟩ := List.mem_iff_getElem?.mp hpair
  obtain ⟨hb, hvs⟩ := List.getElem?_zip_eq_some.mp hi
  obtain ⟨e, he, hyields⟩ := h i vs hvs
  obtain rfl : b.expr = e := by simpa [hb] using he
  have hsame := (hfits b (List.mem_of_getElem? hb)).ty hty
  rw [Nat.zero_add, Expr.Yields, hsame] at hyields
  exact hyields (hagrees i b hb hty) hty

/-! ## Evaluation keeps to the types -/

/-- Whether the expressions that a function shares between its runs are typed. -/
def Function.SharesTyped (f : Function) : Prop := ∀ x ∈ f.shared, x.item.IsTyped

/-- What is known of types in a state: the shared expressions are typed, and a call site remembers
how its arguments were bound only together with the function they were bound for. -/
structure State.IsTyped (registry : Registry) (state : State) : Prop where
  registered : ∀ f ∈ registry.functions, f.SharesTyped
  recalled : state.Recalls Function.SharesTyped
  matched : ∀ place, (state.pins.get place).IsMatched

namespace State.IsTyped

variable {registry : Registry} {state after : State}

/-- A change of what no call site remembers. -/
theorem of_eq (h : state.IsTyped registry) (hpins : after.pins = state.pins) :
    after.IsTyped registry where
  registered := h.registered
  recalled place f hf := h.recalled place f (hpins ▸ hf)
  matched place := hpins ▸ h.matched place

/-- A call site may remember another function, and how arguments were bound for that function. -/
theorem repinned (h : state.IsTyped registry) {place : Place} {pin : Pin}
    (hpin : state.Repinned place pin after) (hcallee : ∀ f, pin.callee = some f → f.SharesTyped)
    (hmatched : pin.IsMatched) : after.IsTyped registry where
  registered := h.registered
  recalled other f hf := by
    rw [hpin.pins] at hf
    split at hf
    · exact hcallee f hf
    · exact h.recalled other f hf
  matched other := by
    rw [hpin.pins]
    split
    · exact hmatched
    · exact h.matched other

/-- The arguments of a call that can be prepared are bound for the function it calls. -/
theorem exists_edition (h : state.IsTyped registry) {space : String} {place : Place}
    {site : CallSite} {f : Function} {bound : Bound site}
    (hpure : ((state.pins.get place).prepare registry space site).1 = .ok (f, bound)) :
    ∃ edition, ((state.pins.get place).prepare registry space site).2.edition = some edition ∧
      edition.signature = f.signature ∧ edition.bind site = .ok bound :=
  (h.matched place).exists_edition hpure

theorem fits_of_prepare (h : state.IsTyped registry) {space : String} {place : Place}
    {site : CallSite} {f : Function} {bound : Bound site}
    (hrun : (site.prepare registry space place).runIn state = (.ok (f, bound), after)) :
    ∀ b ∈ bound.1, b.Fits f.signature := by
  obtain ⟨hpure, -⟩ := prepare_of_runIn_ok hrun
  obtain ⟨edition, -, hsignature, hbind⟩ := h.exists_edition hpure
  rw [← hsignature]
  exact edition.fits_of_bind hbind

/-- Preparing a call keeps to the types. -/
theorem of_prepare (h : state.IsTyped registry) {space : String} {place : Place} {site : CallSite}
    (hpin : state.Repinned place ((state.pins.get place).prepare registry space site).2 after) :
    after.IsTyped registry := by
  refine h.repinned hpin ?_ (h.matched place).prepare
  intro f hf
  rw [Pin.callee_prepare] at hf
  exact known_of_found h.registered h.recalled hf

/-- The same, for what preparing a call is found to do. -/
theorem of_runIn_prepare (h : state.IsTyped registry) {space : String} {place : Place}
    {site : CallSite} {found : Except Fault (Function × Bound site)}
    (hrun : (site.prepare registry space place).runIn state = (found, after)) :
    after.IsTyped registry := by
  obtain ⟨-, hpin⟩ := runIn_prepare registry space place site state
  rw [hrun] at hpin
  exact h.of_prepare hpin

end State.IsTyped

/-- What a task starts from. -/
def Task.IsTyped : {α : Type} → Task α → Prop
  | _, eval _ _ _ e => e.IsTyped
  | _, evalEach _ _ _ _ items => ∀ item ∈ items, item.IsTyped
  | _, execute _ _ _ _ _ => True
  | _, invoke _ f _ => f.SharesTyped
  | _, converse _ _ exprs => ∀ x ∈ exprs, x.item.IsTyped
  | _, validate _ _ => True
  | _, validateEach _ _ _ => True

/-- What the values are that a task ends with. -/
def Task.Yields : {α : Type} → Task α → α → State → Prop
  | _, eval _ _ place e, values, after => e.Yields place after values
  | _, evalEach _ _ place index items, values, after => YieldsEach items place index after values
  | _, execute _ _ _ place _, returned, after =>
    ∃ f, (after.pins.get place).callee = some f ∧
      ∀ ty, (∀ declared, f.signature.returns = some declared → declared = ty) →
        HasTy ty ((returned.map Returned.values).getD [])
  | _, invoke _ f _, values, _ => Law.honest.returns f values
  | _, converse _ _ _, _, _ => True
  | _, validate _ _, _, _ => True
  | _, validateEach _ _ _, _, _ => True

variable {registry : Registry} {maxDepth : Nat} {law : Law} {α : Type} {task : Task α}
  {state after : State} {outcome : Except Fault α}

/-- An evaluation keeps to the types; and so do the values it ends with, if bodies return what they
declare. -/
theorem Derives.isTyped (h : Derives registry maxDepth law task state outcome after)
    (hstate : state.IsTyped registry) (htask : task.IsTyped) :
    after.IsTyped registry ∧
      (law.IsHonest → ∀ result, outcome = .ok result → task.Yields result after) := by
  induction h with
  | literal | template =>
    refine ⟨hstate, ?_⟩
    intro _ _ hresult
    cases hresult
    intro _ _ v hv
    rw [List.mem_singleton.mp hv]
    rfl
  | reference =>
    -- Nothing is promised about a variable.
    exact ⟨hstate, fun _ _ _ _ hty => absurd rfl hty⟩
  | list _ ih =>
    cases htask with
    | list parts same =>
      obtain ⟨hafter, hvalues⟩ := ih hstate parts
      refine ⟨hafter, ?_⟩
      intro hhonest _ hresult
      obtain ⟨values, hvalues', rfl⟩ := exists_of_map_eq_ok hresult
      exact (hvalues hhonest values hvalues').flatten same
  | converted _ ih =>
    cases htask with
    | converted part =>
      -- A conversion gives values of its type, whatever it is given.
      obtain ⟨hafter, -⟩ := ih hstate part
      refine ⟨hafter, ?_⟩
      intro _ _ hresult
      obtain ⟨values, -, hconverted⟩ := exists_of_bind_eq_ok hresult
      exact fun _ => hasTy_convertAll hconverted
  | call _ ih =>
    -- The call hands on its own values, so the function it has found must declare its type.
    obtain ⟨hafter, hreturned⟩ := ih hstate trivial
    refine ⟨hafter, ?_⟩
    intro hhonest _ hresult
    obtain ⟨returned, hok, rfl⟩ := exists_of_map_eq_ok hresult
    obtain ⟨f, hf, hvalues⟩ := hreturned hhonest returned hok
    exact fun hdeclares => hvalues _ (hdeclares _ .call f hf)
  | evalNil =>
    refine ⟨hstate, ?_⟩
    intro _ _ hresult
    cases hresult
    exact YieldsEach.nil _ _ _
  | evalFails _ ih =>
    obtain ⟨hafter, -⟩ := ih hstate (htask _ (List.mem_cons_self ..))
    exact ⟨hafter, fun _ _ hresult => by cases hresult⟩
  | evalCons _ rest ih ih' =>
    obtain ⟨hmiddle, hhead⟩ := ih hstate (htask _ (List.mem_cons_self ..))
    obtain ⟨hafter, hrest⟩ :=
      ih' hmiddle fun item hitem => htask item (List.mem_cons_of_mem _ hitem)
    refine ⟨hafter, ?_⟩
    intro hhonest _ hresult
    obtain ⟨values, hok, rfl⟩ := exists_of_map_eq_ok hresult
    exact .cons ((hhead hhonest _ rfl).of_extends rest.extends) (hrest hhonest values hok)
  | unprepared prepared =>
    exact ⟨hstate.of_runIn_prepare prepared, fun _ _ hresult => by cases hresult⟩
  | argumentFails prepared _ ih =>
    have hfits := hstate.fits_of_prepare prepared
    obtain ⟨hafter, -⟩ := ih (hstate.of_runIn_prepare prepared) (isTyped_of_fits hfits)
    exact ⟨hafter, fun _ _ hresult => by cases hresult⟩
  | executed prepared arguments _ invoked ih ih' =>
    have hfits := hstate.fits_of_prepare prepared
    obtain ⟨hcalled, -⟩ := ih (hstate.of_runIn_prepare prepared) (isTyped_of_fits hfits)
    have hshared := known_of_prepare hstate.registered hstate.recalled prepared
    obtain ⟨hafter, hreturned⟩ := ih' hcalled hshared
    refine ⟨hafter, ?_⟩
    intro hhonest _ hresult
    obtain ⟨values, hok, rfl⟩ := exists_of_map_eq_ok hresult
    -- The call site remembers the function since it was prepared.
    have hcallee := (arguments.extends.trans invoked.extends).callee _ _ (callee_of_prepare prepared)
    refine ⟨_, hcallee, ?_⟩
    intro ty
    exact hasTy_shape (hreturned hhonest values hok)
  | noRoom => exact ⟨hstate, fun _ _ hresult => by cases hresult⟩
  | invoked _ kept ih =>
    obtain ⟨hafter, -⟩ := ih (hstate.of_eq rfl) htask
    exact ⟨hafter, fun hhonest values hvalues => hhonest _ _ (kept values hvalues)⟩
  | done => exact ⟨hstate, fun _ _ _ => trivial⟩
  | draw _ ih =>
    obtain ⟨random, hdrawn⟩ := State.exists_random_of_drawn _ _ _
    rw [hdrawn] at ih
    exact ih (hstate.of_eq rfl) htask
  | unread _ _ ih | tooDeep _ _ ih => exact ih hstate htask
  | read accepted _ ih => exact ih (hstate.of_eq rfl) (Reader.isTyped_push accepted htask)
  | evaluated _ _ _ ih ih' =>
    exact ih' (ih hstate (htask _ (Vector.getElem_mem _))).1 htask
  | validLiteral | validTemplate | validReference | validNil =>
    exact ⟨hstate, fun _ _ _ => trivial⟩
  | validList _ ih | validConverted _ ih => exact ih hstate trivial
  | validFails _ ih =>
    obtain ⟨hafter, -⟩ := ih hstate trivial
    exact ⟨hafter, fun _ _ _ => trivial⟩
  | invalidCall prepared => exact ⟨hstate.of_runIn_prepare prepared, fun _ _ _ => trivial⟩
  | validCall prepared _ ih => exact ih (hstate.of_runIn_prepare prepared) trivial
  | validCons _ _ ih ih' => exact ih' (ih hstate trivial).1 trivial

/-! ## A call whose argument is a call -/

/-- A function that ends with one value, of the type that it declares. -/
def Function.constant (name : String) (v : Value) : Function :=
  .simple ⟨"", name, [], some v.ty, true⟩ fun _ _ => .done (.ok [v])

/-- A function of one truth value that returns nothing. -/
def Function.sink (name : String) : Function :=
  .simple ⟨"", name, [⟨"x", .boolean, true, false⟩], none, true⟩ fun _ _ => .done (.ok [])

/-- The call that is written `f(g())`. -/
def nestedCall : CallSite := ⟨"", "f", [⟨none, "g()"⟩]⟩

/-- How the argument of `f(g())` is bound while `g` returns a truth value: with no conversion. -/
def nestedBinding : Binding := ⟨⟨"x", .boolean, true, false⟩, .call ⟨"", "g", []⟩ .boolean true⟩

theorem Form.read_nested : Form.read "g()".toList = .call "g" [] := by
  rw [Form.read_eq]
  have houtline : Outline.ofText (Text.trim "g()".toList) = .call "g" [] := rfl
  rw [houtline]
  rfl

/-- The argument of `f(g())` can be bound while `g` returns a truth value. -/
theorem Edition.exists_bind_nestedCall {edition : Edition} {b : Bool}
    (hf : edition.signature = (Function.sink "f").signature) (hspace : edition.reader.space = "")
    (hg : edition.reader.signature? "g" = some (Function.constant "g" (.boolean b)).signature) :
    ∃ bound, edition.bind nestedCall = .ok bound ∧ bound.1 = [nestedBinding] := by
  have hparse : edition.reader.parse "g()" .boolean = .ok nestedBinding.expr := by
    rw [Reader.parse, Form.read_nested, Reader.type, Reader.typeCall, hg, hspace]
    rfl
  have hfit : fit edition.reader.parse nestedBinding.parameter ⟨none, "g()"⟩ =
      .ok nestedBinding.expr := by
    rw [fit, show nestedBinding.parameter.ty = .boolean from rfl, hparse]
    rfl
  have hbind : bindArguments edition.reader.parse edition.signature nestedCall.arguments =
      .ok [nestedBinding] := by
    rw [hf]
    show (fit edition.reader.parse nestedBinding.parameter ⟨none, "g()"⟩).bind _ = _
    rw [hfit]
    rfl
  exact ⟨_, Edition.bind_of_ok hbind, rfl⟩

section

variable {registry : Registry} {maxDepth room : Nat} {law : Law} {scope : Scope} {place : Place}
  {state : State} {v : Value}

/-- The call `g()` can be prepared if `g` has no parameters. -/
theorem exists_prepare_plainCall {f : Function} (hg : registry.lookup "g" "" = some f)
    (hplain : f.signature.parameters = []) : ∃ bound : Bound ⟨"", "g", []⟩,
      (({} : Pin).prepare registry "" ⟨"", "g", []⟩).1 = .ok (f, bound) ∧ bound.1 = [] := by
  have hbind : bindArguments (registry.reader "").parse f.signature [] = .ok [] := by
    rw [bindArguments, hplain]
    rfl
  exact ⟨_, Pin.prepare_eq_ok.mpr ⟨hg, Edition.bind_of_ok hbind⟩, rfl⟩

/-- Executing `g()` at a call site that remembers nothing, where `g` has no parameters. -/
theorem exists_derives_plainCall {f : Function} (values : List Value)
    (hunused : state.pins.get place = {}) (hg : registry.lookup "g" "" = some f)
    (hplain : f.signature.parameters = []) (hpasses : ∀ called, law.passes called place [])
    (hinvoke : ∀ arguments called, ∃ after,
      Derives registry maxDepth law (.invoke room f arguments) called (.ok values) after) :
    ∃ after, Derives registry maxDepth law (.execute room scope "" place ⟨"", "g", []⟩) state
        (.ok (f.signature.shape values)) after ∧
      (after.pins.get place).callee = some f := by
  obtain ⟨bound, hpure, hnil⟩ := exists_prepare_plainCall hg hplain
  rw [← hunused] at hpure
  obtain ⟨middle, hprepared, hpin⟩ := exists_runIn_prepare hpure
  have harguments : Derives registry maxDepth law
      (.evalEach room scope place 0 (bound.1.map Binding.expr)) middle (.ok []) middle := by
    rw [hnil]
    exact .evalNil
  obtain ⟨after, hinvoked⟩ := hinvoke (Bundle.ofBindings bound.1 []) middle
  refine ⟨after, .executed hprepared harguments (hnil ▸ hpasses _) hinvoked, ?_⟩
  exact hinvoked.extends.callee _ _ (callee_of_prepare hprepared)

/-- Executing a call of a function that is not remembered yet, and that ends with one value. -/
theorem exists_derives_constant (hunused : state.pins.get place = {})
    (hg : registry.lookup "g" "" = some (.constant "g" v))
    (hreturns : law.returns (.constant "g" v) [v])
    (hpasses : ∀ called, law.passes called place []) :
    ∃ after, Derives registry maxDepth law (.execute (room + 1) scope "" place ⟨"", "g", []⟩) state
        (.ok (some (.single v))) after ∧
      (after.pins.get place).callee = some (.constant "g" v) := by
  refine exists_derives_plainCall [v] hunused hg rfl hpasses ?_
  intro arguments called
  exact ⟨_, .invoked .done fun values h => by cases h; exact hreturns⟩

/-- Evaluating the argument of `f(g())`, once it is bound without a conversion. -/
theorem exists_derives_nestedArgument (maxDepth room : Nat) (scope : Scope)
    {bound : Bound nestedCall}
    (hpure : ((state.pins.get place).prepare registry "" nestedCall).1 = .ok (.sink "f", bound))
    (hbound : bound.1 = [nestedBinding]) (hunused : state.pins.get (place.child 0) = {})
    (hg : registry.lookup "g" "" = some (.constant "g" v))
    (hreturns : law.returns (.constant "g" v) [v])
    (hpasses : ∀ called, law.passes called (place.child 0) []) :
    ∃ middle called,
      (nestedCall.prepare registry "" place).runIn state = (.ok (.sink "f", bound), middle) ∧
      Derives registry maxDepth law
        (.evalEach (room + 1) scope place 0 (bound.1.map Binding.expr)) middle (.ok [[v]]) called ∧
      (called.pins.get (place.child 0)).callee = some (.constant "g" v) := by
  obtain ⟨middle, hprepared, hpin⟩ := exists_runIn_prepare hpure
  have hne : place ≠ place.child 0 := fun h => by
    have := congrArg (fun p => p.path.length) h
    simp [Place.child] at this
  have hunused' : middle.pins.get (place.child 0) = {} := by rw [hpin.pins_of_ne hne, hunused]
  obtain ⟨called, hcall, hcallee⟩ : ∃ called, Derives registry maxDepth law
      (.execute (room + 1) scope "" (place.child 0) ⟨"", "g", []⟩) middle
        (.ok (some (.single v))) called ∧
      (called.pins.get (place.child 0)).callee = some (.constant "g" v) :=
    exists_derives_constant hunused' hg hreturns hpasses
  have hargument : Derives registry maxDepth law
      (.eval (room + 1) scope (place.child 0) nestedBinding.expr) middle
        ((Except.ok (some (.single v))).map fun r => (r.map Returned.values).getD []) called :=
    .call hcall
  refine ⟨middle, called, hprepared, ?_, hcallee⟩
  rw [hbound]
  exact .evalCons hargument .evalNil

/-- Executing `f(g())`, with its argument bound without a conversion. -/
theorem exists_derives_nestedCall {bound : Bound nestedCall}
    (hpure : ((state.pins.get place).prepare registry "" nestedCall).1 = .ok (.sink "f", bound))
    (hbound : bound.1 = [nestedBinding]) (hunused : state.pins.get (place.child 0) = {})
    (hg : registry.lookup "g" "" = some (.constant "g" v))
    (hreturns : law.returns (.constant "g" v) [v]) (hreturns' : law.returns (.sink "f") [])
    (hpasses : ∀ called, law.passes called (place.child 0) [])
    (hpasses' : ∀ called, (called.pins.get (place.child 0)).callee = some (.constant "g" v) →
      law.passes called place [nestedBinding]) :
    ∃ after, Derives registry maxDepth law (.execute (room + 1) scope "" place nestedCall) state
        (.ok none) after ∧
      ⟨.sink "f", ⟨[("x", [v])]⟩, maxDepth - room⟩ ∈ after.history := by
  obtain ⟨middle, called, hprepared, harguments, hcallee⟩ :=
    exists_derives_nestedArgument maxDepth room scope hpure hbound hunused hg hreturns hpasses
  have hinvoked : Derives registry maxDepth law
      (.invoke (room + 1) (.sink "f") (Bundle.ofBindings bound.1 [[v]])) called (.ok []) _ :=
    .invoked .done fun values h => by cases h; exact hreturns'
  refine ⟨_, .executed hprepared harguments (hbound ▸ hpasses' _ hcallee) hinvoked, ?_⟩
  rw [hbound]
  exact List.mem_cons_self ..

/-- The argument of `f(g())` has found a function of the type of the parameter, if `g` was not
replaced. -/
theorem agrees_nestedBinding {b : Bool}
    (h : (state.pins.get (place.child 0)).callee = some (.constant "g" (.boolean b))) :
    state.Agrees place [nestedBinding] := by
  intro index binding hbinding _ target handed
  cases index with
  | succ index => simp at hbinding
  | zero =>
    cases hbinding
    cases handed
    intro f hf declared hdeclared
    rw [h] at hf
    cases hf
    cases hdeclared
    rfl

end

namespace Session

/-- A session in which `f` and `g` were registered and `f(g())` was made, while `g` returns a truth
value. -/
def nestedSession : Session where
  registry := (({} : Registry).register (.sink "f")).register (.constant "g" (.boolean true))
  state := { nextRoot := 1 }
  sites := [⟨0, nestedCall⟩]

theorem not_mem_shared (x : Rooted Expr) (shared : Vector (Rooted Expr) 0) : x ∉ shared := by
  have hempty : shared = #v[] := Vector.eq_empty
  simp [hempty]

theorem reached_nestedSession (law : Law) : Reached law nestedSession := by
  have hstart : Reached law {} := .refl
  have hsink := hstart.tail
    (.register (f := .sink "f") fun x hx => (not_mem_shared x _ hx).elim)
  have hconstant := hsink.tail
    (.register (f := .constant "g" (.boolean true)) fun x hx => (not_mem_shared x _ hx).elim)
  exact hconstant.tail (.make nestedCall)

/-- In this session the call can be prepared, with its argument bound without a conversion. -/
theorem exists_prepare_nestedSession : ∃ bound,
    (({} : Pin).prepare nestedSession.registry "" nestedCall).1 = .ok (.sink "f", bound) ∧
      bound.1 = [nestedBinding] := by
  obtain ⟨bound, hbound, hnested⟩ : ∃ bound,
      Edition.bind ⟨(Function.sink "f").signature, nestedSession.registry.reader ""⟩ nestedCall =
        .ok bound ∧ bound.1 = [nestedBinding] :=
    Edition.exists_bind_nestedCall (b := true) rfl rfl rfl
  exact ⟨bound, Pin.prepare_eq_ok.mpr ⟨rfl, hbound⟩, hnested⟩

/-- The call may be prepared before anything else happens. -/
theorem exists_prepared_nestedSession (law : Law) : ∃ prepared,
    Reached law (nestedSession.moved prepared) ∧ nestedSession.state.Repinned ⟨0, []⟩
      (({} : Pin).prepare nestedSession.registry "" nestedCall).2 prepared := by
  have hpin := of_runIn_prepare ⟨nestedSession.registry, "", .top 256⟩ ⟨0, nestedCall⟩
    nestedSession.state
  have hstep := @Step.prepare law nestedSession ⟨0, nestedCall⟩ "" (.top 256)
    (List.mem_singleton_self _)
  rw [nestedSession, Pins.get_empty] at hpin
  exact ⟨_, (reached_nestedSession law).tail hstep, hpin⟩

theorem honest_sink (name : String) : Law.honest.returns (.sink name) [] := fun ty _ => .nil ty

theorem honest_constant (name : String) (v : Value) :
    Law.honest.returns (.constant name v) [v] := by
  intro ty hty _ w hw
  cases hty
  rw [List.mem_singleton.mp hw]

end Session

/-! ## Sessions keep to the types -/

namespace Session

/-- What is known of types in a session. -/
structure IsTyped (session : Session) : Prop where
  state : session.state.IsTyped session.registry
  read : ∀ x ∈ session.read, x.item.IsTyped

theorem IsTyped.start : IsTyped {} where
  state := {
    registered := fun _ h => absurd h List.not_mem_nil
    recalled := fun place f hf => by rw [Pins.get_empty] at hf; cases hf
    matched := fun place => by rw [Pins.get_empty]; exact .empty }
  read _ h := absurd h List.not_mem_nil

theorem IsTyped.of_holds {session : Session} (h : session.IsTyped) {x : Rooted Expr}
    (hx : session.Holds x) : x.item.IsTyped := by
  rcases hx with hx | ⟨site, -, single, rfl⟩
  · exact h.read x hx
  · exact .call

theorem IsTyped.step {law : Law} {session after : Session} (h : session.IsTyped)
    (hstep : Step law session after) : after.IsTyped := by
  cases hstep with
  | register shared =>
    -- What call sites remember is not touched; in particular they keep the function that is replaced.
    refine ⟨⟨?_, h.state.recalled, h.state.matched⟩, h.read⟩
    intro g hg
    rcases Registry.mem_register hg with rfl | hg
    · exact fun x hx => h.of_holds (shared x hx)
    · exact h.state.registered g hg
  | parse accepted =>
    obtain ⟨hparse, -, rfl⟩ := of_runIn_parse accepted
    refine ⟨h.state.of_eq rfl, ?_⟩
    intro x hx
    rcases List.mem_cons.mp hx with rfl | hx
    · exact (Reader.isTyped_of_parse hparse).1
    · exact h.read x hx
  | make | reseed => exact ⟨h.state.of_eq rfl, h.read⟩
  | @resolve site space context known =>
    rcases of_runIn_resolve ⟨session.registry, space, context⟩ site session.state with
      hsame | ⟨f, hfound, hpin⟩
    · rw [hsame]
      exact h
    · refine ⟨h.state.repinned hpin ?_ ((h.state.matched _).resolved hfound), h.read⟩
      intro g hg
      cases hg
      exact known_of_found h.state.registered h.state.recalled hfound
  | @prepare site space context known =>
    exact ⟨h.state.of_prepare (of_runIn_prepare ⟨session.registry, space, context⟩ site _), h.read⟩
  | execute _ ran | validate _ ran => exact ⟨(ran.isTyped h.state trivial).1, h.read⟩
  | evaluate known ran => exact ⟨(ran.isTyped h.state (h.read _ known)).1, h.read⟩

theorem Reached.isTyped {law : Law} {session : Session} (h : Reached law session) :
    session.IsTyped := by
  induction h with
  | refl => exact .start
  | tail _ hstep ih => exact ih.step hstep

end Session

end CallScript

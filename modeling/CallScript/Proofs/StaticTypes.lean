import Mathlib.Data.List.Forall2
import CallScript.Proofs.Checking
import CallScript.Proofs.Layout
import CallScript.Proofs.ArgumentTypes

/-!
# What a text promises of its values

An expression that was read from a text comes with a type and an arity. This module says in what
sense they can be relied on while no function is registered: whenever the expression is evaluated
later, however often and whatever else happens in between, its values are of its type, and there is
at most one of them if it stands for one value (`Session.read_promises_values`). All that is asked
for is that the registered functions return values of the types that they declare.

A conversion makes its own values, a variable promises nothing, and so the promise rests on the
calls whose values an expression hands on: those in its *result positions* (`Expr.ResultCall`). What
is noted at such a call when the text is read is what its function declares at that moment
(`Reader.notes_of_type`). When the expression is evaluated, the same function is found, since
what the call site remembers, if it remembers anything, agrees with the registry of now
(`State.AgreesWith`). So agreement is the invariant of all that may happen, for one expression and
the layout that covers it; and where it holds values are as promised (`Derives.promised`).
-/

namespace CallScript

/-! ## Calls in result positions -/

/-- The calls whose values an expression hands on, converted or not, with the type and the arity
that are noted at them. -/
inductive Expr.ResultCall : Expr → CallSite → Ty → Bool → Prop where
  | call {site ty single} : ResultCall (.call site ty single) site ty single
  | list {items : List Expr} {ty item site callTy single} (part : item ∈ items)
      (result : ResultCall item site callTy single) : ResultCall (.list items ty) site callTy single
  | converted {inner target site callTy single} (result : ResultCall inner site callTy single) :
      ResultCall (.converted inner target) site callTy single

/-- What a reader notes at a call, where a value of type `target` is wanted. -/
structure Reader.Notes (r : Reader) (target : Ty) (site : CallSite) (ty : Ty) (single : Bool) :
    Prop where
  space : site.space = r.space
  declared : ∀ signature, r.signature? site.name = some signature →
    ty = signature.ty ∧ single = signature.single ∧ (target ≠ .any → signature.returns ≠ none)

/-- A conversion has the calls of what is converted in its result positions. -/
theorem Expr.resultCall_of_coerce {target : Ty} {e e' : Expr} (h : e.coerce target = .ok e')
    {site : CallSite} {ty : Ty} {single : Bool} (hcall : e'.ResultCall site ty single) :
    e.ResultCall site ty single := by
  unfold coerce at h
  split at h
  · split at h
    · cases h
      exact hcall
    · cases h
      cases hcall with
      | converted result => exact result
  · cases h

namespace Reader

theorem notes_of_typeCall {r : Reader} {target : Ty} {name : String}
    {arguments : List RawArgument} {e : Expr} (h : r.typeCall target name arguments = .ok e)
    {site : CallSite} {ty : Ty} {single : Bool} (hcall : e.ResultCall site ty single) :
    r.Notes target site ty single := by
  unfold typeCall at h
  split at h
  · next hnone =>
    cases Expr.resultCall_of_coerce h hcall
    refine ⟨rfl, ?_⟩
    intro signature hsignature
    rw [hnone] at hsignature
    cases hsignature
  · next declared hdeclared =>
    split at h
    · cases h
    · next hreturns =>
      cases Expr.resultCall_of_coerce h hcall
      refine ⟨rfl, ?_⟩
      intro signature hsignature
      rw [hdeclared] at hsignature
      cases hsignature
      exact ⟨rfl, rfl, fun hany hnothing => hreturns ⟨hnothing, hany⟩⟩

mutual

/-- What is noted at the calls in result positions is what their functions declare. -/
theorem notes_of_type {r : Reader} {target : Ty} {form : Form} {e : Expr}
    (h : r.type target form = .ok e) {site : CallSite} {ty : Ty} {single : Bool}
    (hcall : e.ResultCall site ty single) : r.Notes target site ty single := by
  cases form with
  | unreadable => simp [type] at h
  | text content =>
    simp only [type] at h
    split at h <;> cases Expr.resultCall_of_coerce h hcall
  | boolean _ | number _ | reference _ =>
    simp only [type] at h
    cases Expr.resultCall_of_coerce h hcall
  | list items =>
    simp only [type] at h
    obtain ⟨es, hes, h⟩ := exists_of_bind_eq_ok h
    cases Expr.resultCall_of_coerce h hcall with
    | list part result => exact notes_of_typeAll hes part result
  | call name arguments =>
    simp only [type] at h
    exact notes_of_typeCall h hcall

theorem notes_of_typeAll {r : Reader} {target : Ty} {forms : List Form} {es : List Expr}
    (h : r.typeAll target forms = .ok es) {e : Expr} (he : e ∈ es) {site : CallSite} {ty : Ty}
    {single : Bool} (hcall : e.ResultCall site ty single) : r.Notes target site ty single := by
  cases forms with
  | nil =>
    simp only [typeAll, Except.ok.injEq] at h
    subst h
    cases he
  | cons form forms =>
    simp only [typeAll] at h
    obtain ⟨first, hfirst, h⟩ := exists_of_bind_eq_ok h
    obtain ⟨rest, hrest, h⟩ := exists_of_bind_eq_ok h
    cases h
    rcases List.mem_cons.mp he with rfl | he
    · exact notes_of_type hfirst hcall
    · exact notes_of_typeAll hrest he hcall

end

end Reader

/-! ## The items of a list -/

/-- The items of a list are what their forms stand for, in order. -/
theorem Reader.forall₂_of_typeAll {r : Reader} {target : Ty} {forms : List Form} {es : List Expr}
    (h : r.typeAll target forms = .ok es) :
    List.Forall₂ (fun form e => r.type target form = .ok e) forms es := by
  induction forms generalizing es with
  | nil =>
    simp only [typeAll, Except.ok.injEq] at h
    subst h
    exact .nil
  | cons form forms ih =>
    simp only [typeAll] at h
    obtain ⟨first, hfirst, h⟩ := exists_of_bind_eq_ok h
    obtain ⟨rest, hrest, h⟩ := exists_of_bind_eq_ok h
    cases h
    exact .cons hfirst (ih hrest)

/-- A list whose items are all of the wanted type is of that type. -/
theorem commonTy_eq {target : Ty} {items : List Expr} (h : ∀ item ∈ items, item.ty = target) :
    commonTy target items = target := by
  cases items with
  | nil => rfl
  | cons first rest =>
    have hfirst := h first (List.mem_cons_self ..)
    have hall : (rest.all fun other => other.ty = first.ty) = true := by
      rw [List.all_eq_true]
      intro other hother
      rw [decide_eq_true_eq, hfirst]
      exact h other (List.mem_cons_of_mem _ hother)
    rw [commonTy, if_pos hall, hfirst]

/-- A list that is read where a particular type is wanted is of that type. -/
theorem Reader.commonTy_of_typeAll {r : Reader} {target : Ty} {forms : List Form} {es : List Expr}
    (h : r.typeAll target forms = .ok es) (htarget : target ≠ .any) :
    commonTy target es = target := by
  apply commonTy_eq
  intro item hitem
  obtain ⟨i, hi⟩ := List.mem_iff_getElem?.mp hitem
  obtain ⟨hlt, rfl⟩ := List.getElem?_eq_some_iff.mp hi
  have hform := (forall₂_of_typeAll h).get ((forall₂_of_typeAll h).length_eq ▸ hlt) hlt
  exact (isTyped_of_type hform).2 htarget

/-! ## What evaluation keeps to -/

/-- The law that the registered functions return values of the types that they declare. -/
def Registry.honest (registry : Registry) : Law where
  returns f values := f ∈ registry.functions → Law.honest.returns f values
  passes _ _ _ := True

/-- Whether what is noted at the calls in result positions is what the functions that they find
declare. -/
def Expr.IsNoted (registry : Registry) (e : Expr) : Prop :=
  ∀ site ty single, e.ResultCall site ty single →
    ∀ f, registry.lookup site.name site.space = some f →
      f.signature.ty = ty ∧ f.signature.single = single

/-- Whether values are of the type and the arity of an expression, given that the expression is
typed and that what is noted in it is right. -/
def Expr.Promised (registry : Registry) (e : Expr) (values : List Value) : Prop :=
  e.IsTyped → e.IsNoted registry → HasTy e.ty values ∧ (e.single = true → values.length ≤ 1)

/-- Whether a layout has the calls that a task comes to, those in functions apart. -/
def Task.IsLaidOut (registry : Registry) (layout : Layout) : {α : Type} → Task α → Prop
  | _, eval _ _ place e => layout.Covers place (registry.callAt e)
  | _, evalEach _ _ place index items => layout.CoversEach registry place index items
  | _, execute _ _ space place site => layout.Covers place (registry.siteAt space site)
  | _, invoke _ _ _ => True
  | _, converse _ _ _ => True
  | _, validate place e => layout.Covers place (registry.callAt e)
  | _, validateEach place index items => layout.CoversEach registry place index items

/-- What is promised of the values that a task ends with. -/
def Task.Promises (registry : Registry) : {α : Type} → Task α → α → Prop
  | _, eval _ _ _ e, values => e.Promised registry values
  | _, evalEach _ _ _ _ items, values => List.Forall₂ (Expr.Promised registry) items values
  | _, execute _ _ _ _ site, returned =>
    ∃ f, registry.lookup site.name site.space = some f ∧
      HasTy f.signature.ty ((returned.map Returned.values).getD []) ∧
      (f.signature.single = true → ((returned.map Returned.values).getD []).length ≤ 1)
  | _, _, _ => True

/-- A function that returns one value hands back no more than that. -/
theorem Signature.length_shape_le {signature : Signature} (h : signature.single = true)
    (values : List Value) :
    (((signature.shape values).map Returned.values).getD []).length ≤ 1 := by
  rw [shape]
  split
  · exact Nat.zero_le 1
  · rw [if_pos h]
    cases values with
    | nil => exact Nat.zero_le 1
    | cons v rest => exact Nat.le_refl 1

/-- Conversion gives a value for each value. -/
theorem length_of_convertAll {target : Ty} {values converted : List Value}
    (h : convertAll target values = .ok converted) : converted.length = values.length := by
  induction values generalizing converted with
  | nil =>
    cases h
    rfl
  | cons v values ih =>
    rw [convertAll_cons] at h
    split at h
    · obtain ⟨rest, hrest, rfl⟩ := exists_of_map_eq_ok h
      rw [List.length_cons, List.length_cons, ih hrest]
    · cases h

section

variable {registry : Registry} {maxDepth : Nat} {law : Law}

/-- The values of a list are of its type if those of its items are of theirs. -/
theorem promised_list {items : List Expr} {ty : Ty} {values : List (List Value)}
    (h : List.Forall₂ (Expr.Promised registry) items values) :
    (Expr.list items ty).Promised registry values.flatten := by
  intro htyped hnoted
  refine ⟨?_, fun hsingle => by cases hsingle⟩
  cases htyped with
  | list parts same =>
    intro hty v hv
    obtain ⟨vs, hvs, hv⟩ := List.mem_flatten.mp hv
    obtain ⟨i, hi, rfl⟩ := List.mem_iff_getElem.mp hvs
    have hlength : items.length = values.length := h.length_eq
    have hitem : items[i] ∈ items := List.getElem_mem (hlength ▸ hi)
    have hpromised := h.get (hlength ▸ hi) hi
    obtain ⟨hvalues, -⟩ := hpromised (parts _ hitem) fun site callTy single hcall =>
      hnoted site callTy single (.list hitem hcall)
    simp only [List.get_eq_getElem] at hvalues
    rw [same hty _ hitem] at hvalues
    exact hvalues hty v hv

variable {α : Type} {task : Task α} {state after : State} {outcome : Except Fault α}

/-- Whether a function that is run returns what the law lets it. -/
def Task.IsLawful (law : Law) : {α : Type} → Task α → Except Fault α → Prop
  | _, invoke _ f _, outcome => ∀ values, outcome = .ok values → law.returns f values
  | _, _, _ => True

theorem Derives.isLawful (h : Derives registry maxDepth law task state outcome after) :
    task.IsLawful law outcome := by
  cases h with
  | noRoom => exact fun _ hresult => by cases hresult
  | invoked _ kept => exact kept
  | _ => trivial

/-- Evaluation of an expression agrees with its layout, and ends with values as promised if the
registered functions return what they declare. -/
theorem Derives.promised {root : Nat} {layout : Layout}
    (h : Derives registry maxDepth law task state outcome after)
    (hroot : ∀ place call, layout place = some call → place.root = root)
    (hkeeps : state.Keeps registry root) (hagrees : state.AgreesWith registry layout)
    (htask : task.IsOf root) (hlaid : task.IsLaidOut registry layout) :
    after.AgreesWith registry layout ∧
      ((∀ f values, law.returns f values → registry.honest.returns f values) →
        ∀ result, outcome = .ok result → task.Promises registry result) := by
  have prepared {space place site} {found : Except Fault (Function × Bound site)} {state middle}
      (h : (site.prepare registry space place).runIn state = (found, middle))
      (hagrees : state.AgreesWith registry layout)
      (hlaid : layout.Covers place (registry.siteAt space site)) :
      middle.AgreesWith registry layout := by
    have hprepared := (hagrees.prepare hlaid.here).2
    rwa [h] at hprepared
  induction h with
  | literal | template =>
    refine ⟨hagrees, ?_⟩
    intro _ _ hresult _ _
    cases hresult
    refine ⟨?_, fun _ => Nat.le_refl 1⟩
    intro _ v hv
    rw [List.mem_singleton.mp hv]
    rfl
  | @reference _ _ _ target =>
    -- Nothing is promised about the type of a variable.
    refine ⟨hagrees, ?_⟩
    intro _ _ hresult _ _
    cases hresult
    refine ⟨fun hty => absurd rfl hty, ?_⟩
    intro hsingle
    have hfirst : target.all = false := by simpa [Expr.single] using hsingle
    rw [Scope.resolve, hfirst, if_neg Bool.false_ne_true]
    exact List.length_take_le ..
  | list _ ih =>
    obtain ⟨hafter, hvalues⟩ := ih hkeeps hagrees htask hlaid.items
    refine ⟨hafter, ?_⟩
    intro hlaw _ hresult
    obtain ⟨values, hok, rfl⟩ := exists_of_map_eq_ok hresult
    exact promised_list (hvalues hlaw values hok)
  | converted _ ih =>
    obtain ⟨hafter, hvalues⟩ := ih hkeeps hagrees htask hlaid.converted
    refine ⟨hafter, ?_⟩
    intro hlaw _ hresult htyped hnoted
    obtain ⟨values, hok, hconverted⟩ := exists_of_bind_eq_ok hresult
    refine ⟨hasTy_convertAll hconverted, ?_⟩
    intro hsingle
    rw [length_of_convertAll hconverted]
    cases htyped with
    | converted part =>
      exact (hvalues hlaw values hok part fun site ty single hcall =>
        hnoted site ty single (.converted hcall)).2 hsingle
  | call _ ih =>
    -- The function that is found is the one whose type and arity were noted.
    obtain ⟨hafter, hreturned⟩ := ih hkeeps hagrees ⟨htask, rfl⟩ hlaid.call
    refine ⟨hafter, ?_⟩
    intro hlaw _ hresult _ hnoted
    obtain ⟨returned, hok, rfl⟩ := exists_of_map_eq_ok hresult
    obtain ⟨f, hf, hvalues⟩ := hreturned hlaw returned hok
    obtain ⟨hty, hsingle⟩ := hnoted _ _ _ .call f hf
    rwa [hty, hsingle] at hvalues
  | evalNil =>
    refine ⟨hagrees, ?_⟩
    intro _ _ hresult
    cases hresult
    exact .nil
  | evalFails _ ih =>
    obtain ⟨hafter, -⟩ := ih hkeeps hagrees htask hlaid.head
    exact ⟨hafter, fun _ _ hresult => by cases hresult⟩
  | evalCons head _ ih ih' =>
    obtain ⟨hmiddle, hvalues⟩ := ih hkeeps hagrees htask hlaid.head
    obtain ⟨hafter, hrest⟩ := ih' (head.keeps hkeeps trivial) hmiddle htask hlaid.tail
    refine ⟨hafter, ?_⟩
    intro hlaw _ hresult
    obtain ⟨values, hok, rfl⟩ := exists_of_map_eq_ok hresult
    exact .cons (hvalues hlaw _ rfl) (hrest hlaw values hok)
  | unprepared hprepared =>
    exact ⟨prepared hprepared hagrees hlaid, fun _ _ hresult => by cases hresult⟩
  | argumentFails hprepared _ ih =>
    obtain ⟨hfresh, -⟩ := hagrees.prepared hlaid.here hprepared
    obtain ⟨hafter, -⟩ := ih (hkeeps.of_prepare hprepared) (prepared hprepared hagrees hlaid)
      htask.1 (hlaid.arguments hfresh)
    exact ⟨hafter, fun _ _ hresult => by cases hresult⟩
  | executed hprepared arguments _ invoked ih =>
    obtain ⟨hfresh, hfound⟩ := hagrees.prepared hlaid.here hprepared
    have hmiddle := hkeeps.of_prepare hprepared
    obtain ⟨hcalled, -⟩ :=
      ih hmiddle (prepared hprepared hagrees hlaid) htask.1 (hlaid.arguments hfresh)
    -- The function cannot get at the memory of this expression.
    have hbound := arguments.keeps hmiddle trivial
    have hknown := known_of_prepare hkeeps.registered hkeeps.recalled hprepared
    refine ⟨hcalled.of_pins fun place call hplace => invoked.frame hbound.registered hbound.used
      hbound.recalled hknown (hroot place call hplace), ?_⟩
    intro hlaw _ hresult
    obtain ⟨values, rfl, rfl⟩ := exists_of_map_eq_ok hresult
    have hreturns := hlaw _ _ (invoked.isLawful _ rfl) (Registry.mem_of_lookup hfound)
    refine ⟨_, hfound, hasTy_shape hreturns ?_, fun hsingle => Signature.length_shape_le hsingle _⟩
    intro declared hdeclared
    rw [Signature.ty, hdeclared, Option.getD_some]
  | noRoom | invoked | done | draw | unread | read | tooDeep | evaluated => exact htask.elim
  | validLiteral | validTemplate | validReference | validNil =>
    exact ⟨hagrees, fun _ _ _ => trivial⟩
  | validList _ ih =>
    exact ⟨(ih hkeeps hagrees htask hlaid.items).1, fun _ _ _ => trivial⟩
  | validConverted _ ih =>
    exact ⟨(ih hkeeps hagrees htask hlaid.converted).1, fun _ _ _ => trivial⟩
  | invalidCall hprepared =>
    exact ⟨prepared hprepared hagrees hlaid.call, fun _ _ _ => trivial⟩
  | validCall hprepared _ ih =>
    obtain ⟨hfresh, -⟩ := hagrees.prepared hlaid.call.here hprepared
    exact ⟨(ih (hkeeps.of_prepare hprepared) (prepared hprepared hagrees hlaid.call) htask
      (hlaid.call.arguments hfresh)).1, fun _ _ _ => trivial⟩
  | validFails _ ih => exact ⟨(ih hkeeps hagrees htask hlaid.head).1, fun _ _ _ => trivial⟩
  | validCons head _ ih ih' =>
    obtain ⟨hmiddle, -⟩ := ih hkeeps hagrees htask hlaid.head
    exact ⟨(ih' (head.keeps hkeeps trivial) hmiddle htask hlaid.tail).1, fun _ _ _ => trivial⟩

end

/-! ## While no function is registered -/

/-- The layout that has the calls in an expression, and no others. -/
def Registry.layoutOf (registry : Registry) (x : Rooted Expr) : Layout :=
  Layout.empty.add x.root (registry.callAt x.item)

theorem Registry.root_of_layoutOf {registry : Registry} {x : Rooted Expr} {place : Place}
    {call : String × CallSite} (h : registry.layoutOf x place = some call) :
    place.root = x.root := by
  refine Classical.byContradiction fun hne => ?_
  rw [layoutOf, Layout.add_of_ne hne] at h
  cases h

theorem State.Keeps.repinned {registry : Registry} {root : Nat} {state after : State}
    (h : state.Keeps registry root) {place : Place} {pin : Pin}
    (hpin : state.Repinned place pin after)
    (hcallee : ∀ f, pin.callee = some f → ∀ x ∈ f.shared, x.root ≠ root) :
    after.Keeps registry root where
  used := hpin.nextRoot_eq ▸ h.used
  registered := h.registered
  recalled other f hf := by
    rw [hpin.pins] at hf
    split at hf
    · exact hcallee f hf
    · exact h.recalled other f hf

namespace Session

/-- What may happen while no function is registered. -/
def Steady (law : Law) : Session → Session → Prop :=
  Relation.ReflTransGen fun session after =>
    Step law session after ∧ after.registry = session.registry

/-- What is known of an expression since it was read: nothing but its own evaluation gets at its
memory, and what its call sites remember is what they would find and bind now. -/
structure Isolates (x : Rooted Expr) (session : Session) : Prop where
  read : x ∈ session.read
  alone : ∀ y ∈ session.read, y.root = x.root → y = x
  apart : ∀ site ∈ session.sites, site.root ≠ x.root
  keeps : session.state.Keeps session.registry x.root
  agrees : session.state.AgreesWith session.registry (session.registry.layoutOf x)

namespace Isolates

variable {x : Rooted Expr} {session after : Session} {law : Law}

/-- An expression that was just read. -/
theorem start (hrooted : session.IsRooted) {e : Expr} :
    Isolates ⟨session.state.nextRoot, e⟩
      { session with
        state := { session.state with nextRoot := session.state.nextRoot + 1 }
        read := ⟨session.state.nextRoot, e⟩ :: session.read } where
  read := List.mem_cons_self ..
  alone y hy hroot := by
    rcases List.mem_cons.mp hy with rfl | hy
    · rfl
    · exact absurd hroot (Nat.ne_of_lt (hrooted.read y hy))
  apart site hsite := Nat.ne_of_lt (hrooted.sites site hsite)
  keeps := hrooted.settled.keeps
  agrees place space site hplace := by
    have hroot := Registry.root_of_layoutOf hplace
    show (session.state.pins.get place).Agrees _ _ _
    rw [hrooted.settled.unused place (Nat.le_of_eq hroot.symm)]
    exact .empty ..

/-- A call site of another root may remember another function that is found now. -/
theorem repinned (h : session.Isolates x) {site : Rooted CallSite} (hsite : site ∈ session.sites)
    {pin : Pin} {state : State} (hpin : session.state.Repinned ⟨site.root, []⟩ pin state)
    (hcallee : ∀ f, pin.callee = some f →
      (session.state.pins.get ⟨site.root, []⟩).callee.or
        (session.registry.lookup site.item.name site.item.space) = some f) :
    (session.moved state).Isolates x where
  read := h.read
  alone := h.alone
  apart := h.apart
  keeps := h.keeps.repinned hpin fun f hf =>
    known_of_found h.keeps.registered h.keeps.recalled (hcallee f hf)
  agrees := by
    apply h.agrees.of_pins
    intro place call hplace
    apply hpin.pins_of_ne
    rintro rfl
    exact h.apart site hsite (Registry.root_of_layoutOf hplace)

/-- An evaluation that starts from another root leaves the memory of the expression alone. -/
theorem ran (h : session.Isolates x) {maxDepth : Nat} {α : Type} {task : Task α} {state : State}
    {outcome : Except Fault α}
    (hran : Derives session.registry maxDepth law task session.state outcome state)
    (htask : task.Within (fun f => ∀ y ∈ f.shared, y.root ≠ x.root) (· ≠ x.root)) :
    (session.moved state).Isolates x where
  read := h.read
  alone := h.alone
  apart := h.apart
  keeps := hran.keeps h.keeps (htask.mono (fun _ hf => hf) fun _ _ => trivial)
  agrees := h.agrees.of_pins fun _ _ hplace =>
    hran.frame h.keeps.registered h.keeps.used h.keeps.recalled htask
      (Registry.root_of_layoutOf hplace)

/-- Evaluation and checking of the expression itself fill its memory with what is found now. -/
theorem ran_itself (h : session.Isolates x) {maxDepth : Nat} {α : Type} {task : Task α}
    {state : State} {outcome : Except Fault α}
    (hran : Derives session.registry maxDepth law task session.state outcome state)
    (htask : task.IsOf x.root)
    (hlaid : task.IsLaidOut session.registry (session.registry.layoutOf x))
    (hwithin : task.Within (fun f => ∀ y ∈ f.shared, y.root ≠ x.root) fun _ => True) :
    (session.moved state).Isolates x where
  read := h.read
  alone := h.alone
  apart := h.apart
  keeps := hran.keeps h.keeps hwithin
  agrees := (hran.promised (fun _ _ => Registry.root_of_layoutOf) h.keeps h.agrees htask hlaid).1

theorem step (h : session.Isolates x) (hstep : Step law session after)
    (hsame : after.registry = session.registry) : after.Isolates x := by
  cases hstep with
  | register =>
    -- The function is registered already.
    replace hsame : session.registry.register _ = session.registry := hsame
    rw [hsame]
    exact h
  | parse accepted =>
    obtain ⟨-, hroot, rfl⟩ := of_runIn_parse accepted
    refine ⟨List.mem_cons_of_mem _ h.read, ?_, h.apart,
      ⟨Nat.lt_succ_of_lt h.keeps.used, h.keeps.registered, h.keeps.recalled⟩, h.agrees⟩
    intro y hy hsameRoot
    rcases List.mem_cons.mp hy with rfl | hy
    · exact absurd (hroot.symm.trans hsameRoot) (Nat.ne_of_gt h.keeps.used)
    · exact h.alone y hy hsameRoot
  | make site =>
    refine ⟨h.read, h.alone, ?_,
      ⟨Nat.lt_succ_of_lt h.keeps.used, h.keeps.registered, h.keeps.recalled⟩, h.agrees⟩
    intro other hother
    rcases List.mem_cons.mp hother with rfl | hother
    · exact Nat.ne_of_gt h.keeps.used
    · exact h.apart other hother
  | @resolve site space context known =>
    rcases of_runIn_resolve ⟨session.registry, space, context⟩ site session.state with
      hnone | ⟨f, hfound, hpin⟩
    · rw [hnone]
      exact h
    · refine h.repinned known hpin ?_
      intro g hg
      cases hg
      exact hfound
  | @prepare site space context known =>
    refine h.repinned known (of_runIn_prepare ⟨session.registry, space, context⟩ site _) ?_
    intro f hf
    rwa [Pin.callee_prepare] at hf
  | execute known ran => exact h.ran ran (h.apart _ known)
  | @validate y _ _ _ known ran | @evaluate y _ _ _ known ran =>
    by_cases hroot : y.root = x.root
    · obtain rfl := h.alone y known hroot
      exact h.ran_itself ran rfl Layout.covers_add trivial
    · exact h.ran ran hroot
  | reseed =>
    exact ⟨h.read, h.alone, h.apart, ⟨h.keeps.used, h.keeps.registered, h.keeps.recalled⟩, h.agrees⟩

theorem steady (h : session.Isolates x) (hsteady : Steady law session after) :
    after.Isolates x ∧ after.registry = session.registry := by
  induction hsteady with
  | refl => exact ⟨h, rfl⟩
  | tail _ hstep ih =>
    obtain ⟨hstep, hsame⟩ := hstep
    exact ⟨ih.1.step hstep hsame, hsame.trans ih.2⟩

end Isolates

/-- An expression that was read keeps what it promises, as long as no function is registered:

* it is of the type that was wanted, if a particular one was;
* its values are of its type, if that is a particular one, whenever it is evaluated and the
  registered functions that are run return values of the types that they declare;
* there is at most one of them if the expression stands for one value;
* if a particular type was wanted, no call in a result position finds a function that returns
  nothing. -/
theorem read_promises_values (law : Law) (session : Session) (hreached : Reached law session)
    (space : String) (context : Context) (text : String) (target : Ty) (x : Rooted Expr)
    (after : State)
    (hparsed : (Evaluator.parse ⟨session.registry, space, context⟩ text target).runIn
      session.state = (.ok x, after)) :
    (target ≠ .any → x.item.ty = target) ∧
    (∀ later, Steady law { session with state := after, read := x :: session.read } later →
      ∀ (context : Context) values final,
        Derives session.registry context.maxDepth session.registry.honest
          (.eval (context.maxDepth - context.depth) context.scope ⟨x.root, []⟩ x.item) later.state
          (.ok values) final →
        (x.item.ty ≠ .any → ∀ v ∈ values, v.ty = x.item.ty) ∧
        (x.item.single = true → values.length ≤ 1)) ∧
    (target ≠ .any → ∀ site ty single, x.item.ResultCall site ty single →
      ∀ f, session.registry.lookup site.name site.space = some f → f.signature.returns ≠ none) := by
  obtain ⟨hparse, hroot, rfl⟩ := of_runIn_parse hparsed
  obtain ⟨root, e⟩ := x
  obtain rfl : root = session.state.nextRoot := hroot
  obtain ⟨htyped, hty⟩ := Reader.isTyped_of_parse hparse
  have hnotes {site : CallSite} {ty : Ty} {single : Bool} (hcall : e.ResultCall site ty single)
      {f : Function} (hf : session.registry.lookup site.name site.space = some f) :
      ty = f.signature.ty ∧ single = f.signature.single ∧
        (target ≠ .any → f.signature.returns ≠ none) := by
    have hnotes := Reader.notes_of_type hparse hcall
    refine hnotes.declared f.signature ?_
    rw [hnotes.space] at hf
    exact Option.map_eq_some_iff.mpr ⟨f, hf, rfl⟩
  refine ⟨hty, ?_, fun hany site ty single hcall f hf => (hnotes hcall hf).2.2 hany⟩
  intro later hsteady context values final hran
  obtain ⟨hisolates, hsame⟩ := (Isolates.start hreached.isRooted).steady hsteady
  replace hsame : later.registry = session.registry := hsame
  rw [← hsame] at hran
  obtain ⟨-, hpromised⟩ := hran.promised (fun _ _ => Registry.root_of_layoutOf) hisolates.keeps
    hisolates.agrees rfl Layout.covers_add
  refine hpromised (fun _ _ h => h) values rfl htyped ?_
  intro site ty single hcall f hf
  rw [hsame] at hf
  obtain ⟨hsameTy, hsameSingle, -⟩ := hnotes hcall hf
  exact ⟨hsameTy.symm, hsameSingle.symm⟩

end Session

/-- How `g()` is read where a text is wanted, while `g` returns a truth value. -/
def shownCall : Expr := .converted (.call ⟨"", "g", []⟩ .boolean true) .text

/-- The value of `g()` is shown as a text. -/
theorem exists_derives_shownCall {registry : Registry} {maxDepth room : Nat} {law : Law}
    {scope : Scope} {place : Place} {state : State} (hunused : state.pins.get place = {})
    (hg : registry.lookup "g" "" = some (.constant "g" (.boolean true)))
    (hreturns : law.returns (.constant "g" (.boolean true)) [.boolean true])
    (hpasses : ∀ called, law.passes called place []) :
    ∃ after, Derives registry maxDepth law (.eval (room + 1) scope place shownCall) state
      (.ok [.text "true"]) after := by
  obtain ⟨after, hran, -⟩ := exists_derives_constant hunused hg hreturns hpasses
  have hshown : convertAll .text [.boolean true] = .ok [.text "true"] := by
    rw [convertAll_cons]
    rfl
  have hcalled : Derives registry maxDepth law
      (.eval (room + 1) scope place (.call ⟨"", "g", []⟩ .boolean true)) state
        ((Except.ok (some (.single (.boolean true)))).map fun r => (r.map Returned.values).getD [])
        after := .call hran
  have hconverted := @Derives.converted registry maxDepth law _ _ _ _ .text _ _ _ hcalled
  refine ⟨after, ?_⟩
  rw [← hshown]
  exact hconverted

namespace Session

/-- The text `g()` is read where a text is wanted, while `g` returns a truth value; another call is
prepared, and then the expression is evaluated. -/
theorem read_promises_values_shown :
    ∃ after, (Evaluator.parse ⟨nestedSession.registry, "", .top 256⟩ "g()" .text).runIn
        nestedSession.state = (.ok ⟨1, shownCall⟩, after) ∧
      ∃ later final,
        Steady .free { nestedSession with state := after, read := [⟨1, shownCall⟩] } later ∧
        Derives nestedSession.registry 256 nestedSession.registry.honest
          (.eval 256 Scope.empty ⟨1, []⟩ shownCall) later.state (.ok [.text "true"]) final ∧
        shownCall.ty = .text ∧ (∀ v ∈ [Value.text "true"], v.ty = .text) ∧
        [Value.text "true"].length ≤ 1 ∧
        ∀ f, nestedSession.registry.lookup "g" "" = some f → f.signature.returns ≠ none := by
  have hparsed : (Evaluator.parse ⟨nestedSession.registry, "", .top 256⟩ "g()" .text).runIn
      nestedSession.state = (.ok ⟨1, shownCall⟩, { nextRoot := 2 }) := by
    have hparse : (nestedSession.registry.reader "").parse "g()" .text = .ok shownCall := by
      rw [Reader.parse, Form.read_nested]
      rfl
    rw [Evaluator.parse, hparse]
    rfl
  obtain ⟨hty, hvalues, hreturns⟩ := read_promises_values .free nestedSession
    (reached_nestedSession .free) "" (.top 256) "g()" .text _ _ hparsed
  have hpin := of_runIn_prepare ⟨nestedSession.registry, "", .top 256⟩ ⟨0, nestedCall⟩
    { nextRoot := 2 }
  obtain ⟨later, hstep, hlater⟩ : ∃ later, Step .free
      { nestedSession with state := { nextRoot := 2 }, read := [⟨1, shownCall⟩] } later ∧
      later.registry = nestedSession.registry ∧ later.state.pins.get ⟨1, []⟩ = {} :=
    ⟨_, @Step.prepare _ _ _ "" (.top 256) (List.mem_singleton_self _), rfl, by
      rw [← Pins.get_empty ⟨1, []⟩]
      exact hpin.pins_of_ne (by decide)⟩
  have hsteady : Steady .free
      { nestedSession with state := { nextRoot := 2 }, read := [⟨1, shownCall⟩] } later :=
    .single ⟨hstep, hlater.1⟩
  obtain ⟨final, hran⟩ : ∃ final, Derives nestedSession.registry 256
      nestedSession.registry.honest (.eval (255 + 1) Scope.empty ⟨1, []⟩ shownCall) later.state
        (.ok [.text "true"]) final :=
    exists_derives_shownCall hlater.2 rfl (fun _ => honest_constant _ _) fun _ => trivial
  obtain ⟨htypes, hlength⟩ := hvalues later hsteady (.top 256) _ _ hran
  exact ⟨_, hparsed, later, final, hsteady, hran, hty (by decide), htypes (by decide), hlength rfl,
    hreturns (by decide) _ _ _ (.converted .call)⟩

end Session

end CallScript

import CallScript.Proofs.InvocationOrder

/-!
# Which conversions can fail

A conversion is written around an expression where its type is admitted but is not the wanted one.
That is so in two cases only: the wanted type is that of texts, and every value has a text; or
nothing is known of the values, because they are those of a variable, or of a call whose function is
not there or declares any type (`Reader.coerces_of_parse`). So an expression without such *dynamic*
parts, in its bound arguments as well, converts to texts only, and never fails for a conversion of
its own (`Session.conversions_succeed`), whatever the functions return.

The parts of an expression reach into the arguments of its calls, as they are bound while no
function is registered (`Registry.Part`). The conversions at which an evaluation can fail are points
of its call tree, and each of these is a part (`Registry.exists_part_of_tree`).
-/

namespace CallScript

/-! ## The parts of an expression -/

/-- The parts of an expression: itself, the parts of its items, of what it converts, and of what the
arguments of its call are bound to now. -/
inductive Registry.Part (registry : Registry) : Expr → Expr → Prop where
  | self {e} : Part registry e e
  | item {items : List Expr} {ty item part} (listed : item ∈ items)
      (inside : Part registry item part) : Part registry (.list items ty) part
  | inner {inner target part} (inside : Part registry inner part) :
      Part registry (.converted inner target) part
  | argument {site ty single f} {bound : Bound site} {b : Binding} {part}
      (prepared : (({} : Pin).prepare registry site.space site).1 = .ok (f, bound))
      (passed : b ∈ bound.1) (inside : Part registry b.expr part) :
      Part registry (.call site ty single) part

/-- Whether the values of a part are known to be of some type before it runs, if it has any: it is
no variable, and no call whose function is not there or declares any type. -/
def Expr.IsStatic (registry : Registry) : Expr → Prop
  | .reference _ => False
  | .call site _ _ => ∃ f, registry.lookup site.name site.space = some f ∧
      f.signature.returns ≠ some .any
  | _ => True

/-! ## What readers convert -/

/-- Whether a reader knows nothing of the values of an expression. -/
def Reader.IsUnsure (r : Reader) : Expr → Prop
  | .reference _ => True
  | .call site _ _ => site.space = r.space ∧
      ∀ signature, r.signature? site.name = some signature → signature.returns = some .any
  | _ => False

/-- Whether every conversion in an expression is to a text, or of something that a reader knows
nothing of. The arguments of its calls are left out. -/
inductive Reader.Coerces (r : Reader) : Expr → Prop where
  | literal {value} : Coerces r (.literal value)
  | template {text} : Coerces r (.template text)
  | reference {target} : Coerces r (.reference target)
  | list {items ty} (parts : ∀ item ∈ items, Coerces r item) : Coerces r (.list items ty)
  | converted {inner target} (part : Coerces r inner) (needed : target = .text ∨ r.IsUnsure inner) :
      Coerces r (.converted inner target)
  | call {site ty single} : Coerces r (.call site ty single)

/-- Where a conversion is written the wanted type is that of texts, or that of the expression is not
known. -/
theorem Expr.coerces_of_coerce {r : Reader} {target : Ty} {e e' : Expr}
    (h : e.coerce target = .ok e') (he : r.Coerces e)
    (hunsure : e.ty = .any → target ≠ .any → r.IsUnsure e) : r.Coerces e' := by
  unfold coerce at h
  split at h
  · next haccepts =>
    split at h
    · cases h
      exact he
    · next hother =>
      cases h
      refine .converted he ?_
      simp only [Bool.or_eq_true, decide_eq_true_eq, not_or] at hother
      simp only [Ty.accepts, Bool.or_eq_true, decide_eq_true_eq] at haccepts
      rcases haccepts with ((hany | hany) | hsame) | htext
      · exact absurd hany hother.1
      · exact .inr (hunsure hany hother.1)
      · exact absurd hsame.symm hother.2
      · exact .inl htext
  · cases h

namespace Reader

theorem coerces_of_typeCall {r : Reader} {target : Ty} {name : String}
    {arguments : List RawArgument} {e : Expr} (h : r.typeCall target name arguments = .ok e) :
    r.Coerces e := by
  unfold typeCall at h
  split at h
  · next hnone =>
    refine Expr.coerces_of_coerce h .call ?_
    intro _ _
    refine ⟨rfl, ?_⟩
    intro signature hsignature
    rw [hnone] at hsignature
    cases hsignature
  · next declared hdeclared =>
    split at h
    · cases h
    · next hreturns =>
      refine Expr.coerces_of_coerce h .call ?_
      intro hany htarget
      refine ⟨rfl, ?_⟩
      intro signature hsignature
      rw [hdeclared] at hsignature
      cases hsignature
      -- A function that returns nothing is refused where a particular type is wanted.
      cases hty : declared.returns with
      | none => exact absurd ⟨hty, htarget⟩ hreturns
      | some ty =>
        rw [← hany, Expr.ty, Signature.ty, hty, Option.getD_some]

mutual

/-- A reader converts to texts only, or what it knows nothing of. -/
theorem coerces_of_type {r : Reader} {target : Ty} {form : Form} {e : Expr}
    (h : r.type target form = .ok e) : r.Coerces e := by
  cases form with
  | unreadable => simp [type] at h
  | text content =>
    simp only [type] at h
    split at h
    · exact Expr.coerces_of_coerce h .template fun hany => by cases hany
    · exact Expr.coerces_of_coerce h .literal fun hany => by cases hany
  | boolean _ | number _ =>
    simp only [type] at h
    exact Expr.coerces_of_coerce h .literal fun hany => by cases hany
  | reference _ =>
    simp only [type] at h
    exact Expr.coerces_of_coerce h .reference fun _ _ => trivial
  | list items =>
    simp only [type] at h
    obtain ⟨es, hes, h⟩ := exists_of_bind_eq_ok h
    refine Expr.coerces_of_coerce h (.list (coerces_of_typeAll hes)) ?_
    intro hany htarget
    exact absurd ((commonTy_of_typeAll hes htarget).symm.trans hany) htarget
  | call name arguments =>
    simp only [type] at h
    exact coerces_of_typeCall h

theorem coerces_of_typeAll {r : Reader} {target : Ty} {forms : List Form} {es : List Expr}
    (h : r.typeAll target forms = .ok es) : ∀ e ∈ es, r.Coerces e := by
  cases forms with
  | nil =>
    simp only [typeAll, Except.ok.injEq] at h
    subst h
    simp
  | cons form forms =>
    simp only [typeAll] at h
    obtain ⟨first, hfirst, h⟩ := exists_of_bind_eq_ok h
    obtain ⟨rest, hrest, h⟩ := exists_of_bind_eq_ok h
    cases h
    intro e he
    rcases List.mem_cons.mp he with rfl | he
    · exact coerces_of_type hfirst
    · exact coerces_of_typeAll hrest e he

end

theorem coerces_of_parse {r : Reader} {text : String} {target : Ty} {e : Expr}
    (h : r.parse text target = .ok e) : r.Coerces e := coerces_of_type h

end Reader

section

variable {registry : Registry} {space : String}

/-- What a reader of the registered functions knows nothing of is not static. -/
theorem Expr.IsStatic.not_isUnsure {e : Expr} (h : e.IsStatic registry) :
    ¬(registry.reader space).IsUnsure e := by
  intro hunsure
  cases e with
  | reference => exact h
  | call site ty single =>
    obtain ⟨f, hf, hreturns⟩ := h
    obtain ⟨hspace, hany⟩ := hunsure
    rw [hspace] at hf
    exact hreturns (hany f.signature (Option.map_eq_some_iff.mpr ⟨f, hf, rfl⟩))
  | literal | template | list | converted => exact hunsure

/-- If all parts of an expression are static, it converts to texts only, also in its arguments. -/
theorem Registry.Part.target_eq {e part : Expr} (h : registry.Part e part)
    (hcoerces : (registry.reader space).Coerces e)
    (hstatic : ∀ part, registry.Part e part → part.IsStatic registry) {inner : Expr} {target : Ty}
    (hpart : part = .converted inner target) : target = .text := by
  induction h generalizing space with
  | self =>
    subst hpart
    cases hcoerces with
    | converted _ needed =>
      rcases needed with htext | hunsure
      · exact htext
      · exact absurd hunsure (hstatic inner (.inner .self)).not_isUnsure
  | item listed _ ih =>
    cases hcoerces with
    | list parts => exact ih (parts _ listed) (fun part h => hstatic part (.item listed h)) hpart
  | inner _ ih =>
    cases hcoerces with
    | converted part => exact ih part (fun part h => hstatic part (.inner h)) hpart
  | argument prepared passed _ ih =>
    -- The argument was read in the space of its call.
    obtain ⟨argument, -, hparse⟩ := Edition.exists_argument (Pin.prepare_eq_ok.mp prepared).2 passed
    exact ih (Reader.coerces_of_parse hparse)
      (fun part h => hstatic part (.argument prepared passed h)) hpart

/-! ## Where evaluation converts -/

variable (registry)

mutual

/-- The conversions of a call tree are parts of its expression. -/
theorem Registry.exists_part_of_tree (place : Place) (e : Expr) {point : Place} {target : Ty}
    (h : .convert point target ∈ (registry.tree {} place e).points) :
    ∃ inner, registry.Part e (.converted inner target) := by
  match e with
  | .literal _ | .template _ | .reference _ =>
    rw [tree] at h
    exact absurd h List.not_mem_nil
  | .list items _ =>
    rw [tree] at h
    obtain ⟨item, hitem, inner, hpart⟩ := Registry.exists_part_of_treeEach place 0 items h
    exact ⟨inner, .item hitem hpart⟩
  | .converted inner wanted =>
    rw [tree, CallTree.points] at h
    rcases List.mem_append.mp h with h | h
    · obtain ⟨other, hpart⟩ := Registry.exists_part_of_tree place inner h
      exact ⟨other, .inner hpart⟩
    · cases List.mem_singleton.mp h
      exact ⟨inner, .self⟩
  | .call site ty single =>
    rw [tree] at h
    exact Registry.exists_part_of_treeOf place site ty single h
termination_by (e.reach, sizeOf e)

theorem Registry.exists_part_of_treeEach (place : Place) (index : Nat) (items : List Expr)
    {point : Place} {target : Ty}
    (h : .convert point target ∈ (registry.treeEach {} place index items).points) :
    ∃ item ∈ items, ∃ inner, registry.Part item (.converted inner target) := by
  match items with
  | [] =>
    rw [treeEach] at h
    exact absurd h List.not_mem_nil
  | item :: items =>
    rw [treeEach, CallTree.points] at h
    rcases List.mem_append.mp h with h | h
    · exact ⟨item, List.mem_cons_self .., Registry.exists_part_of_tree _ item h⟩
    · obtain ⟨other, hother, hpart⟩ := Registry.exists_part_of_treeEach place (index + 1) items h
      exact ⟨other, List.mem_cons_of_mem _ hother, hpart⟩
termination_by (Expr.reachAll items, sizeOf items)
decreasing_by
  · exact descends (Nat.le_max_left _ _) (by simp only [List.cons.sizeOf_spec]; omega)
  · exact descends (Nat.le_max_right _ _) (by simp only [List.cons.sizeOf_spec]; omega)

theorem Registry.exists_part_of_treeOf (place : Place) (site : CallSite) (ty : Ty) (single : Bool)
    {point : Place} {target : Ty}
    (h : .convert point target ∈ (registry.treeOf {} ⟨place, site.space, site⟩).points) :
    ∃ inner, registry.Part (.call site ty single) (.converted inner target) := by
  match hfound : (⟨place, site.space, site⟩ : CallNode).found registry {} with
  | .error cause =>
    rw [registry.treeOf_of_error hfound] at h
    cases List.mem_singleton.mp h
  | .ok (f, bound) =>
    rw [registry.treeOf_of_ok hfound, CallTree.points] at h
    have hprepared : (({} : Pin).prepare registry site.space site).1 = .ok (f, bound) := by
      rw [← hfound, CallNode.found, Pins.get_empty]
    -- Preparing and running the call converts nothing, so it is one of its arguments.
    have harguments : .convert point target ∈
        (registry.treeEach {} place 0 (bound.1.map Binding.expr)).points := by simpa using h
    obtain ⟨item, hitem, inner, hpart⟩ := Registry.exists_part_of_treeEach place 0 _ harguments
    obtain ⟨b, hb, rfl⟩ := List.mem_map.mp hitem
    exact ⟨inner, .argument hprepared hb hpart⟩
termination_by (site.reach, 0)
decreasing_by
  exact .left _ _ bound.2

end

end

/-! ## Conversions succeed -/

/-- Where the wanted type admits a particular one, every value of this has a counterpart. -/
theorem Value.exists_convert?_of_accepts {wanted got : Ty} (h : wanted.accepts got = true)
    (hgot : got ≠ .any) {v : Value} (hv : v.ty = got) : ∃ w, v.convert? wanted = some w := by
  subst hv
  simp only [Ty.accepts, Bool.or_eq_true, decide_eq_true_eq] at h
  rcases h with ((rfl | hany) | rfl) | rfl
  · exact ⟨v, rfl⟩
  · exact absurd hany hgot
  · cases v <;> exact ⟨_, rfl⟩
  · exact ⟨_, rfl⟩

/-- An evaluation that fails for a conversion of its own has come to a part that converts, and to a
value without a counterpart. -/
theorem Derives.exists_part_of_conversion {registry : Registry} {context : Context} {root : Nat}
    {e : Expr} {state after : State} {v : Value} {wanted : Ty}
    (h : Derives registry context.maxDepth .free
      (.eval (context.maxDepth - context.depth) context.scope ⟨root, []⟩ e) state
      (.error (.own (.conversion v wanted))) after)
    (hkeeps : state.Keeps registry root)
    (hagrees : state.AgreesWith registry (registry.layoutOf ⟨root, e⟩)) :
    v.convert? wanted = none ∧ ∃ inner, registry.Part e (.converted inner wanted) := by
  obtain ⟨hafter, -⟩ :=
    h.promised (fun _ _ => Registry.root_of_layoutOf) hkeeps hagrees rfl Layout.covers_add
  obtain ⟨_, _, done, failing, later, -, hpoints, hfails⟩ :=
    (h.traced (.refl _) (fun _ _ => rfl) rfl).fails _ rfl
  rw [Registry.tree_eq_of_agrees hafter _ e Layout.covers_add] at hpoints
  cases failing with
  | prepare call =>
    obtain ⟨-, _, -, hfault⟩ := hfails
    cases hfault
  | enter call =>
    -- Only the limit on the depth fails a call here.
    obtain ⟨-, e, hchild, hfault⟩ := hfails
    cases hfault
    unfold Context.child at hchild
    split at hchild <;> cases hchild
  | leave call =>
    obtain ⟨_, _, -, -, -, hfault, -⟩ := hfails
    cases hfault
  | convert place target =>
    obtain ⟨-, w, hnone, hfault⟩ := hfails
    cases hfault
    have hmem : .convert place wanted ∈ (registry.tree {} ⟨root, []⟩ e).points := by
      rw [hpoints]
      simp
    exact ⟨hnone, registry.exists_part_of_tree _ e hmem⟩

namespace Session

/-- An expression all of whose parts are static never fails for a conversion of its own, whenever
and wherever it is evaluated while no function is registered: all that it converts it converts to
texts. And where a wanted type admits a particular type, conversion of a value of this type
succeeds. -/
theorem conversions_succeed (session : Session) (hreached : Reached .free session) (space : String)
    (context : Context) (text : String) (target : Ty) (x : Rooted Expr) (after : State)
    (hparsed : (Evaluator.parse ⟨session.registry, space, context⟩ text target).runIn
      session.state = (.ok x, after)) :
    ((∀ part, session.registry.Part x.item part → part.IsStatic session.registry) →
      (∀ inner wanted, session.registry.Part x.item (.converted inner wanted) → wanted = .text) ∧
      ∀ later, Steady .free { session with state := after, read := x :: session.read } later →
        ∀ (context : Context) v wanted,
          ((Evaluator.eval ⟨session.registry, space, context⟩ x).runIn later.state).1 ≠
            .error (.own (.conversion v wanted))) ∧
    ∀ wanted got, Ty.accepts wanted got = true → got ≠ .any → ∀ v : Value, v.ty = got →
      ∃ w, v.convert? wanted = some w := by
  refine ⟨?_, fun wanted got haccepts hgot v hv => v.exists_convert?_of_accepts haccepts hgot hv⟩
  intro hstatic
  obtain ⟨hparse, hroot, rfl⟩ := of_runIn_parse hparsed
  obtain ⟨root, e⟩ := x
  obtain rfl : root = session.state.nextRoot := hroot
  have htexts (inner : Expr) (wanted : Ty)
      (hpart : session.registry.Part e (.converted inner wanted)) : wanted = .text :=
    hpart.target_eq (Reader.coerces_of_parse hparse) hstatic rfl
  refine ⟨htexts, ?_⟩
  intro later hsteady context v wanted hfails
  obtain ⟨hisolates, hsame⟩ := (Isolates.start hreached.isRooted).steady hsteady
  replace hsame : later.registry = session.registry := hsame
  have hran := derives session.registry context.maxDepth
    (.eval (context.maxDepth - context.depth) context.scope ⟨session.state.nextRoot, []⟩ e)
    later.state
  rw [← eval_eq_run ⟨session.registry, space, context⟩ ⟨_, e⟩, hfails] at hran
  obtain ⟨hnone, inner, hpart⟩ :=
    hran.exists_part_of_conversion (hsame ▸ hisolates.keeps) (hsame ▸ hisolates.agrees)
  rw [htexts inner wanted hpart] at hnone
  cases hnone

/-- How `g()` is read where a text is wanted. -/
theorem runIn_parse_shownCall :
    (Evaluator.parse ⟨nestedSession.registry, "", .top 256⟩ "g()" .text).runIn nestedSession.state =
      (.ok ⟨1, shownCall⟩, { nextRoot := 2 }) := by
  have hparse : (nestedSession.registry.reader "").parse "g()" .text = .ok shownCall := by
    rw [Reader.parse, Form.read_nested]
    rfl
  rw [Evaluator.parse, hparse]
  rfl

theorem isStatic_shownCall (part : Expr) (h : nestedSession.registry.Part shownCall part) :
    part.IsStatic nestedSession.registry := by
  cases h with
  | self => trivial
  | inner inside =>
    cases inside with
    | self => exact ⟨.constant "g" (.boolean true), rfl, by decide⟩
    | argument prepared passed =>
      -- The call has no arguments.
      obtain ⟨bound, hpure, hnil⟩ : ∃ bound : Bound ⟨"", "g", []⟩,
          (({} : Pin).prepare nestedSession.registry "" ⟨"", "g", []⟩).1 =
            .ok (.constant "g" (.boolean true), bound) ∧ bound.1 = [] :=
        exists_prepare_plainCall rfl rfl
      cases prepared.symm.trans hpure
      rw [hnil] at passed
      exact absurd passed List.not_mem_nil

/-- Where `g` returns a truth value and a text is wanted, the value of `g()` is converted, and that
cannot fail. -/
theorem conversions_succeed_shown :
    (Evaluator.parse ⟨nestedSession.registry, "", .top 256⟩ "g()" .text).runIn nestedSession.state =
        (.ok ⟨1, shownCall⟩, { nextRoot := 2 }) ∧
      nestedSession.registry.Part shownCall
        (.converted (.call ⟨"", "g", []⟩ .boolean true) .text) ∧
      (∀ part, nestedSession.registry.Part shownCall part →
        part.IsStatic nestedSession.registry) ∧
      ∀ (context : Context) v wanted,
        ((Evaluator.eval ⟨nestedSession.registry, "", context⟩ ⟨1, shownCall⟩).runIn
          { nextRoot := 2 }).1 ≠ .error (.own (.conversion v wanted)) := by
  obtain ⟨hstatic, -⟩ := conversions_succeed nestedSession (reached_nestedSession .free) ""
    (.top 256) "g()" .text _ _ runIn_parse_shownCall
  exact ⟨runIn_parse_shownCall, .self, isStatic_shownCall, (hstatic isStatic_shownCall).2 _ .refl⟩

end Session

end CallScript

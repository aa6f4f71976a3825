import Mathlib.Data.List.Nodup
import CallScript.Proofs.Checking
import CallScript.Proofs.Layout

/-!
# The tree of calls in an expression

The calls that are written in an expression form a tree: they stand in the items of lists, under
conversions, and in the arguments of other calls. An expression alone does not tell the tree, since
arguments are texts that are read when their call is first prepared. What call sites remember tells
it (`Registry.tree`); and as they remember this for good, the tree that an evaluation leaves behind
is the one it went through.

Two lists are read off a tree. `CallTree.postorder` has its calls, the arguments of a call from left
to right before the call itself; `CallTree.points` has the points at which an evaluation can fail,
in the order in which it comes to them.

* Each call of an expression is listed once (`Registry.postorder_tree`), and the arguments of a call
  are those that are written, in that order (`forall₂_of_bindFrom`).
* What a call was found to be when it was prepared it is in the tree that is left
  (`CallNode.found_of_prepare`, `CallNode.found_of_unprepared`).
* While call sites remember nothing but what would be found now, the tree is that of an expression
  whose calls remember nothing (`Registry.tree_eq_of_agrees`).
-/

namespace CallScript

/-! ## Calls -/

/-- A call in an expression: where it is, the space in which its arguments are read, and what is
written there. -/
structure CallNode where
  place : Place
  space : String
  site : CallSite

/-- The function of a call and its bound arguments, those that are remembered or else those that are
found now. -/
def CallNode.found (registry : Registry) (pins : Pins) (call : CallNode) :
    Except BindError (Function × Bound call.site) :=
  ((pins.get call.place).prepare registry call.space call.site).1

section

variable {registry : Registry} {space : String} {place : Place} {site : CallSite}

/-- A call that could not be prepared cannot be prepared the next time either. -/
theorem Pin.prepare_of_error {pin : Pin} {cause : BindError}
    (h : (pin.prepare registry space site).1 = .error cause) :
    ((pin.prepare registry space site).2.prepare registry space site).1 = .error cause := by
  have hcallee : (pin.prepare registry space site).2.callee.or
      (registry.lookup site.name site.space) =
        pin.callee.or (registry.lookup site.name site.space) := by
    rw [callee_prepare]
    cases pin.callee with
    | some f => rfl
    | none => cases registry.lookup site.name site.space <;> rfl
  have hedition := edition_prepare_of_error h
  rw [← h]
  generalize (pin.prepare registry space site).2 = later at hcallee hedition
  unfold prepare
  rw [hcallee, hedition]
  cases pin.callee.or (registry.lookup site.name site.space) with
  | none => rfl
  | some f => dsimp only

variable {state middle after : State}

/-- A call that was prepared is found to be the same ever after. -/
theorem CallNode.found_of_prepare {f : Function} {bound : Bound site}
    (h : (site.prepare registry space place).runIn state = (.ok (f, bound), middle))
    (hextends : middle.Extends after) :
    CallNode.found registry after.pins ⟨place, space, site⟩ = .ok (f, bound) := by
  obtain ⟨hpure, hpin⟩ := prepare_of_runIn_ok h
  obtain ⟨-, hbind⟩ := Pin.prepare_eq_ok.mp hpure
  have hedition := Pin.edition_prepare_of_ok hpure
  rw [← hpin.pins_self] at hedition
  refine Pin.prepare_eq_ok.mpr ⟨?_, ?_⟩
  · rw [hextends.callee place f (callee_of_prepare h), Option.some_or]
  · rw [hextends.edition place _ hedition, Option.getD_some]
    exact hbind

/-- A call that was just found not to be one that can be prepared. -/
theorem CallNode.found_of_unprepared {fault : Fault}
    (h : (site.prepare registry space place).runIn state = (.error fault, after)) :
    ∃ cause, CallNode.found registry after.pins ⟨place, space, site⟩ = .error cause ∧
      fault = .own (.call site.name cause) := by
  obtain ⟨cause, hpure, hfault, hpin⟩ := prepare_of_runIn_error h
  refine ⟨cause, ?_, hfault⟩
  rw [found, hpin.pins_self]
  exact Pin.prepare_of_error hpure

end

/-- The bound arguments of a call are those that are written, in that order. -/
theorem forall₂_of_bindFrom {parse : String → Ty → Except ParseFailure Expr}
    {pool : List Parameter} {arguments : List RawArgument} {bindings : List Binding}
    (h : bindFrom parse pool arguments = .ok bindings) :
    List.Forall₂ (fun argument binding =>
      parse argument.text binding.parameter.ty = .ok binding.expr) arguments bindings := by
  induction arguments generalizing pool bindings with
  | nil =>
    unfold bindFrom at h
    split at h
    · cases h
    · cases h
      exact .nil
  | cons argument arguments ih =>
    unfold bindFrom at h
    obtain ⟨⟨p, rest⟩, -, h⟩ := exists_of_bind_eq_ok h
    obtain ⟨e, hfit, h⟩ := exists_of_bind_eq_ok h
    obtain ⟨others, hothers, h⟩ := exists_of_bind_eq_ok h
    cases h
    exact .cons (parse_of_fit hfit) (ih hothers)

theorem CallNode.arguments_of_found {registry : Registry} {pins : Pins} {call : CallNode}
    {f : Function} {bound : Bound call.site} (h : call.found registry pins = .ok (f, bound)) :
    ∃ reader : Reader, List.Forall₂ (fun argument binding =>
      reader.parse argument.text binding.parameter.ty = .ok binding.expr)
        call.site.arguments bound.1 := by
  obtain ⟨-, hbind⟩ := Pin.prepare_eq_ok.mp h
  generalize (pins.get call.place).edition.getD _ = edition at hbind
  exact ⟨edition.reader, forall₂_of_bindFrom (Edition.bindArguments_of_bind hbind)⟩

/-! ## Trees -/

/-- The calls and conversions of an expression. -/
inductive CallTree where
  /-- There is no call. -/
  | leaf
  /-- The first one of several parts, and those after it. -/
  | parts (first rest : CallTree)
  /-- The values of a part are turned into others. -/
  | converted (place : Place) (target : Ty) (inner : CallTree)
  /-- A call that cannot be prepared, so that its arguments are not known. -/
  | lost (call : CallNode)
  /-- A call with its arguments. -/
  | call (call : CallNode) (arguments : CallTree)

/-- A point at which an evaluation can fail. -/
inductive Point where
  /-- The function of a call is found, and its arguments are bound. -/
  | prepare (call : CallNode)
  /-- The depth of a call is checked, and its function is begun. -/
  | enter (call : CallNode)
  /-- The function of a call has ended. -/
  | leave (call : CallNode)
  /-- The values of the part at a place are turned into others. -/
  | convert (place : Place) (target : Ty)

/-- The call whose function is run from a point on. -/
def Point.entered : Point → Option CallNode
  | enter call => some call
  | _ => none

namespace CallTree

/-- The points of an evaluation, in order. A call is prepared first; then come its arguments, and
then it is run. There is nothing more to a call that cannot be prepared. -/
def points : CallTree → List Point
  | leaf => []
  | parts first rest => first.points ++ rest.points
  | converted place target inner => inner.points ++ [.convert place target]
  | lost node => [.prepare node]
  | call node arguments => .prepare node :: arguments.points ++ [.enter node, .leave node]

/-- All calls, the arguments of a call before it. -/
def postorder : CallTree → List CallNode
  | leaf => []
  | parts first rest => first.postorder ++ rest.postorder
  | converted _ _ inner => inner.postorder
  | lost node => [node]
  | call node arguments => arguments.postorder ++ [node]

end CallTree

mutual

/-- The tree of the expression at a place, as call sites remember it. -/
def Registry.tree (registry : Registry) (pins : Pins) (place : Place) : Expr → CallTree
  | .literal _ => .leaf
  | .template _ => .leaf
  | .reference _ => .leaf
  | .list items _ => registry.treeEach pins place 0 items
  | .converted inner target => .converted place target (registry.tree pins place inner)
  | .call site _ _ => registry.treeOf pins ⟨place, site.space, site⟩
termination_by e => (e.reach, sizeOf e)

/-- The tree of some expressions, the parts of the one at `place` from `index` on. -/
def Registry.treeEach (registry : Registry) (pins : Pins) (place : Place) (index : Nat) :
    List Expr → CallTree
  | [] => .leaf
  | item :: items =>
    .parts (registry.tree pins (place.child index) item)
      (registry.treeEach pins place (index + 1) items)
termination_by items => (Expr.reachAll items, sizeOf items)
decreasing_by
  · exact descends (Nat.le_max_left _ _) (by simp only [List.cons.sizeOf_spec]; omega)
  · exact descends (Nat.le_max_right _ _) (by simp only [List.cons.sizeOf_spec]; omega)

/-- The tree of a call. -/
def Registry.treeOf (registry : Registry) (pins : Pins) (call : CallNode) : CallTree :=
  match call.found registry pins with
  | .error _ => .lost call
  | .ok (_, ⟨bindings, _⟩) =>
    .call call (registry.treeEach pins call.place 0 (bindings.map Binding.expr))
termination_by (call.site.reach, 0)

end

section

variable (registry : Registry) {pins : Pins}

theorem Registry.treeOf_of_error {call : CallNode} {cause : BindError}
    (h : call.found registry pins = .error cause) : registry.treeOf pins call = .lost call := by
  rw [treeOf]
  split
  · rfl
  · next hfound =>
    rw [h] at hfound
    cases hfound

theorem Registry.treeOf_of_ok {call : CallNode} {f : Function}
    {bound : Bound call.site} (h : call.found registry pins = .ok (f, bound)) :
    registry.treeOf pins call =
      .call call (registry.treeEach pins call.place 0 (bound.1.map Binding.expr)) := by
  rw [treeOf]
  split
  · next hfound =>
    rw [h] at hfound
    cases hfound
  · next hfound =>
    rw [h] at hfound
    cases hfound
    rfl

variable (pins)

mutual

/-- The calls of an expression lie in it, each at a place of its own. -/
theorem Registry.postorder_tree (place : Place) (e : Expr) :
    (∀ call ∈ (registry.tree pins place e).postorder, place.Contains call.place) ∧
      ((registry.tree pins place e).postorder.map CallNode.place).Nodup := by
  match e with
  | .literal _ | .template _ | .reference _ =>
    rw [tree]
    exact ⟨fun call h => absurd h List.not_mem_nil, .nil⟩
  | .list items _ =>
    rw [tree]
    obtain ⟨hin, hnodup⟩ := Registry.postorder_treeEach place 0 items
    refine ⟨?_, hnodup⟩
    intro call hcall
    obtain ⟨i, -, hplace⟩ := hin call hcall
    exact Place.contains_of_child hplace
  | .converted inner target =>
    rw [tree]
    exact Registry.postorder_tree place inner
  | .call site _ _ =>
    rw [tree]
    exact Registry.postorder_treeOf ⟨place, site.space, site⟩
termination_by (e.reach, sizeOf e)

theorem Registry.postorder_treeEach (place : Place) (index : Nat) (items : List Expr) :
    (∀ call ∈ (registry.treeEach pins place index items).postorder,
        ∃ i ≥ index, (place.child i).Contains call.place) ∧
      ((registry.treeEach pins place index items).postorder.map CallNode.place).Nodup := by
  match items with
  | [] =>
    rw [treeEach]
    exact ⟨fun call h => absurd h List.not_mem_nil, .nil⟩
  | item :: items =>
    obtain ⟨hhead, hnodup⟩ := Registry.postorder_tree (place.child index) item
    obtain ⟨htail, hnodup'⟩ := Registry.postorder_treeEach place (index + 1) items
    rw [treeEach, CallTree.postorder]
    refine ⟨?_, ?_⟩
    · intro call hcall
      rcases List.mem_append.mp hcall with hcall | hcall
      · exact ⟨index, Nat.le_refl _, hhead call hcall⟩
      · obtain ⟨i, hi, hplace⟩ := htail call hcall
        exact ⟨i, Nat.le_of_succ_le hi, hplace⟩
    · -- The calls of one item do not lie in another.
      rw [List.map_append]
      refine hnodup.append hnodup' ?_
      intro other hother hother'
      obtain ⟨call, hcall, rfl⟩ := List.mem_map.mp hother
      obtain ⟨call', hcall', hsame⟩ := List.mem_map.mp hother'
      obtain ⟨i, hi, hplace⟩ := htail call' hcall'
      rw [hsame] at hplace
      have hindex := Place.index_eq_of_contains (hhead call hcall) hplace
      omega
termination_by (Expr.reachAll items, sizeOf items)
decreasing_by
  · exact descends (Nat.le_max_left _ _) (by simp only [List.cons.sizeOf_spec]; omega)
  · exact descends (Nat.le_max_right _ _) (by simp only [List.cons.sizeOf_spec]; omega)

theorem Registry.postorder_treeOf (call : CallNode) :
    (∀ other ∈ (registry.treeOf pins call).postorder, call.place.Contains other.place) ∧
      ((registry.treeOf pins call).postorder.map CallNode.place).Nodup := by
  match hfound : call.found registry pins with
  | .error cause =>
    rw [registry.treeOf_of_error hfound, CallTree.postorder]
    refine ⟨?_, List.nodup_singleton _⟩
    intro other hother
    rw [List.mem_singleton.mp hother]
    exact Place.contains_self _
  | .ok (f, bound) =>
    obtain ⟨hin, hnodup⟩ :=
      Registry.postorder_treeEach call.place 0 (bound.1.map Binding.expr)
    rw [registry.treeOf_of_ok hfound, CallTree.postorder]
    refine ⟨?_, ?_⟩
    · intro other hother
      rcases List.mem_append.mp hother with hother | hother
      · obtain ⟨i, -, hplace⟩ := hin other hother
        exact Place.contains_of_child hplace
      · rw [List.mem_singleton.mp hother]
        exact Place.contains_self _
    · -- A call is at another place than its arguments.
      rw [List.map_append]
      refine hnodup.append (List.nodup_singleton _) ?_
      intro other hother hother'
      obtain ⟨argument, hargument, rfl⟩ := List.mem_map.mp hother
      obtain ⟨i, -, hplace⟩ := hin argument hargument
      exact Place.ne_of_child_contains hplace (List.mem_singleton.mp hother').symm
termination_by (call.site.reach, 0)
decreasing_by
  · exact .left _ _ bound.2

end

end

/-! ## The tree that is known beforehand -/

section

variable {registry : Registry} {layout : Layout} {state : State}

/-- What is found at a call that remembers nothing but what would be found now. -/
theorem State.AgreesWith.found_eq (h : state.AgreesWith registry layout) {call : CallNode}
    (hplace : layout call.place = some (call.space, call.site)) :
    call.found registry state.pins = call.found registry {} := by
  rw [CallNode.found, CallNode.found, Pins.get_empty]
  exact (h call.place call.space call.site hplace).prepare_fst

mutual

/-- While call sites remember nothing but what would be found now, the tree of an expression is the
one that would be found now. -/
theorem Registry.tree_eq_of_agrees (h : state.AgreesWith registry layout) (place : Place) (e : Expr)
    (hcovers : layout.Covers place (registry.callAt e)) :
    registry.tree state.pins place e = registry.tree {} place e := by
  match e with
  | .literal _ | .template _ | .reference _ => rw [tree, tree]
  | .list items _ =>
    rw [tree, tree]
    exact Registry.treeEach_eq_of_agrees h place 0 items hcovers.items
  | .converted inner target =>
    rw [tree, tree, Registry.tree_eq_of_agrees h place inner hcovers.converted]
  | .call site _ _ =>
    rw [tree, tree]
    exact Registry.treeOf_eq_of_agrees h ⟨place, site.space, site⟩ hcovers.call
termination_by (e.reach, sizeOf e)

theorem Registry.treeEach_eq_of_agrees (h : state.AgreesWith registry layout) (place : Place)
    (index : Nat) (items : List Expr) (hcovers : layout.CoversEach registry place index items) :
    registry.treeEach state.pins place index items = registry.treeEach {} place index items := by
  match items with
  | [] => rw [treeEach, treeEach]
  | item :: items =>
    rw [treeEach, treeEach, Registry.tree_eq_of_agrees h _ item hcovers.head,
      Registry.treeEach_eq_of_agrees h place (index + 1) items hcovers.tail]
termination_by (Expr.reachAll items, sizeOf items)
decreasing_by
  · exact descends (Nat.le_max_left _ _) (by simp only [List.cons.sizeOf_spec]; omega)
  · exact descends (Nat.le_max_right _ _) (by simp only [List.cons.sizeOf_spec]; omega)

theorem Registry.treeOf_eq_of_agrees (h : state.AgreesWith registry layout) (call : CallNode)
    (hcovers : layout.Covers call.place (registry.siteAt call.space call.site)) :
    registry.treeOf state.pins call = registry.treeOf {} call := by
  have hsame := h.found_eq hcovers.here
  match hfound : call.found registry {} with
  | .error cause =>
    rw [registry.treeOf_of_error hfound, registry.treeOf_of_error (hsame.trans hfound)]
  | .ok (f, bound) =>
    rw [registry.treeOf_of_ok hfound, registry.treeOf_of_ok (hsame.trans hfound)]
    have hprepared : (({} : Pin).prepare registry call.space call.site).1 = .ok (f, bound) := by
      rw [← hfound, CallNode.found, Pins.get_empty]
    rw [Registry.treeEach_eq_of_agrees h call.place 0 _ (hcovers.arguments hprepared)]
termination_by (call.site.reach, 0)
decreasing_by
  exact .left _ _ bound.2

end

end

end CallScript

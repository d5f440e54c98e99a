import ConfigLang.Document
import ConfigLang.Proofs.Grammar.Acceptance

/-!
# Parsed documents have no shape errors

Evaluation checks the shape of each node it meets, since trees can be put together by hand. For the
trees that parsing answers with, none of these checks fails.

* `WithoutShapeError` - a computation that does not complain about a shape.
* `EvaluatesSafely` - what evaluation does with the trees of each production.
* `Scope.Sound` - a scope whose names are bound to values.
* `parsed_documents_have_no_shape_error` - the result.

The nodes that names are bound to come from the same document, or are copies of nodes that were bound
before, so they are values as well: that is what the assignments keep.
-/

namespace ConfigLang

/-! ### Computations without shape errors -/

/-- Whether an error is about the shape of a tree. -/
def EvalError.isMalformed : EvalError → Bool
  | .malformed _ => true
  | _ => false

/-- The computation does not complain about the shape of a tree. -/
def WithoutShapeError {α : Type} (x : Except EvalError α) : Prop :=
  ∀ reason, x ≠ .error (.malformed reason)

namespace WithoutShapeError

variable {α β : Type}

theorem ok (a : α) : WithoutShapeError (.ok a) := by
  intro reason h
  cases h

theorem error {e : EvalError} (he : e.isMalformed = false) :
    WithoutShapeError (.error e : Except EvalError α) := by
  intro reason h
  rw [Except.error.inj h] at he
  cases he

theorem bind {x : Except EvalError α} {f : α → Except EvalError β} (hx : WithoutShapeError x)
    (hf : ∀ a, x = .ok a → WithoutShapeError (f a)) : WithoutShapeError (x >>= f) := by
  cases x with
  | ok a => exact hf a rfl
  | error e =>
    intro reason h
    exact hx reason (by rw [Except.error.inj h])

theorem ok_bind {a : α} {f : α → Except EvalError β} (h : WithoutShapeError (f a)) :
    WithoutShapeError (.ok a >>= f) := h

theorem map {x : Except EvalError α} (f : α → β) (hx : WithoutShapeError x) :
    WithoutShapeError (f <$> x) := by
  cases x with
  | ok a => exact ok (f a)
  | error e =>
    intro reason h
    exact hx reason (by rw [Except.error.inj h])

theorem mapM {f : α → Except EvalError β} {items : List α}
    (hf : ∀ a ∈ items, WithoutShapeError (f a)) : WithoutShapeError (items.mapM f) := by
  induction items with
  | nil => exact ok []
  | cons a items ih =>
    rw [List.mapM_cons]
    refine (hf a List.mem_cons_self).bind fun b _ => ?_
    exact (ih fun c hc => hf c (List.mem_cons_of_mem a hc)).bind fun bs _ => ok _

end WithoutShapeError

/-! ### Trees -/

theorem ne_emptyPath_of_bind {α β : Type} {x : Except PathError α} (hx : x ≠ .error .emptyPath)
    (f : α → β) : (x >>= fun a => .ok (f a)) ≠ .error .emptyPath := by
  cases x with
  | ok a =>
    intro h
    cases h
  | error e =>
    intro h
    obtain rfl := Except.error.inj h
    exact hx rfl

/-- A write at a path with a key fails only for a value that is in the way. -/
theorem writeAt_ne_emptyPath {fields : OrderedMap Value} {path : List String} {value : Value}
    (hpath : path ≠ []) : writeAt fields path value ≠ .error .emptyPath := by
  fun_induction writeAt fields path value with
  | case1 => exact absurd rfl hpath
  | case2 =>
    intro h
    cases h
  | case3 fields key next path value _ ih => exact ne_emptyPath_of_bind (ih (List.cons_ne_nil _ _)) _
  | case4 fields key next path value nested _ ih =>
    exact ne_emptyPath_of_bind (ih (List.cons_ne_nil _ _)) _
  | case5 =>
    intro h
    cases h

/-- What evaluation does with the trees of a production: no shape error, and the keys of a path. -/
def EvaluatesSafely (resolve : Resolver (Except EvalError)) : Production → Node → Prop
  | .object, n => WithoutShapeError (n.evalFields resolve)
  | .entry, n => ∀ fields, WithoutShapeError (Node.evalEntry resolve fields n)
  | .path, n => ∃ keys, keys ≠ [] ∧ n.pathKeys = (.ok keys : Except EvalError (List String))
  | .segment, n => ∃ key, n.name = (.ok key : Except EvalError String)
  | .item, n =>
    WithoutShapeError (if n.kind = .spread then n.spreadItems resolve
      else List.singleton <$> n.eval resolve)
  | .part, n => WithoutShapeError (n.piece resolve)
  | .value, n => WithoutShapeError (n.eval resolve)
  | _, _ => True

section Trees

variable {resolve : Resolver (Except EvalError)}

theorem evalEntries_withoutShapeError {entries : List Node}
    (h : ∀ e ∈ entries, EvaluatesSafely resolve .entry e) (fields : OrderedMap Value) :
    WithoutShapeError (Node.evalEntries resolve fields entries) := by
  induction entries generalizing fields with
  | nil => exact .ok fields
  | cons e entries ih =>
    rw [Node.evalEntries]
    refine (h e List.mem_cons_self fields).bind fun after _ => ?_
    exact ih (fun e' he' => h e' (List.mem_cons_of_mem e he')) after

theorem evalItems_withoutShapeError {items : List Node}
    (h : ∀ i ∈ items, EvaluatesSafely resolve .item i) :
    WithoutShapeError (Node.evalItems resolve items) := by
  induction items with
  | nil => exact .ok []
  | cons i items ih =>
    rw [Node.evalItems]
    refine WithoutShapeError.bind (h i List.mem_cons_self) fun values _ => ?_
    exact (ih fun i' hi' => h i' (List.mem_cons_of_mem i hi')).bind fun others _ => .ok _

theorem pathKeys_of_segments {segments : List Node}
    (h : ∀ s ∈ segments, EvaluatesSafely resolve .segment s) :
    ∃ keys, keys.length = segments.length ∧
      segments.mapM Node.name = (.ok keys : Except EvalError (List String)) := by
  induction segments with
  | nil => exact ⟨[], rfl, rfl⟩
  | cons s segments ih =>
    obtain ⟨key, hkey⟩ := h s List.mem_cons_self
    obtain ⟨keys, hlength, hkeys⟩ := ih fun s' hs' => h s' (List.mem_cons_of_mem s hs')
    refine ⟨key :: keys, by rw [List.length_cons, List.length_cons, hlength], ?_⟩
    rw [List.mapM_cons, hkey, hkeys]
    rfl

/-- Evaluation has no shape error on a well-shaped tree, if none comes from the names in it. -/
theorem Shaped.evaluatesSafely (hres : ∀ name, WithoutShapeError (resolve name))
    {production : Production} {n : Node} (h : Shaped production n) :
    EvaluatesSafely resolve production n := by
  induction h with
  | object _ ih =>
    show WithoutShapeError (Node.evalFields resolve _)
    rw [Node.evalFields, if_pos (by rfl)]
    exact evalEntries_withoutShapeError ih []
  | entrySpread name =>
    intro fields
    refine WithoutShapeError.bind ?_ fun spread _ => .ok _
    refine WithoutShapeError.ok_bind ((hres name).bind fun value _ => ?_)
    cases value with
    | object inner => exact .ok inner
    | _ => exact .error rfl
  | @pair path value _ _ ihpath ihvalue =>
    intro fields
    obtain ⟨keys, hne, hkeys⟩ := ihpath
    show WithoutShapeError (Node.evalEntry resolve fields (.branch .pair [path, value]))
    rw [Node.branch, Node.evalEntry, hkeys]
    refine WithoutShapeError.ok_bind (WithoutShapeError.bind ihvalue fun v _ => ?_)
    cases hwrite : writeAt fields keys v with
    | ok after => exact .ok after
    | error e =>
      cases e with
      | emptyPath => exact absurd hwrite (writeAt_ne_emptyPath hne)
      | blocked key found => exact .error rfl
  | @path segments hne _ ih =>
    obtain ⟨keys, hlength, hkeys⟩ := pathKeys_of_segments ih
    refine ⟨keys, ?_, hkeys⟩
    rintro rfl
    exact hne (List.length_eq_zero_iff.1 hlength.symm)
  | segment key => exact ⟨key, rfl⟩
  | itemSpread name =>
    show WithoutShapeError (Node.spreadItems resolve _)
    refine WithoutShapeError.ok_bind ((hres name).bind fun value _ => ?_)
    cases value with
    | array items => exact .ok items
    | _ => exact .error rfl
  | itemValue hvalue ih =>
    show WithoutShapeError (if _ then _ else _)
    rw [if_neg hvalue.kind_ne_spread]
    exact ih.map List.singleton
  | charSequence text => exact .ok _
  | charEscape char => exact .ok _
  | interpolation name =>
    show WithoutShapeError (resolve name >>= _)
    refine WithoutShapeError.bind (hres name) fun value _ => ?_
    cases value with
    | string text => exact .ok _
    | _ => exact .error rfl
  | @objectValue object hobject ih =>
    obtain ⟨kind, literal, entries⟩ := object
    obtain rfl : kind = .object := hobject.kind_eq_object
    show WithoutShapeError (Node.eval resolve _)
    rw [Node.eval]
    exact WithoutShapeError.bind ih fun fields _ => .ok _
  | array _ ih =>
    show WithoutShapeError (Node.eval resolve _)
    rw [Node.branch, Node.eval]
    exact (evalItems_withoutShapeError ih).bind fun values _ => .ok _
  | string _ ih =>
    show WithoutShapeError (Node.eval resolve _)
    rw [Node.branch, Node.eval]
    exact (WithoutShapeError.mapM ih).bind fun pieces _ => .ok _
  | input name => exact hres name
  | boolean value => exact .ok _
  | float value => exact .ok _
  | integer value => exact .ok _
  | null => exact .ok _
  | _ => trivial

end Trees

/-! ### Names -/

namespace Scope

/-- All names are bound to values. -/
def Sound (s : Scope) : Prop :=
  ∀ name node, s.inputs.get? name = some node → Shaped .value node

theorem Sound.resolve {s : Scope} (h : s.Sound) (chain : List String) (name : String) :
    WithoutShapeError (s.resolve chain name) := by
  fun_induction Scope.resolve s chain name with
  | case1 => exact .ok _
  | case2 => exact .error rfl
  | case3 => exact .error rfl
  | case4 chain name _ node hbound _ ih => exact (h name node hbound).evaluatesSafely ih

theorem sound_clear (s : Scope) : s.clear.Sound := by
  intro name node h
  cases h

theorem follow_input (s : Scope) (target : String) :
    s.follow (.leaf .input (.text target)) =
      .ok ((s.inputs.get? target).getD (.leaf .input (.text target))) := rfl

/-- What is bound for a value is a value: the value itself, or what it names is bound to. -/
theorem Sound.follow {s : Scope} (h : s.Sound) {value : Node} (hvalue : Shaped .value value) :
    ∃ node, s.follow value = .ok node ∧ Shaped .value node := by
  by_cases hkind : value.kind = .input
  · obtain ⟨target, rfl⟩ := hvalue.exists_eq_input hkind
    rw [follow_input]
    refine ⟨_, rfl, ?_⟩
    cases hbound : s.inputs.get? target with
    | none => exact .input target
    | some node => exact h target node hbound
  · exact ⟨value, by rw [Scope.follow, if_neg hkind], hvalue⟩

theorem assign_branch (s : Scope) (name : String) (value : Node) :
    s.assign (.branch .assignment [.leaf .input (.text name), .branch .value [value]]) =
      s.follow value >>= fun node => .ok { s with inputs := s.inputs.insert name node } := rfl

/-- An assignment binds its name to a value. -/
theorem Sound.assign {s : Scope} (h : s.Sound) {a : Node} (ha : Shaped .assignment a) :
    ∃ s' : Scope, s.assign a = .ok s' ∧ s'.Sound := by
  cases ha with
  | @assignment value name hvalue =>
    obtain ⟨node, hnode, hshaped⟩ := h.follow hvalue
    rw [assign_branch, hnode]
    refine ⟨_, rfl, fun key bound hbound => ?_⟩
    rw [OrderedMap.get?_insert] at hbound
    split at hbound
    · rw [← Option.some.inj hbound]
      exact hshaped
    · exact h key bound hbound

theorem Sound.assignAll {s : Scope} (h : s.Sound) {assignments : List Node}
    (hall : ∀ a ∈ assignments, Shaped .assignment a) :
    ∃ s' : Scope, s.assignAll assignments = (s', .ok ()) ∧ s'.Sound := by
  induction assignments generalizing s with
  | nil => exact ⟨s, rfl, h⟩
  | cons a assignments ih =>
    obtain ⟨next, hnext, hsound⟩ := h.assign (hall a List.mem_cons_self)
    rw [Scope.assignAll, hnext]
    exact ih hsound fun b hb => hall b (List.mem_cons_of_mem a hb)

theorem enter_block (s : Scope) (assignments : List Node) (object : Node) :
    s.enter [.branch .assignBlock assignments, object] =
      ((s.clear.assignAll assignments).1,
        (s.clear.assignAll assignments).2.map fun _ => object) := rfl

/-- The scope of a well-shaped document binds names to values, and its root is an object. -/
theorem enter_of_shaped (s : Scope) {config : Node} (h : Shaped .config config) :
    config.kind = .config ∧ ∃ (inner : Scope) (object : Node),
      s.enter config.children = (inner, .ok object) ∧ inner.Sound ∧ Shaped .object object := by
  cases h with
  | @config object hobject =>
    refine ⟨rfl, s.clear, object, ?_, s.sound_clear, hobject⟩
    show (if object.kind = .object then _ else _) = _
    rw [if_pos hobject.kind_eq_object]
  | @configWithInputs block object hblock hobject =>
    cases hblock with
    | @inputBlock assignments hall =>
      obtain ⟨inner, hinner, hsound⟩ := s.sound_clear.assignAll hall
      refine ⟨rfl, inner, object, ?_, hsound, hobject⟩
      show s.enter [.branch .assignBlock assignments, object] = _
      rw [enter_block, hinner]
      rfl

/-- A document comes to what its root object comes to in the scope of its names. -/
theorem evalConfig_of_enter (s : Scope) {config object : Node} {inner : Scope}
    (hkind : config.kind = .config) (henter : s.enter config.children = (inner, .ok object)) :
    (s.evalConfig config).1 = (object.evalFields (inner.resolve [])).map (Evaluation.mk inner.inputs) := by
  have hroot : (.ok object >>= Node.evalFields (inner.resolve []) :
      Except EvalError (OrderedMap Value)) = object.evalFields (inner.resolve []) := rfl
  rw [evalConfig, if_pos hkind, henter]
  simp only [hroot]
  cases object.evalFields (inner.resolve []) <;> rfl

/-- Evaluating a well-shaped document has no shape error, whatever the scope has gone through. -/
theorem evalConfig_withoutShapeError (s : Scope) {config : Node} (h : Shaped .config config) :
    WithoutShapeError (s.evalConfig config).1 := by
  obtain ⟨hkind, inner, object, henter, hsound, hobject⟩ := s.enter_of_shaped h
  have hfields : WithoutShapeError (object.evalFields (inner.resolve [])) :=
    hobject.evaluatesSafely (hsound.resolve [])
  rw [s.evalConfig_of_enter hkind henter]
  cases hresult : object.evalFields (inner.resolve []) with
  | ok fields => exact .ok _
  | error e =>
    intro reason hreason
    exact hfields reason (by rw [hresult, Except.error.inj hreason])

end Scope

/-! ### Documents -/

/-- A parsed document is evaluated without a shape error in any scope, and so is any source. -/
theorem parsed_documents_have_no_shape_error :
    (∀ tokens tree, treeOf tokens = .ok tree →
      ∀ (s : Scope) reason, (s.evalConfig tree).1 ≠ .error (.malformed reason)) ∧
    ∀ env source reason, evaluate env source ≠ .error (.evaluation (.malformed reason)) := by
  have htree : ∀ tokens tree, treeOf tokens = .ok tree →
      ∀ (s : Scope) reason, (s.evalConfig tree).1 ≠ .error (.malformed reason) := by
    intro tokens tree h s
    exact s.evalConfig_withoutShapeError (Grammar.shaped_and_tokens_of_treeOf h).1
  refine ⟨htree, fun env source reason h => ?_⟩
  obtain ⟨tokens, tree, hparse, heval⟩ := tree_of_evaluate_eq_error h
  exact htree tokens tree hparse (Scope.new env) reason heval

/-- The names that an earlier document has left behind make no difference, even one bound to a tree that
is no value. -/
theorem parsed_document_after_stray_binding :
    treeOf [.symbol .braceOpen, .segment "a", .symbol .equals, .input "$x", .symbol .braceClose] =
        .ok (.branch .config [.branch .object [.branch .pair
          [.branch .path [.leaf .pathSegment (.text "a")], .leaf .input (.text "$x")]]]) ∧
      ((Scope.mk .empty [("$x", .branch .path [])]).evalConfig
        (.branch .config [.branch .object [.branch .pair
          [.branch .path [.leaf .pathSegment (.text "a")], .leaf .input (.text "$x")]]])).1 ≠
        .error (.malformed .emptyPath) ∧
      evaluate .empty "\x7b a = $x \x7d" ≠ .error (.evaluation (.malformed .emptyPath)) := by
  have htree : treeOf [.symbol .braceOpen, .segment "a", .symbol .equals, .input "$x",
      .symbol .braceClose] = .ok (.branch .config [.branch .object [.branch .pair
        [.branch .path [.leaf .pathSegment (.text "a")], .leaf .input (.text "$x")]]]) := rfl
  refine ⟨htree, ?_, ?_⟩
  · exact parsed_documents_have_no_shape_error.1 _ _ htree _ _
  · exact parsed_documents_have_no_shape_error.2 _ _ _

end ConfigLang

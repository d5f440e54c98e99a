import ConfigLang.Eval.Node
import ConfigLang.Proofs.Grammar.Shape
import ConfigLang.Proofs.Value.Written

/-!
# The trees of values

A value that can be written has a tree without names, and the tree evaluates to the value. Strings keep their
line feeds, since these are spelled by escapes, and objects keep the order of their keys.

* `partsFrom` - the parts of a string: runs of characters, as long as possible, and escapes.
* `Value.node` - the tree of a value.
* `Value.Writable.shaped_node` - the tree has the shape of a value.
* `Value.Writable.eval_node` - it evaluates to the value.
-/

namespace ConfigLang

/-! ### Strings -/

/-- A run of characters as a part of a string; no part at all if it is empty. -/
def runParts (run : List Char) : List Node :=
  if run = [] then [] else [.leaf .charSequence (.text (String.ofList run))]

/-- The parts of a string behind a run of characters that goes on as far as possible. -/
def partsFrom (run : List Char) : List Char → List Node
  | [] => runParts run
  | c :: rest =>
    if isVerbatim c then partsFrom (run ++ [c]) rest
    else runParts run ++ .leaf .charEscape (.char c) :: partsFrom [] rest

theorem shaped_of_mem_runParts {run : List Char} : ∀ p ∈ runParts run, Shaped .part p := by
  intro p hp
  rw [runParts] at hp
  split at hp
  · cases hp
  · rw [List.mem_singleton.1 hp]
    exact .charSequence _

theorem shaped_of_mem_partsFrom {run text : List Char} :
    ∀ p ∈ partsFrom run text, Shaped .part p := by
  induction text generalizing run with
  | nil => exact shaped_of_mem_runParts
  | cons c rest ih =>
    rw [partsFrom]
    split
    · exact ih
    · intro p hp
      rcases List.mem_append.1 hp with hp | hp
      · exact shaped_of_mem_runParts p hp
      · rcases List.mem_cons.1 hp with rfl | hp
        · exact .charEscape c
        · exact ih p hp

/-! ### Values -/

namespace Value

/-- The pair of a field. -/
def fieldNode (key : String) (value : Node) : Node :=
  .branch .pair [.branch .path [.leaf .pathSegment (.text key)], value]

mutual

/-- The tree of a value. -/
def node : Value → Node
  | null => .branch .null []
  | boolean value => .leaf .boolean (.boolean value)
  | integer value => .leaf .integer (.integer value)
  | float value => .leaf .float (.float value)
  | string text => .branch .string (partsFrom [] text.toList)
  | array items => .branch .array (itemNodes items)
  | object fields => .branch .object (fieldNodes fields)
termination_by structural v => v

/-- The trees of the items of an array. -/
def itemNodes : List Value → List Node
  | [] => []
  | item :: rest => item.node :: itemNodes rest
termination_by structural items => items

/-- The pairs of the fields of an object. -/
def fieldNodes : List (String × Value) → List Node
  | [] => []
  | (key, value) :: rest => fieldNode key value.node :: fieldNodes rest
termination_by structural fields => fields

end

theorem itemNodes_eq_map (items : List Value) : itemNodes items = items.map node := by
  induction items with
  | nil => rw [itemNodes, List.map_nil]
  | cons item rest ih => rw [itemNodes, ih, List.map_cons]

theorem fieldNodes_eq_map (fields : OrderedMap Value) :
    fieldNodes fields = fields.map fun f => fieldNode f.1 f.2.node := by
  induction fields with
  | nil => rw [fieldNodes, List.map_nil]
  | cons f rest ih =>
    obtain ⟨key, value⟩ := f
    rw [fieldNodes, ih, List.map_cons]

variable {floatText : Float → List Char} {v : Value}

theorem shaped_fieldNode (key : String) {value : Node} (h : Shaped .value value) :
    Shaped .entry (fieldNode key value) := by
  refine .pair (.path (List.cons_ne_nil _ _) fun s hs => ?_) h
  rw [List.mem_singleton.1 hs]
  exact .segment key

theorem Writable.shaped_node (h : Writable floatText v) : Shaped .value v.node := by
  induction h with
  | null => exact .null
  | boolean value => exact .boolean value
  | integer value => exact .integer value
  | float _ _ => exact .float _
  | string text => exact .string shaped_of_mem_partsFrom
  | @array items _ ih =>
    rw [node, itemNodes_eq_map]
    refine .array fun n hn => ?_
    obtain ⟨i, hi, rfl⟩ := List.mem_map.1 hn
    exact .itemValue (ih i hi)
  | @object fields _ _ _ ih =>
    rw [node, fieldNodes_eq_map]
    refine .objectValue (.object fun n hn => ?_)
    obtain ⟨f, hf, rfl⟩ := List.mem_map.1 hn
    exact shaped_fieldNode f.1 (ih f hf)

end Value

/-! ### What the trees evaluate to -/

section Eval

variable {resolve : Resolver (Except EvalError)}

theorem exists_pieces_of_run (resolve : Resolver (Except EvalError)) (run : List Char) :
    ∃ pieces, (runParts run).mapM (Node.piece resolve) = .ok pieces ∧
      pieces.flatMap (·.text.toList) = run := by
  by_cases hrun : run = []
  · refine ⟨[], ?_, hrun.symm⟩
    rw [runParts, if_pos hrun]
    rfl
  · refine ⟨[⟨String.ofList run, false⟩], ?_, ?_⟩
    · rw [runParts, if_neg hrun]
      rfl
    · simp

/-- The parts of a string stand for its characters, and a line feed is one that an escape spells. -/
theorem exists_pieces (resolve : Resolver (Except EvalError)) (run text : List Char) :
    ∃ pieces, (partsFrom run text).mapM (Node.piece resolve) = .ok pieces ∧
      pieces.flatMap (·.text.toList) = run ++ text ∧
      ('\n' ∈ text → pieces.any (·.escaped) = true) := by
  induction text generalizing run with
  | nil =>
    obtain ⟨pieces, hpieces, htext⟩ := exists_pieces_of_run resolve run
    exact ⟨pieces, hpieces, by rw [htext, List.append_nil], fun h => absurd h List.not_mem_nil⟩
  | cons c rest ih =>
    by_cases hc : isVerbatim c = true
    · obtain ⟨pieces, hpieces, htext, hescaped⟩ := ih (run ++ [c])
      refine ⟨pieces, ?_, ?_, fun h => hescaped ?_⟩
      · rw [partsFrom, if_pos hc, hpieces]
      · rw [htext, List.append_assoc, List.singleton_append]
      · rcases List.mem_cons.1 h with rfl | h
        · exact absurd hc (by decide)
        · exact h
    · obtain ⟨before, hbefore, hrun⟩ := exists_pieces_of_run resolve run
      obtain ⟨after, hafter, htext, -⟩ := ih []
      have hpiece : Node.piece resolve (.leaf .charEscape (.char c)) =
          .ok ⟨String.singleton c, true⟩ := rfl
      refine ⟨before ++ ⟨String.singleton c, true⟩ :: after, ?_, ?_, fun _ => by simp⟩
      · rw [partsFrom, if_neg hc, List.mapM_append, List.mapM_cons, hbefore, hpiece, hafter]
        rfl
      · simp [hrun, htext]

/-- A string keeps its characters: one with a line feed has an escape, so it is not unindented. -/
theorem eval_string (text : String) :
    (Node.branch .string (partsFrom [] text.toList)).eval resolve = .ok (.string text) := by
  obtain ⟨pieces, hpieces, htext, hescaped⟩ := exists_pieces resolve [] text.toList
  rw [List.nil_append] at htext
  have hjoin : Piece.join pieces = text := Piece.join_eq htext hescaped
  rw [Node.branch, Node.eval, hpieces]
  show Except.ok (Value.string (Piece.join pieces)) = _
  rw [hjoin]

variable {floatText : Float → List Char}

theorem evalItems_itemNodes {items : List Value} (hitems : ∀ i ∈ items, i.Writable floatText)
    (heval : ∀ i ∈ items, i.node.eval resolve = .ok i) :
    Node.evalItems resolve (Value.itemNodes items) = .ok items := by
  induction items with
  | nil => rfl
  | cons i rest ih =>
    have hrest := ih (fun j hj => hitems j (List.mem_cons_of_mem i hj))
      (fun j hj => heval j (List.mem_cons_of_mem i hj))
    have hkind := (hitems i List.mem_cons_self).shaped_node.kind_ne_spread
    rw [Value.itemNodes, Node.evalItems, if_neg hkind, heval i List.mem_cons_self, hrest]
    rfl

/-- Each field is put behind the ones in front of it, as its key is new. -/
theorem evalEntries_fieldNodes {done fields : OrderedMap Value}
    (hkeys : (done.keys ++ fields.keys).Nodup)
    (heval : ∀ f ∈ fields, f.2.node.eval resolve = .ok f.2) :
    Node.evalEntries resolve done (Value.fieldNodes fields) = .ok (done ++ fields) := by
  induction fields generalizing done with
  | nil =>
    rw [List.append_nil]
    rfl
  | cons f rest ih =>
    obtain ⟨key, value⟩ := f
    have hkeys' : (done.keys ++ key :: OrderedMap.keys rest).Nodup := hkeys
    have hnew : key ∉ done.keys := fun hmem =>
      (List.nodup_append.1 hkeys').2.2 key hmem key List.mem_cons_self rfl
    have hentry : Node.evalEntry resolve done (Value.fieldNode key value.node) =
        .ok (done ++ [(key, value)]) := by
      have hvalue : value.node.eval resolve = .ok value := heval _ List.mem_cons_self
      have hpath : Node.pathKeys (.branch .path [.leaf .pathSegment (.text key)]) =
          (.ok [key] : Except EvalError (List String)) := rfl
      rw [Value.fieldNode, Node.branch, Node.evalEntry, hpath, hvalue]
      show Except.ok (done.insert key value) = _
      rw [OrderedMap.insert_of_not_mem hnew]
    have hrest : ((done ++ [(key, value)]).keys ++ OrderedMap.keys rest).Nodup := by
      rw [OrderedMap.keys, List.map_append, ← OrderedMap.keys, List.append_assoc]
      exact hkeys'
    rw [Value.fieldNodes, Node.evalEntries, hentry]
    show Node.evalEntries resolve (done ++ [(key, value)]) (Value.fieldNodes rest) = _
    rw [ih hrest fun f hf => heval f (List.mem_cons_of_mem _ hf), List.append_assoc,
      List.singleton_append]

theorem evalFields_node_object {fields : OrderedMap Value} (hkeys : fields.keys.Nodup)
    (heval : ∀ f ∈ fields, f.2.node.eval resolve = .ok f.2) :
    (Value.object fields).node.evalFields resolve = .ok fields := by
  have hall : (OrderedMap.keys ([] : OrderedMap Value) ++ fields.keys).Nodup := hkeys
  rw [Value.node, Node.evalFields_branch]
  exact evalEntries_fieldNodes hall heval

/-- The tree of a value evaluates to the value. -/
theorem Value.Writable.eval_node {v : Value} (h : v.Writable floatText) :
    v.node.eval resolve = .ok v := by
  induction h with
  | null => rfl
  | boolean value => rfl
  | integer value => rfl
  | float _ _ => rfl
  | string text => exact eval_string text
  | @array items hitems ih =>
    rw [Value.node, Node.branch, Node.eval, evalItems_itemNodes hitems ih]
    rfl
  | @object fields hkeys _ _ ih =>
    rw [Node.eval_of_object resolve rfl, evalFields_node_object hkeys ih]
    rfl

theorem Value.Writable.evalFields_node {fields : OrderedMap Value}
    (h : (Value.object fields).Writable floatText) :
    (Value.object fields).node.evalFields resolve = .ok fields := by
  cases h with
  | object hkeys _ hvalues =>
    exact evalFields_node_object hkeys fun f hf => (hvalues f hf).eval_node

end Eval

end ConfigLang

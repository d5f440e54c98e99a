import ConfigLang.Eval.Error
import ConfigLang.Text.Indentation

/-!
# Evaluating a tree

A tree is evaluated from left to right, given the values of the names in it. Where those come from
is left open here: the functions take a resolver, which answers with the value of a name or fails.
What else a resolver does is left open too, so the functions run in any monad that has the errors.

* `Node.eval` - the value of a node that stands for a value.
* `Node.evalFields` - the fields of an object node.

Every node is looked at once, so the recursion is on the tree alone.
-/

namespace ConfigLang

/-- The values of the names in a tree. -/
abbrev Resolver (m : Type → Type) := String → m Value

/-- The text of a part of a string, and whether an escape spells it. -/
structure Piece where
  text : String
  escaped : Bool
deriving DecidableEq, Repr

/-- The text of a string with these parts. A string of several lines loses its indentation, but not
if an escape spells any of it. -/
def Piece.join (pieces : List Piece) : String :=
  let text := pieces.flatMap (·.text.toList)
  let isBlock := '\n' ∈ text ∧ !pieces.any (·.escaped)
  String.ofList (if isBlock then Text.unindentChars text else text)

/-- The text of a string is that of its parts if it is one line or some of it is escaped. -/
theorem Piece.join_eq {pieces : List Piece} {text : String}
    (htext : pieces.flatMap (·.text.toList) = text.toList)
    (hescaped : '\n' ∈ text.toList → pieces.any (·.escaped) = true) : join pieces = text := by
  have hblock : ¬ ('\n' ∈ text.toList ∧ (!pieces.any (·.escaped)) = true) := by
    rintro ⟨hmem, hnone⟩
    rw [hescaped hmem] at hnone
    cases hnone
  unfold join
  simp only [htext]
  rw [if_neg hblock, String.ofList_toList]

namespace Node

variable {m : Type → Type} [Monad m] [MonadExcept EvalError m]

/-- The name or key that a node carries. -/
def name (n : Node) : m String :=
  match n.text? with
  | some text => pure text
  | none => throw (.malformed (.missingName n))

/-! ### Parts of strings -/

/-- The text of a part of a string. -/
def piece (resolve : Resolver m) (part : Node) : m Piece :=
  match part.kind, part.literal with
  | .charSequence, some (.text text) => pure ⟨text, false⟩
  | .charEscape, some (.char char) => pure ⟨String.singleton char, true⟩
  | .input, some (.text name) => do
    match ← resolve name with
    | .string text => pure ⟨text, false⟩
    | other => throw (.interpolateNonString name other.kind)
  | _, _ => throw (.unexpected [.charSequence] part)

/-! ### Paths and spreads -/

/-- The keys of a path. -/
def pathKeys (path : Node) : m (List String) :=
  if path.kind = .path then path.children.mapM name
  else throw (.unexpected [.path] path)

/-- The items that an input brings into an array. -/
def spreadItems (resolve : Resolver m) (spread : Node) : m (List Value) := do
  let name ← spread.name
  match ← resolve name with
  | .array items => pure items
  | other => throw (.spreadNonArray name other.kind)

/-- The fields that an input brings into an object. -/
def spreadFields (resolve : Resolver m) (spread : Node) : m (OrderedMap Value) := do
  let name ← spread.name
  match ← resolve name with
  | .object fields => pure fields
  | other => throw (.spreadNonObject name other.kind)

/-! ### Values -/

mutual

/-- The value of a node. -/
def eval (resolve : Resolver m) : Node → m Value
  | ⟨.object, _, entries⟩ => do
    let fields ← evalEntries resolve [] entries
    pure (.object fields)
  | ⟨.array, _, items⟩ => do
    let values ← evalItems resolve items
    pure (.array values)
  | ⟨.string, _, parts⟩ => do
    let pieces ← parts.mapM (piece resolve)
    pure (.string (Piece.join pieces))
  | ⟨.input, literal, children⟩ => do
    let name ← name ⟨.input, literal, children⟩
    resolve name
  | ⟨.null, _, _⟩ => pure .null
  | ⟨.boolean, some (.boolean value), _⟩ => pure (.boolean value)
  | ⟨.float, some (.float value), _⟩ => pure (.float value)
  | ⟨.integer, some (.integer value), _⟩ => pure (.integer value)
  | ⟨.boolean, literal, children⟩ =>
    throw (.unexpected [.boolean] ⟨.boolean, literal, children⟩)
  | ⟨.float, literal, children⟩ => throw (.unexpected [.float] ⟨.float, literal, children⟩)
  | ⟨.integer, literal, children⟩ =>
    throw (.unexpected [.integer] ⟨.integer, literal, children⟩)
  | n => throw (.malformed (.notAValue n))
termination_by structural n => n

/-- The items of an array. -/
def evalItems (resolve : Resolver m) : List Node → m (List Value)
  | [] => pure []
  | item :: rest => do
    let values ← (if item.kind = .spread then spreadItems resolve item
      else List.singleton <$> eval resolve item)
    let others ← evalItems resolve rest
    pure (values ++ others)
termination_by structural items => items

/-- The fields after the entries of an object node, which are added to the given ones. -/
def evalEntries (resolve : Resolver m) (fields : OrderedMap Value) :
    List Node → m (OrderedMap Value)
  | [] => pure fields
  | entry :: rest => do
    let fields ← evalEntry resolve fields entry
    evalEntries resolve fields rest
termination_by structural entries => entries

/-- The fields after one entry of an object node. -/
def evalEntry (resolve : Resolver m) (fields : OrderedMap Value) :
    Node → m (OrderedMap Value)
  | ⟨.spread, literal, children⟩ => do
    let spread ← spreadFields resolve ⟨.spread, literal, children⟩
    pure (fields.merge spread)
  | ⟨.pair, _, [path, node]⟩ => do
    let path ← path.pathKeys
    let value ← eval resolve node
    match writeAt fields path value with
    | .ok fields => pure fields
    | .error e => throw (.ofPathError e)
  | ⟨.pair, literal, children⟩ => throw (.unexpected [.pair] ⟨.pair, literal, children⟩)
  | n => throw (.unexpected [.pair, .spread] n)
termination_by structural n => n

end

/-- The fields of an object node. -/
def evalFields (resolve : Resolver m) (n : Node) : m (OrderedMap Value) :=
  if n.kind = .object then evalEntries resolve [] n.children
  else throw (.unexpected [.object] n)

theorem evalFields_branch (resolve : Resolver m) (entries : List Node) :
    (branch .object entries).evalFields resolve = evalEntries resolve [] entries := by
  rw [evalFields, if_pos (by rfl)]
  rfl

theorem eval_of_object {n : Node} (resolve : Resolver m) (hkind : n.kind = .object) :
    n.eval resolve = n.evalFields resolve >>= fun fields => pure (.object fields) := by
  obtain ⟨kind, literal, children⟩ := n
  obtain rfl : kind = .object := hkind
  rw [eval, evalFields, if_pos rfl]

end Node

end ConfigLang

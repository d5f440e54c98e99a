import ConfigLang.Eval.Scope

/-!
# Evaluating the tree of a document

Evaluating a document forgets the names of the scope, binds those of the document's input block, and
evaluates the root object. When that succeeds the bindings are handed over with the result and the
scope is left without names; when it fails the scope stays as it was at that moment.

* `Evaluation` - the result: the bindings and the fields of the root object.
* `Scope.evalConfig` - evaluates a document.
* `Node.evaluate` - evaluates a document in an environment.
-/

namespace ConfigLang

/-- What a document evaluates to. -/
structure Evaluation where
  /-- The names with the nodes they are bound to, in the order of their first assignment. -/
  inputs : OrderedMap Node
  /-- The fields of the root object. -/
  fields : OrderedMap Value
deriving Repr

/-- The root object as a value. -/
def Evaluation.value (e : Evaluation) : Value := .object e.fields

namespace Scope

/-- The same environment without bound names. -/
def clear (s : Scope) : Scope := { s with inputs := [] }

/-- The scope of a document, given the children of its node, and the node of its root object unless
the shape is wrong. -/
def enter (s : Scope) : List Node → Scope × Except EvalError Node
  | [block, object] =>
    if block.kind = .assignBlock then
      let (inner, outcome) := s.clear.assignAll block.children
      (inner, outcome.map fun _ => object)
    else (s.clear, .error (.unexpected [.assignBlock, .object] block))
  | [object] =>
    if object.kind = .object then (s.clear, .ok object)
    else (s.clear, .error (.unexpected [.assignBlock, .object] object))
  | first :: _ => (s.clear, .error (.unexpected [.assignBlock, .object] first))
  | [] => (s.clear, .error (.malformed .emptyConfig))

/-- Evaluates a document and answers with the scope to go on with. -/
def evalConfig (s : Scope) (config : Node) : Except EvalError Evaluation × Scope :=
  if config.kind = .config then
    let (inner, root) := s.enter config.children
    match root >>= Node.evalFields (inner.resolve []) with
    | .ok fields => (.ok ⟨inner.inputs, fields⟩, inner.clear)
    | .error e => (.error e, inner)
  else (.error (.unexpected [.config] config), s)

end Scope

/-- Evaluates a document in an environment. -/
def Node.evaluate (env : Environment) (config : Node) : Except EvalError Evaluation :=
  ((Scope.new env).evalConfig config).1

end ConfigLang

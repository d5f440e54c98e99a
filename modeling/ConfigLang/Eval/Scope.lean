import ConfigLang.Environment
import ConfigLang.Eval.Node

/-!
# Scopes

A scope says what names stand for: the text that the environment puts in the place of a name, or
else the node that the name is bound to. That node is evaluated anew for each reference. While it is
evaluated its name is on a chain of names, and a name that comes up again on its own chain has no
value.

* `Scope.resolve` - the value of a name.
* `Scope.assign` - the scope after an assignment.

Only bound names get onto the chain and none of them twice, so the chain cannot grow for ever:
`unresolved_length_lt` is why `resolve` ends.
-/

namespace ConfigLang

/-- What names stand for. -/
structure Scope where
  env : Environment
  /-- The names that are bound, in the order of their first assignment. -/
  inputs : OrderedMap Node

namespace Scope

/-- The scope without bound names. -/
def new (env : Environment) : Scope := ⟨env, []⟩

/-! ### References -/

/-- The bound names that are not on the chain. -/
def unresolved (s : Scope) (chain : List String) : List String :=
  s.inputs.keys.filter (· ∉ chain)

/-- Putting a bound name on a chain that it is not on leaves fewer names. -/
theorem unresolved_length_lt {s : Scope} {chain : List String} {name : String} {node : Node}
    (hbound : s.inputs.get? name = some node) (hnew : name ∉ chain) :
    (s.unresolved (chain ++ [name])).length < (s.unresolved chain).length := by
  have hkey : name ∈ s.inputs.keys := by
    rw [← OrderedMap.get?_isSome_iff, hbound]
    rfl
  have hfilter : s.unresolved (chain ++ [name]) = (s.unresolved chain).filter (· ≠ name) := by
    simp [unresolved, List.filter_filter, Bool.and_comm]
  rw [hfilter, List.length_filter_lt_length_iff_exists]
  exact ⟨name, by simp [unresolved, hkey, hnew], by simp⟩

/-- The part of a chain from a name on, with the name once more at its end. -/
def cycle (chain : List String) (name : String) : List String :=
  chain.dropWhile (· ≠ name) ++ [name]

/-- The value of a name that is needed for the names on the chain. -/
def resolve (s : Scope) (chain : List String) (name : String) : Except EvalError Value :=
  match s.env.override name with
  | some text => .ok (.string text)
  | none =>
    match _hbound : s.inputs.get? name with
    | none => .error (.missingInput name)
    | some node =>
      if _hnew : name ∈ chain then .error (.cyclicInput (cycle chain name))
      else node.eval fun inner => s.resolve (chain ++ [name]) inner
termination_by (s.unresolved chain).length
decreasing_by exact unresolved_length_lt _hbound _hnew

section Resolve

variable {s : Scope} {chain : List String} {name : String}

/-- The environment gives a name its text, or it is not bound, or it is bound. -/
theorem overridden_or_unbound_or_bound (s : Scope) (name : String) :
    (∃ text, s.env.override name = some text) ∨
      (s.env.override name = none ∧ s.inputs.get? name = none) ∨
      ∃ node, s.env.override name = none ∧ s.inputs.get? name = some node := by
  cases hover : s.env.override name with
  | some text => exact Or.inl ⟨text, rfl⟩
  | none =>
    cases hbound : s.inputs.get? name with
    | none => exact Or.inr (Or.inl ⟨rfl, rfl⟩)
    | some node => exact Or.inr (Or.inr ⟨node, rfl, rfl⟩)

theorem resolve_of_override {text : String} (hover : s.env.override name = some text) :
    s.resolve chain name = .ok (.string text) := by
  rw [resolve, hover]

theorem resolve_of_unbound (hover : s.env.override name = none)
    (hbound : s.inputs.get? name = none) :
    s.resolve chain name = .error (.missingInput name) := by
  rw [resolve, hover]
  simp only
  split
  · rfl
  next node hnode =>
    rw [hbound] at hnode
    cases hnode

theorem resolve_of_bound {node : Node} (hover : s.env.override name = none)
    (hbound : s.inputs.get? name = some node) :
    s.resolve chain name =
      if name ∈ chain then .error (.cyclicInput (cycle chain name))
      else node.eval (s.resolve (chain ++ [name])) := by
  rw [resolve, hover]
  simp only
  split
  next hnode =>
    rw [hbound] at hnode
    cases hnode
  next other hnode =>
    obtain rfl := Option.some.inj (hbound.symm.trans hnode)
    simp only [dite_eq_ite]

end Resolve

/-! ### Assignments -/

/-- The node to the right of an assignment: the child of a value node, and any other node itself. -/
def assigned (n : Node) : Except EvalError Node :=
  match n.kind, n.children with
  | .value, first :: _ => .ok first
  | .value, [] => .error (.unexpected [.value] n)
  | _, _ => .ok n

/-- The node to bind: a name that is bound already gives way to what it is bound to, and one that is
not bound yet stays. -/
def follow (s : Scope) (n : Node) : Except EvalError Node :=
  if n.kind = .input then do
    let target ← n.name
    .ok ((s.inputs.get? target).getD n)
  else .ok n

/-- The scope after an assignment. -/
def assign (s : Scope) (assignment : Node) : Except EvalError Scope :=
  match assignment.children with
  | [left, right] => do
    let name ← left.name
    let node ← assigned right
    let node ← s.follow node
    .ok { s with inputs := s.inputs.insert name node }
  | _ => .error (.unexpected [.assignment] assignment)

/-- The scope after some assignments, and the error if one of them fails: then it is the scope
before that one. -/
def assignAll (s : Scope) : List Node → Scope × Except EvalError Unit
  | [] => (s, .ok ())
  | assignment :: rest =>
    match s.assign assignment with
    | .ok s => s.assignAll rest
    | .error e => (s, .error e)

end Scope

end ConfigLang

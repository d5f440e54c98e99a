import ConfigLang.Eval.Config

/-!
# Sessions

A session evaluates document after document in one environment, and tells the values of names in
between. From one request to the next it keeps the bound names and a list of marks: a name is marked
before the node that it is bound to is evaluated, and the last mark is taken off after that, whether
there was an error or not. A name that is marked already has no value.

* `Marking` - computations that may put marks on and take them off.
* `Scope.resolveMarking` - the value of a name, with the marks afterwards.
* `Session.evalConfig`, `Session.resolve` - the requests.
* `Session.after` - the session after some requests.

The marks are state here, while `Scope.resolve` hands its chain of names down. Evaluation goes on
with whatever marks it is given, so a name could be unmarked too early or stay marked: what the type
of the marks says is only that those of the names around it are still there.
-/

namespace ConfigLang

/-- The names that are marked when those of a given list are. -/
abbrev Marks (marked : List String) : Type := { names : List String // marked <+: names }

namespace Marks

variable {marked : List String} {name : String}

/-- No other names are marked. -/
def only (marked : List String) : Marks marked := ⟨marked, List.prefix_rfl⟩

/-- The last mark is taken off. -/
def unmark (marks : Marks (marked ++ [name])) : Marks marked :=
  ⟨marks.1.dropLast, by
    obtain ⟨_, more, rfl⟩ := marks
    show marked <+: (marked ++ [name] ++ more).dropLast
    rw [List.append_assoc, List.dropLast_append_of_ne_nil (by simp)]
    exact List.prefix_append marked _⟩

/-- A name that was marked last is unmarked. -/
theorem unmark_only (marked : List String) (name : String) :
    (only (marked ++ [name])).unmark = only marked :=
  Subtype.ext List.dropLast_concat

/-- More names are marked. -/
def add (marks : Marks marked) (more : Marks marks.1) : Marks marked :=
  ⟨more.1, marks.2.trans more.2⟩

end Marks

/-- Computations that answer or fail, and that change the marks of other names than the given ones. -/
abbrev Marking (marked : List String) : Type → Type := ExceptT EvalError (StateM (Marks marked))

namespace Scope

/-- Fewer names are left if more are marked. -/
theorem unresolved_length_le (s : Scope) {marked names : List String} (h : marked <+: names) :
    (s.unresolved names).length ≤ (s.unresolved marked).length := by
  have hfilter : s.unresolved names = (s.unresolved marked).filter (· ∉ names) := by
    rw [unresolved, unresolved, List.filter_filter]
    refine List.filter_congr fun name _ => ?_
    have hsubset : name ∈ marked → name ∈ names := fun hmem => h.subset hmem
    grind
  rw [hfilter]
  exact List.length_filter_le _ _

/-- The value of a name, and the marks afterwards. -/
def resolveMarking (s : Scope) (marked : List String) (name : String) :
    Except EvalError Value × Marks marked :=
  match s.env.override name with
  | some text => (.ok (.string text), .only marked)
  | none =>
    match _hbound : s.inputs.get? name with
    | none => (.error (.missingInput name), .only marked)
    | some node =>
      if _hnew : name ∈ marked then (.error (.cyclicInput (cycle marked name)), .only marked)
      else
        let value : Marking (marked ++ [name]) Value := node.eval fun inner marks =>
          let (result, more) := s.resolveMarking marks.1 inner
          (result, marks.add more)
        let (result, marks) := value (.only (marked ++ [name]))
        (result, marks.unmark)
termination_by (s.unresolved marked).length
decreasing_by
  exact Nat.lt_of_le_of_lt (s.unresolved_length_le marks.2) (unresolved_length_lt _hbound _hnew)

/-- The values of names, for a tree that is evaluated with some names marked. -/
def marking (s : Scope) (marked : List String) : Resolver (Marking marked) := fun name marks =>
  let (result, more) := s.resolveMarking marks.1 name
  (result, marks.add more)

end Scope

/-- A scope with the names that are being resolved. -/
structure Session where
  scope : Scope
  /-- The names in the order in which they were marked. -/
  marked : List String

/-- What a session can be asked for. -/
inductive Request where
  /-- To evaluate a document. -/
  | document (config : Node)
  /-- To tell the value of a name. -/
  | name (name : String)

namespace Session

/-- A session without bound names and without marks. -/
def new (env : Environment) : Session := ⟨.new env, []⟩

/-- Evaluates a document and answers with the session to go on with. -/
def evalConfig (s : Session) (config : Node) : Except EvalError Evaluation × Session :=
  if config.kind = .config then
    match s.scope.enter config.children with
    | (inner, .error e) => (.error e, ⟨inner, s.marked⟩)
    | (inner, .ok root) =>
      match root.evalFields (inner.marking s.marked) (.only s.marked) with
      | (.ok fields, marks) => (.ok ⟨inner.inputs, fields⟩, ⟨inner.clear, marks.1⟩)
      | (.error e, marks) => (.error e, ⟨inner, marks.1⟩)
  else (.error (.unexpected [.config] config), s)

/-- Tells the value of a name and answers with the session to go on with. -/
def resolve (s : Session) (name : String) : Except EvalError Value × Session :=
  let (result, marks) := s.scope.resolveMarking s.marked name
  (result, ⟨s.scope, marks.1⟩)

/-- The session after a request. -/
def step (s : Session) : Request → Session
  | .document config => (s.evalConfig config).2
  | .name name => (s.resolve name).2

/-- The session after some requests. -/
def after (s : Session) (requests : List Request) : Session := requests.foldl step s

end Session

end ConfigLang

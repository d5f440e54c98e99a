import ConfigLang.Eval.Session
import ConfigLang.Proofs.Eval.Assignments

/-!
# A session has no memory that matters

Whatever a session was asked for before, it evaluates a document as a new session does, and no name
stays marked. So a failure deep inside the names of one document does no harm to the next.

* `Restores` - a computation that leaves the marks as they were.
* `Scope.resolveMarking_eq` - names are resolved as on a chain, and the marks are restored.
* `sessions_have_no_memory` - the result.

Marks are put on and taken off in one place only, around the evaluation of the node that a name is bound
to. That evaluation leaves early for any error, so what counts is that it restores the marks when it fails
as well; `restores_simulation` says so of every step.
-/

namespace ConfigLang

/-! ### Marks are restored -/

/-- Going on after a computation that has changed the marks. -/
theorem Marking.bind_apply {marked : List String} {α β : Type} (x : Marking marked α)
    (f : α → Marking marked β) (marks : Marks marked) :
    (x >>= f) marks =
      match x marks with
      | (.ok a, marks) => f a marks
      | (.error e, marks) => (.error e, marks) := by
  show StateT.bind x (ExceptT.bindCont f) marks = _
  rw [StateT.bind]
  show (match x marks with | (result, marks) => ExceptT.bindCont f result marks) = _
  cases x marks with
  | mk result marks => cases result <;> rfl

/-- From the given marks, the computation comes to the same as the other one and leaves the marks as they
were. -/
def Restores (marked : List String) (α : Type) (x : Marking marked α) (y : Except EvalError α) : Prop :=
  x (.only marked) = (y, .only marked)

theorem restores_simulation (marked : List String) : Simulation (Restores marked) where
  pure a := rfl
  throw e _ := rfl
  bind := by
    intro α β x y f g hxy hfg
    show (x >>= f) (.only marked) = _
    rw [Marking.bind_apply, hxy]
    cases y with
    | ok a => exact hfg a
    | error e => rfl
  throw_bind e f g _ := rfl

namespace Scope

variable {s : Scope} {marked : List String} {name : String}

theorem resolveMarking_of_unbound (hover : s.env.override name = none)
    (hbound : s.inputs.get? name = none) :
    s.resolveMarking marked name = (.error (.missingInput name), .only marked) := by
  rw [resolveMarking, hover]
  simp only
  split
  · rfl
  next node hnode =>
    rw [hbound] at hnode
    cases hnode

theorem resolveMarking_of_bound {node : Node} (hover : s.env.override name = none)
    (hbound : s.inputs.get? name = some node) :
    s.resolveMarking marked name =
      if name ∈ marked then (.error (.cyclicInput (cycle marked name)), .only marked)
      else
        let (result, marks) := node.eval (s.marking (marked ++ [name])) (.only (marked ++ [name]))
        (result, marks.unmark) := by
  rw [resolveMarking, hover]
  simp only
  split
  next hnode =>
    rw [hbound] at hnode
    cases hnode
  next other hnode =>
    obtain rfl := Option.some.inj (hbound.symm.trans hnode)
    rfl

theorem restores_marking (h : s.resolveMarking marked name = (s.resolve marked name, .only marked)) :
    Restores marked Value (s.marking marked name) (s.resolve marked name) := by
  show ((s.resolveMarking marked name).1, (Marks.only marked).add (s.resolveMarking marked name).2) = _
  rw [h]
  rfl

/-- A name has the value that it has on the chain of the marked names, and the marks are the same
afterwards. -/
theorem resolveMarking_eq (s : Scope) (marked : List String) (name : String) :
    s.resolveMarking marked name = (s.resolve marked name, .only marked) := by
  rcases s.overridden_or_unbound_or_bound name with
    ⟨text, hover⟩ | ⟨hover, hbound⟩ | ⟨node, hover, hbound⟩
  · rw [resolveMarking, resolve_of_override hover, hover]
  · rw [resolveMarking_of_unbound hover hbound, resolve_of_unbound hover hbound]
  · rw [resolveMarking_of_bound hover hbound, resolve_of_bound hover hbound]
    by_cases hnew : name ∈ marked
    · rw [if_pos hnew, if_pos hnew]
    · have hlt := unresolved_length_lt hbound hnew
      have hinner : ∀ inner ∈ node.references, Restores (marked ++ [name]) Value
          (s.marking (marked ++ [name]) inner) (s.resolve (marked ++ [name]) inner) :=
        fun inner _ => restores_marking (resolveMarking_eq s (marked ++ [name]) inner)
      have heval : node.eval (s.marking (marked ++ [name])) (.only (marked ++ [name])) =
          (node.eval (s.resolve (marked ++ [name])), .only (marked ++ [name])) :=
        (restores_simulation (marked ++ [name])).eval node hinner
      rw [if_neg hnew, if_neg hnew, heval]
      exact Prod.ext rfl (Marks.unmark_only marked name)
termination_by (s.unresolved marked).length

/-- The fields of an object are those on the chain of the marked names, and the marks are the same
afterwards. -/
theorem evalFields_marking (s : Scope) (marked : List String) (n : Node) :
    n.evalFields (s.marking marked) (.only marked) = (n.evalFields (s.resolve marked), .only marked) :=
  (restores_simulation marked).evalFields n fun name _ =>
    restores_marking (s.resolveMarking_eq marked name)

end Scope

/-! ### What is bound -/

namespace Scope

variable {s : Scope} {config : Node} {e : EvalError}

/-- After a document that fails the scope is what its assignments have led to. -/
theorem stoppedIn_of_evalConfig (hkind : config.kind = .config)
    (h : (s.evalConfig config).1 = .error e) :
    StoppedIn s.clear config.assignments e (s.evalConfig config).2 := by
  obtain ⟨root, henter, hfail⟩ := s.exists_enter_eq config
  rw [evalConfig, if_pos hkind, henter] at h ⊢
  simp only at h ⊢
  split at h
  · cases h
  next e' hroot =>
    obtain rfl := Except.error.inj h
    refine stoppedIn_assignAll fun e'' hassign => ?_
    rw [hfail e'' hassign] at hroot
    exact Except.error.inj hroot

/-- After a document that succeeds no names are bound. -/
theorem inputs_of_evalConfig {evaluation : Evaluation}
    (h : (s.evalConfig config).1 = .ok evaluation) : (s.evalConfig config).2.inputs = [] := by
  rw [evalConfig] at h ⊢
  by_cases hkind : config.kind = .config
  · rw [if_pos hkind] at h ⊢
    simp only at h ⊢
    split at h
    · rfl
    · cases h
  · rw [if_neg hkind] at h
    cases h

/-- The names that are bound before a document make no difference to it. -/
theorem evalConfig_clear (s : Scope) (config : Node) :
    (s.clear.evalConfig config).1 = (s.evalConfig config).1 := by
  have henter : s.clear.enter config.children = s.enter config.children := by
    unfold enter
    rfl
  rw [evalConfig, evalConfig, henter]
  split
  · rfl
  · rfl

/-- Evaluating a document leaves the environment alone. -/
theorem env_evalConfig (s : Scope) (config : Node) : (s.evalConfig config).2.env = s.env := by
  have henter := s.env_enter config.children
  rw [evalConfig]
  split
  · simp only
    split
    · exact henter
    · exact henter
  · rfl

end Scope

/-! ### Sessions -/

namespace Session

/-- Without marks, a session does what its scope does. -/
theorem evalConfig_eq (scope : Scope) (config : Node) :
    (Session.mk scope []).evalConfig config =
      ((scope.evalConfig config).1, ⟨(scope.evalConfig config).2, []⟩) := by
  rw [evalConfig, Scope.evalConfig]
  by_cases hkind : config.kind = .config
  · rw [if_pos hkind, if_pos hkind]
    cases henter : scope.enter config.children with
    | mk inner root =>
      cases root with
      | error e => rfl
      | ok object =>
        have hroot : (.ok object >>= Node.evalFields (inner.resolve []) :
            Except EvalError (OrderedMap Value)) = object.evalFields (inner.resolve []) := rfl
        simp only [hroot, inner.evalFields_marking [] object]
        cases object.evalFields (inner.resolve []) <;> rfl
  · rw [if_neg hkind, if_neg hkind]

/-- Telling the value of a name changes nothing. -/
theorem resolve_eq (s : Session) (name : String) :
    s.resolve name = (s.scope.resolve s.marked name, s) := by
  rw [resolve, Scope.resolveMarking_eq]
  rfl

/-- No name is marked, and the environment is the given one. -/
def Idle (env : Environment) (s : Session) : Prop := s.marked = [] ∧ s.scope.env = env

/-- A request leaves no name marked, and keeps the environment. -/
theorem Idle.step {env : Environment} {s : Session} (h : s.Idle env) (request : Request) :
    (s.step request).Idle env := by
  obtain ⟨scope, marked⟩ := s
  obtain ⟨rfl, henv⟩ := h
  cases request with
  | document config =>
    rw [Session.step, evalConfig_eq]
    exact ⟨rfl, (scope.env_evalConfig config).trans henv⟩
  | name name =>
    rw [Session.step, resolve_eq]
    exact ⟨rfl, henv⟩

theorem Idle.after {env : Environment} {s : Session} (h : s.Idle env) (requests : List Request) :
    (s.after requests).Idle env := by
  induction requests generalizing s with
  | nil => exact h
  | cons request requests ih => exact ih (h.step request)

end Session

/-- After any requests no name is marked, and a document comes to what it comes to in a new session. If it
succeeds no names are bound afterwards; if it is no document the session stays as it was; and if it fails those
names are bound that its assignments have bound until then. -/
theorem sessions_have_no_memory (env : Environment) (requests : List Request) :
    ((Session.new env).after requests).marked = [] ∧
    ∀ config : Node,
      let (result, next) := ((Session.new env).after requests).evalConfig config
      result = ((Session.new env).evalConfig config).1 ∧ result = config.evaluate env ∧
      (∀ evaluation, result = .ok evaluation → next.scope.inputs = []) ∧
      (config.kind ≠ .config → next = (Session.new env).after requests) ∧
      ∀ e, config.kind = .config → result = .error e →
        Scope.StoppedIn (Scope.new env) config.assignments e next.scope := by
  have hnew : (Session.new env).Idle env := ⟨rfl, rfl⟩
  obtain ⟨hmarked, henv⟩ := hnew.after requests
  generalize (Session.new env).after requests = s at hmarked henv
  obtain ⟨scope, marked⟩ := s
  obtain rfl : marked = [] := hmarked
  have hclear : scope.clear = Scope.new env := by
    rw [Scope.clear, henv]
    rfl
  refine ⟨rfl, fun config => ?_⟩
  rw [Session.evalConfig_eq, Session.new, Session.evalConfig_eq, Node.evaluate]
  have hresult : (scope.evalConfig config).1 = ((Scope.new env).evalConfig config).1 := by
    rw [← hclear, Scope.evalConfig_clear]
  refine ⟨hresult, hresult, ?_, ?_, ?_⟩
  · intro evaluation h
    exact Scope.inputs_of_evalConfig h
  · intro hkind
    rw [Scope.evalConfig, if_neg hkind]
  · intro e hkind h
    rw [← hclear]
    exact Scope.stoppedIn_of_evalConfig hkind h

/-- Two inputs that need each other leave nothing behind for a document that uses the name of one of them: it
fails, and only its own input is bound then. -/
theorem second_document_after_a_cycle :
    let requests : List Request := [
      .document (.branch .config [
        .branch .assignBlock [
          .branch .assignment [.leaf .input (.text "$a"),
            .branch .value [.branch .array [.leaf .input (.text "$b")]]],
          .branch .assignment [.leaf .input (.text "$b"),
            .branch .value [.branch .array [.leaf .spread (.text "$a")]]]],
        .branch .object [.branch .pair [.branch .path [.leaf .pathSegment (.text "x")],
          .leaf .input (.text "$a")]]]),
      .name "$b"]
    let second := Node.branch .config [
      .branch .assignBlock [.branch .assignment [.leaf .input (.text "$c"),
        .branch .value [.leaf .integer (.integer 1)]]],
      .branch .object [.branch .pair [.branch .path [.leaf .pathSegment (.text "b")],
        .leaf .input (.text "$a")]]]
    let s := (Session.new .empty).after requests
    s.marked = [] ∧ (s.evalConfig second).1 = .error (.missingInput "$a") ∧
      (s.evalConfig second).2.scope.inputs = [("$c", .leaf .integer (.integer 1))] := by
  intro requests second s
  obtain ⟨hmarked, hdocuments⟩ := sessions_have_no_memory .empty requests
  obtain ⟨-, hresult, -, -, hstopped⟩ := hdocuments second
  have hevaluate : second.evaluate .empty = .error (.missingInput "$a") := by
    cbv
  have hfails : (s.evalConfig second).1 = .error (.missingInput "$a") := hresult.trans hevaluate
  refine ⟨hmarked, hfails, ?_⟩
  obtain ⟨made, rest, hall, hmade, rfl | ⟨next, others, rfl, hnext⟩⟩ := hstopped _ rfl hfails
  · rw [List.append_nil] at hall
    subst hall
    exact congrArg Scope.inputs (Except.ok.inj hmade).symm
  · -- The assignment does not fail.
    obtain ⟨rfl, hothers⟩ : made = [] ∧ next :: others = second.assignments := by
      cases made with
      | nil => exact ⟨rfl, hall.symm⟩
      | cons first made => simp [second, Node.assignments, Node.branch] at hall
    obtain ⟨rfl, -⟩ := List.cons.inj hothers
    rw [← Except.ok.inj hmade] at hnext
    cases hnext

end ConfigLang

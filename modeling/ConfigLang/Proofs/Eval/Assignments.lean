import ConfigLang.Eval.Config
import ConfigLang.Proofs.Eval.Simulation

/-!
# What the assignments of a document bind

The scope of a document comes from its assignments alone: what was bound before is forgotten, and the
environment is neither looked at nor changed.

* `Node.assignments` - the assignments of a document.
* `Scope.exists_enter_eq` - the scope of a document is where its assignments lead.
* `Scope.StoppedIn` - a scope with what was bound before a failure.
* `Scope.enter_inEnv` - the environment makes no difference to the assignments.
-/

namespace ConfigLang

/-- The assignments of a document: those of its input block, if it has one. -/
def Node.assignments (config : Node) : List Node :=
  match config.children with
  | [block, _] => if block.kind = .assignBlock then block.children else []
  | _ => []

namespace Scope

/-- The scope is what some assignments lead to before a failure: either all of them were made, or those
before the first one that fails, and that one fails with the error. -/
def StoppedIn (start : Scope) (assignments : List Node) (e : EvalError) (s : Scope) : Prop :=
  ∃ made rest, assignments = made ++ rest ∧ made.foldlM assign start = .ok s ∧
    (rest = [] ∨ ∃ next others, rest = next :: others ∧ s.assign next = .error e)

variable {s : Scope} {config : Node} {e : EvalError}

/-- Assignments stop where they fail, if that is the failure. -/
theorem stoppedIn_assignAll {assignments : List Node}
    (h : ∀ e', (s.assignAll assignments).2 = .error e' → e' = e) :
    StoppedIn s assignments e (s.assignAll assignments).1 := by
  induction assignments generalizing s with
  | nil => exact ⟨[], [], rfl, rfl, Or.inl rfl⟩
  | cons a assignments ih =>
    rw [assignAll] at h ⊢
    cases hassign : s.assign a with
    | ok next =>
      rw [hassign] at h
      obtain ⟨made, rest, rfl, hmade, hrest⟩ := ih h
      refine ⟨a :: made, rest, rfl, ?_, hrest⟩
      rw [List.foldlM_cons, hassign]
      exact hmade
    | error e' =>
      rw [hassign] at h
      obtain rfl := h e' rfl
      exact ⟨[], a :: assignments, rfl, rfl, Or.inr ⟨a, assignments, rfl, hassign⟩⟩

/-- The scope of a document is where its assignments lead from no names, and if they fail it has no root. -/
theorem exists_enter_eq (s : Scope) (config : Node) :
    ∃ root, s.enter config.children = ((s.clear.assignAll config.assignments).1, root) ∧
      ∀ e, (s.clear.assignAll config.assignments).2 = .error e → root = .error e := by
  have hnone : ∀ {children : List Node} {root : Except EvalError Node},
      s.enter children = (s.clear, root) →
      ∃ root, s.enter children = ((s.clear.assignAll []).1, root) ∧
        ∀ e, (s.clear.assignAll []).2 = .error e → root = .error e :=
    fun henter => ⟨_, henter, fun e h => by cases h⟩
  obtain ⟨kind, literal, children⟩ := config
  match children with
  | [] => exact hnone rfl
  | [object] =>
    by_cases hobject : object.kind = .object
    · exact hnone (if_pos hobject)
    · exact hnone (if_neg hobject)
  | [block, object] =>
    by_cases hblock : block.kind = .assignBlock
    · rw [Node.assignments]
      simp only [if_pos hblock]
      refine ⟨_, if_pos hblock, fun e h => ?_⟩
      rw [h]
      rfl
    · rw [Node.assignments]
      simp only [if_neg hblock]
      exact hnone (if_neg hblock)
  | first :: second :: third :: rest => exact hnone rfl

/-! ### The environment -/

/-- The same names in another environment. -/
def inEnv (s : Scope) (env : Environment) : Scope := { s with env := env }

theorem assign_inEnv (s : Scope) (env : Environment) (a : Node) :
    (s.inEnv env).assign a = (s.assign a).map (·.inEnv env) := by
  have hfollow : ∀ n, (s.inEnv env).follow n = s.follow n := fun n => rfl
  unfold assign
  split
  next left right _ =>
    cases (left.name : Except EvalError String) with
    | error e => rfl
    | ok name =>
      cases assigned right with
      | error e => rfl
      | ok node =>
        show ((s.inEnv env).follow node >>= _) = Except.map _ (s.follow node >>= _)
        rw [hfollow]
        cases s.follow node <;> rfl
  · rfl

theorem assignAll_inEnv (s : Scope) (env : Environment) (assignments : List Node) :
    (s.inEnv env).assignAll assignments =
      ((s.assignAll assignments).1.inEnv env, (s.assignAll assignments).2) := by
  induction assignments generalizing s with
  | nil => rfl
  | cons a assignments ih =>
    rw [assignAll, assignAll, assign_inEnv]
    cases s.assign a with
    | ok next => exact ih next
    | error e => rfl

theorem enter_inEnv (s : Scope) (env : Environment) (children : List Node) :
    (s.inEnv env).enter children = ((s.enter children).1.inEnv env, (s.enter children).2) := by
  have hclear : (s.inEnv env).clear = s.clear.inEnv env := rfl
  unfold enter
  split
  · split
    · rw [hclear, assignAll_inEnv]
    · rfl
  · split
    · rfl
    · rfl
  · rfl
  · rfl

/-- The scope of a document is in the same environment. -/
theorem env_enter (s : Scope) (children : List Node) : (s.enter children).1.env = s.env :=
  congrArg (fun entered => entered.1.env) (s.enter_inEnv s.env children)

end Scope

end ConfigLang

import ConfigLang.Proofs.Eval.Sessions
import Mathlib.Data.List.Nodup
import Mathlib.Data.List.Perm.Subperm

/-!
# Resolutions are bounded

A name is on the list of names being resolved while the node that it is bound to is evaluated. That node may
refer to any other name, so evaluation does not only go down the tree. What ends it is the list: no name gets on
it twice, and all names on it are bound.

To say so of every moment of a request, evaluation is told once more here. The list is plain state that is
changed at its end, everything that it has been is recorded, and nothing but a given depth keeps resolutions from
being nested without end.

* `Moments`, `Recorded` - the list with its past, and computations that change it.
* `Scope.resolveWithin`, `Session.resolveWithin`, `Session.evalConfigWithin` - the requests, recorded.
* `Scope.Proper` - the invariant: different names, all of them bound.
* `Scope.comesTo_resolveWithin` - what one name does to the list, by induction on the depth.
* `resolutions_are_bounded` - the result.
-/

namespace ConfigLang

/-! ### The list of names being resolved -/

/-- The list of names being resolved, and what it was before, the latest first. -/
structure Moments where
  now : List String
  earlier : List (List String)

namespace Moments

/-- The first moment of a request. -/
def first (names : List String) : Moments := ⟨names, []⟩

/-- All that the list has been up to now. -/
def all (m : Moments) : List (List String) := m.now :: m.earlier

/-- A name is put at the end of the list. -/
def push (m : Moments) (name : String) : Moments := ⟨m.now ++ [name], m.all⟩

/-- The last name of the list is taken off. -/
def pop (m : Moments) : Moments := ⟨m.now.dropLast, m.all⟩

end Moments

/-- Computations that answer or fail and that change the list of names being resolved. As `none` they give up,
because resolutions are nested too deep. -/
abbrev Recorded : Type → Type := ExceptT EvalError (StateT Moments Option)

/-! ### Recorded requests -/

/-- The value of a name, with resolutions nested in each other up to the given depth. -/
def Scope.resolveWithin (s : Scope) : (depth : Nat) → Resolver Recorded
  | 0, _ => fun _ => none
  | depth + 1, name =>
    match s.env.override name with
    | some text => pure (.string text)
    | none =>
      match s.inputs.get? name with
      | none => throw (.missingInput name)
      | some node => fun moments =>
        if name ∈ moments.now then some (.error (.cyclicInput (cycle moments.now name)), moments)
        else do
          let (result, after) ← node.eval (s.resolveWithin depth) (moments.push name)
          some (result, after.pop)

namespace Session

/-- Tells the value of a name and answers with the session to go on with, and with all lists of names being
resolved on the way. -/
def resolveWithin (s : Session) (depth : Nat) (name : String) :
    Option ((Except EvalError Value × Session) × List (List String)) := do
  let (result, after) ← s.scope.resolveWithin depth name (.first s.marked)
  some ((result, ⟨s.scope, after.now⟩), after.all)

/-- Evaluates a document in the same way. -/
def evalConfigWithin (s : Session) (depth : Nat) (config : Node) :
    Option ((Except EvalError Evaluation × Session) × List (List String)) :=
  if config.kind = .config then
    match s.scope.enter config.children with
    | (inner, .error e) => some ((.error e, ⟨inner, s.marked⟩), [s.marked])
    | (inner, .ok root) => do
      match ← root.evalFields (inner.resolveWithin depth) (.first s.marked) with
      | (.ok fields, after) => some ((.ok ⟨inner.inputs, fields⟩, ⟨inner.clear, after.now⟩), after.all)
      | (.error e, after) => some ((.error e, ⟨inner, after.now⟩), after.all)
  else some ((.error (.unexpected [.config] config), s), [s.marked])

end Session

/-! ### Going on with a computation -/

/-- Going on after a computation that has changed the list. -/
theorem Recorded.bind_apply {α β : Type} (x : Recorded α) (f : α → Recorded β) (before : Moments) :
    (x >>= f) before =
      (x before).bind fun
        | (.ok a, after) => f a after
        | (.error e, after) => some (.error e, after) := by
  show StateT.bind x (ExceptT.bindCont f) before = _
  rw [StateT.bind]
  show Option.bind (x before) _ = _
  refine Option.bind_congr fun outcome _ => ?_
  obtain ⟨result, after⟩ := outcome
  cases result <;> rfl

/-! ### The list is restored -/

/-- Whether it answers or fails, the computation leaves the list as it was. -/
def LeavesList (α : Type) (x _y : Recorded α) : Prop :=
  ∀ before result after, x before = some (result, after) → after.now = before.now

theorem leavesList_simulation : Simulation LeavesList where
  pure a := by
    intro before result after h
    obtain ⟨-, rfl⟩ := Prod.mk.inj (Option.some.inj h)
    rfl
  throw e _ := by
    intro before result after h
    obtain ⟨-, rfl⟩ := Prod.mk.inj (Option.some.inj h)
    rfl
  bind := by
    intro α β x y f g hx hf before result after h
    rw [Recorded.bind_apply] at h
    obtain ⟨⟨outcome, between⟩, hfirst, h⟩ := Option.bind_eq_some_iff.1 h
    have hbetween := hx before outcome between hfirst
    cases outcome with
    | ok a => exact (hf a between result after h).trans hbetween
    | error e =>
      obtain ⟨-, rfl⟩ := Prod.mk.inj (Option.some.inj h)
      exact hbetween
  throw_bind e f g _ := by
    intro before result after h
    obtain ⟨-, rfl⟩ := Prod.mk.inj (Option.some.inj h)
    rfl

namespace Scope

variable {s : Scope} {depth : Nat} {names : List String} {name : String}

theorem resolveWithin_of_override {text : String} (hover : s.env.override name = some text) :
    s.resolveWithin (depth + 1) name = pure (.string text) := by
  rw [resolveWithin, hover]

theorem resolveWithin_of_unbound (hover : s.env.override name = none)
    (hbound : s.inputs.get? name = none) :
    s.resolveWithin (depth + 1) name = throw (.missingInput name) := by
  rw [resolveWithin, hover]
  simp only [hbound]

theorem resolveWithin_of_bound {node : Node} (hover : s.env.override name = none)
    (hbound : s.inputs.get? name = some node) (before : Moments) :
    s.resolveWithin (depth + 1) name before =
      if name ∈ before.now then some (.error (.cyclicInput (cycle before.now name)), before)
      else (node.eval (s.resolveWithin depth) (before.push name)).bind fun (result, after) =>
        some (result, after.pop) := by
  rw [resolveWithin, hover]
  simp only [hbound]
  rfl

/-- A name that is resolved leaves the list as it was, at any depth and on any list. -/
theorem leavesList_resolveWithin (s : Scope) (depth : Nat) (name : String) :
    LeavesList Value (s.resolveWithin depth name) (s.resolveWithin depth name) := by
  induction depth generalizing name with
  | zero =>
    intro before result after h
    cases h
  | succ depth ih =>
    rcases s.overridden_or_unbound_or_bound name with
      ⟨text, hover⟩ | ⟨hover, hbound⟩ | ⟨node, hover, hbound⟩
    · rw [resolveWithin_of_override hover]
      exact leavesList_simulation.pure _
    · rw [resolveWithin_of_unbound hover hbound]
      intro before result after h
      obtain ⟨-, rfl⟩ := Prod.mk.inj (Option.some.inj h)
      rfl
    · intro before result after h
      rw [resolveWithin_of_bound hover hbound] at h
      split at h
      · obtain ⟨-, rfl⟩ := Prod.mk.inj (Option.some.inj h)
        rfl
      · obtain ⟨⟨outcome, between⟩, heval, h⟩ := Option.bind_eq_some_iff.1 h
        obtain ⟨-, rfl⟩ := Prod.mk.inj (Option.some.inj h)
        have hbetween : between.now = before.now ++ [name] :=
          leavesList_simulation.eval node (fun inner _ => ih inner) _ _ _ heval
        show between.now.dropLast = before.now
        rw [hbetween, List.dropLast_concat]

/-! ### The list is proper -/

/-- The names are different from each other, and all of them are bound. -/
structure Proper (s : Scope) (names : List String) : Prop where
  nodup : names.Nodup
  bound : ∀ name ∈ names, name ∈ s.inputs.keys

theorem proper_nil (s : Scope) : s.Proper [] := ⟨List.nodup_nil, fun _ h => absurd h List.not_mem_nil⟩

/-- One more bound name at the end. -/
theorem Proper.concat {node : Node} (h : s.Proper names) (hbound : s.inputs.get? name = some node)
    (hnew : name ∉ names) : s.Proper (names ++ [name]) := by
  have hkey : name ∈ s.inputs.keys := by
    rw [← OrderedMap.get?_isSome_iff, hbound]
    rfl
  refine ⟨List.nodup_append.2 ⟨h.nodup, List.nodup_singleton _, ?_⟩, ?_⟩
  · intro a ha b hb heq
    rw [List.mem_singleton.1 hb] at heq
    exact hnew (heq ▸ ha)
  · intro x hx
    rcases List.mem_append.1 hx with hx | hx
    · exact h.bound x hx
    · rw [List.mem_singleton.1 hx]
      exact hkey

/-- There are not more of them than names are bound. -/
theorem Proper.length_le (h : s.Proper names) : names.length ≤ s.inputs.length := by
  have hle := (List.subperm_of_subset h.nodup h.bound).length_le
  rwa [OrderedMap.keys, List.length_map] at hle

/-- From the given names on the recorded computation comes to the outcome and leaves these names, and all lists
on the way are proper. -/
def ComesTo (s : Scope) (names : List String) (α : Type) (x : Recorded α)
    (outcome : Except EvalError α) : Prop :=
  ∀ before : Moments, before.now = names → (∀ m ∈ before.all, s.Proper m) →
    ∃ after, x before = some (outcome, after) ∧ after.now = names ∧ ∀ m ∈ after.all, s.Proper m

theorem comesTo_simulation (s : Scope) (names : List String) : Simulation (s.ComesTo names) where
  pure a := fun before hnow hproper => ⟨before, rfl, hnow, hproper⟩
  throw e _ := fun before hnow hproper => ⟨before, rfl, hnow, hproper⟩
  bind := by
    intro α β x y f g hx hf before hnow hproper
    obtain ⟨between, hfirst, hnow', hproper'⟩ := hx before hnow hproper
    rw [Recorded.bind_apply, hfirst]
    cases y with
    | ok a => exact hf a between hnow' hproper'
    | error e => exact ⟨between, rfl, hnow', hproper'⟩
  throw_bind e f g _ := fun before hnow hproper => ⟨before, rfl, hnow, hproper⟩

/-- With one more resolution than there are bound names off the list, a name comes to what it comes to on the
chain of these names. -/
theorem comesTo_resolveWithin (hdepth : (s.unresolved names).length < depth) (name : String) :
    s.ComesTo names Value (s.resolveWithin depth name) (s.resolve names name) := by
  induction depth generalizing names name with
  | zero => omega
  | succ depth ih =>
    rcases s.overridden_or_unbound_or_bound name with
      ⟨text, hover⟩ | ⟨hover, hbound⟩ | ⟨node, hover, hbound⟩
    · rw [resolveWithin_of_override hover, resolve_of_override hover]
      exact (s.comesTo_simulation names).pure _
    · rw [resolveWithin_of_unbound hover hbound, resolve_of_unbound hover hbound]
      exact fun before hnow hproper => ⟨before, rfl, hnow, hproper⟩
    · intro before hnow hproper
      rw [resolveWithin_of_bound hover hbound, resolve_of_bound hover hbound, hnow]
      by_cases hmem : name ∈ names
      · rw [if_pos hmem, if_pos hmem]
        exact ⟨before, rfl, hnow, hproper⟩
      · have hlt := unresolved_length_lt hbound hmem
        have hnames : s.Proper names := hnow ▸ hproper _ List.mem_cons_self
        have hpushed : ∀ m ∈ (before.push name).all, s.Proper m := by
          refine List.forall_mem_cons.2 ⟨?_, hproper⟩
          show s.Proper (before.now ++ [name])
          rw [hnow]
          exact hnames.concat hbound hmem
        have heval := (s.comesTo_simulation (names ++ [name])).eval node fun inner _ =>
          ih (by omega) inner
        obtain ⟨between, hresult, hbetween, hproper'⟩ :=
          heval (before.push name) (congrArg (· ++ [name]) hnow) hpushed
        have hpopped : between.pop.now = names := by
          show between.now.dropLast = names
          rw [hbetween, List.dropLast_concat]
        rw [if_neg hmem, if_neg hmem, hresult]
        refine ⟨between.pop, rfl, hpopped, List.forall_mem_cons.2 ⟨?_, hproper'⟩⟩
        rw [hpopped]
        exact hnames

/-- As many resolutions as there are bound names, and one more, are enough for every name. -/
theorem comesTo_resolve (s : Scope) (names : List String) (name : String) :
    s.ComesTo names Value (s.resolveWithin (s.inputs.length + 1) name) (s.resolve names name) := by
  refine comesTo_resolveWithin ?_ name
  have hle : (s.unresolved names).length ≤ s.inputs.keys.length := List.length_filter_le _ _
  rw [OrderedMap.keys, List.length_map] at hle
  exact Nat.lt_succ_of_le hle

/-! ### Requests -/

/-- The recorded request comes to an end with the given outcome. At all its moments the names being resolved are
different bound names, and so not more than there are. -/
def Bounded (s : Scope) {β : Type} (recorded : Option (β × List (List String))) (outcome : β) : Prop :=
  ∃ moments, recorded = some (outcome, moments) ∧
    ∀ names ∈ moments, s.Proper names ∧ names.length ≤ s.inputs.length

theorem bounded_of {β : Type} {recorded : Option (β × List (List String))} {outcome : β}
    {moments : List (List String)} (h : recorded = some (outcome, moments))
    (hproper : ∀ names ∈ moments, s.Proper names) : s.Bounded recorded outcome :=
  ⟨moments, h, fun names hnames => ⟨hproper names hnames, (hproper names hnames).length_le⟩⟩

/-- A computation that starts with the empty list has only proper lists. -/
theorem ComesTo.exists_after {α : Type} {x : Recorded α} {outcome : Except EvalError α}
    (h : s.ComesTo [] α x outcome) :
    ∃ after : Moments, x (.first []) = some (outcome, after) ∧ after.now = [] ∧
      ∀ m ∈ after.all, s.Proper m :=
  h (.first []) rfl fun _ hm => List.mem_singleton.1 hm ▸ s.proper_nil

theorem bounded_resolve (s : Scope) (name : String) :
    s.Bounded ((Session.mk s []).resolveWithin (s.inputs.length + 1) name)
      ((Session.mk s []).resolve name) := by
  obtain ⟨after, hresult, hnow, hproper⟩ := (s.comesTo_resolve [] name).exists_after
  refine bounded_of ?_ hproper
  rw [Session.resolve_eq, Session.resolveWithin, hresult]
  show some ((_, (⟨s, after.now⟩ : Session)), _) = _
  rw [hnow]

theorem bounded_evalConfig (s : Scope) (config : Node) :
    (s.enter config.children).1.Bounded
      ((Session.mk s []).evalConfigWithin ((s.enter config.children).1.inputs.length + 1) config)
      ((Session.mk s []).evalConfig config) := by
  have hnil : ∀ names ∈ [([] : List String)], (s.enter config.children).1.Proper names :=
    fun names hnames => List.mem_singleton.1 hnames ▸ proper_nil _
  rw [Session.evalConfigWithin, Session.evalConfig]
  by_cases hkind : config.kind = .config
  · rw [if_pos hkind, if_pos hkind]
    cases henter : s.enter config.children with
    | mk inner root =>
      rw [henter] at hnil
      cases root with
      | error e => exact bounded_of rfl hnil
      | ok object =>
        have hfields := (inner.comesTo_simulation []).evalFields object fun name _ =>
          inner.comesTo_resolve [] name
        obtain ⟨after, hresult, hnow, hproper⟩ := hfields.exists_after
        refine bounded_of ?_ hproper
        simp only [hresult, inner.evalFields_marking [] object]
        cases object.evalFields (inner.resolve []) <;> simp [hnow, Marks.only]
  · rw [if_neg hkind, if_neg hkind]
    exact bounded_of rfl hnil

end Scope

/-- Each resolution leaves the list of names being resolved as it found it, whether it answers or fails. When a
name is asked for or a document is evaluated, with resolutions nested no deeper than one more than names are
bound, the request comes to an end with its outcome; and at all moments until then the names being resolved are
different from each other and bound, so there are never more of them than bound names. -/
theorem resolutions_are_bounded (scope : Scope) :
    (∀ depth name before result after,
      scope.resolveWithin depth name before = some (result, after) → after.now = before.now) ∧
    (∀ name, scope.Bounded ((Session.mk scope []).resolveWithin (scope.inputs.length + 1) name)
      ((Session.mk scope []).resolve name)) ∧
    ∀ config : Node,
      let inner := (scope.enter config.children).1
      inner.Bounded ((Session.mk scope []).evalConfigWithin (inner.inputs.length + 1) config)
        ((Session.mk scope []).evalConfig config) :=
  ⟨scope.leavesList_resolveWithin, scope.bounded_resolve, scope.bounded_evalConfig⟩

/-- Two inputs that need each other: both get on the list and off it again, and the error leaves it empty. -/
theorem moments_of_a_cycle :
    let scope : Scope := ⟨.empty, [("$a", .branch .array [.leaf .input (.text "$b")]),
      ("$b", .branch .array [.leaf .spread (.text "$a")])]⟩
    ∃ after, scope.resolveWithin 3 "$a" (.first []) =
        some (.error (.cyclicInput ["$a", "$b", "$a"]), after) ∧
      after.all = [[], ["$a"], ["$a", "$b"], ["$a"], []] ∧ after.now = [] ∧
      ((Session.mk scope []).resolve "$a").1 = .error (.cyclicInput ["$a", "$b", "$a"]) := by
  intro scope
  have hrun : scope.resolveWithin 3 "$a" (.first []) =
      some (.error (.cyclicInput ["$a", "$b", "$a"]), ⟨[], [["$a"], ["$a", "$b"], ["$a"], []]⟩) := by
    rfl
  obtain ⟨hrestored, hnames, -⟩ := resolutions_are_bounded scope
  obtain ⟨moments, hmoments, -⟩ := hnames "$a"
  have hrecorded : (Session.mk scope []).resolveWithin 3 "$a" =
      some ((.error (.cyclicInput ["$a", "$b", "$a"]), ⟨scope, []⟩),
        [[], ["$a"], ["$a", "$b"], ["$a"], []]) := by
    rw [Session.resolveWithin, hrun]
    rfl
  have houtcome := Option.some.inj (hrecorded.symm.trans hmoments)
  exact ⟨_, hrun, rfl, hrestored _ _ _ _ _ hrun, (congrArg (·.1.1) houtcome).symm⟩

end ConfigLang

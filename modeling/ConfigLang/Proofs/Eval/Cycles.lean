import ConfigLang.Eval.Scope
import ConfigLang.Proofs.Eval.Simulation

/-!
# Cycles are found exactly

A name that comes up again on its own chain has no value. Here that rule is compared with evaluation
without any chain: each look-up in the table of bound names uses up one unit of fuel, and an evaluation
that has none left stops without an answer. A cycle is reported exactly where no fuel is enough, and
otherwise both evaluations agree.

* `Fueled` - computations that answer, fail or run out of fuel.
* `Scope.unroll` - the value of a name with a bound on the look-ups.
* `cycles_found_exactly` - the comparison, for names, values and object nodes.

Why a name on its own chain needs no second look: if a name had an answer with some fuel, it would have
one with the least such fuel, and a name that it needs on the way would have one with less. So the names
on a chain have no answer with the fuel that is left (`resolve_of_unroll`). In the other direction the
chain grows with each look-up, so as much fuel as there are bound names is enough
(`unroll_of_resolve`).
-/

namespace ConfigLang

/-- Computations that answer, fail or, as `none`, run out of fuel. -/
abbrev Fueled : Type → Type := ExceptT EvalError Option

namespace Scope

/-- The value of a name. Each look-up in the table of bound names uses up one unit of fuel. -/
def unroll (s : Scope) (fuel : Nat) (name : String) : Fueled Value :=
  match s.env.override name with
  | some text => pure (.string text)
  | none =>
    match fuel with
    | 0 => ExceptT.mk none
    | fuel + 1 =>
      match s.inputs.get? name with
      | none => throw (.missingInput name)
      | some node => node.eval (s.unroll fuel)

variable {s : Scope} {fuel : Nat} {name : String}

theorem unroll_of_override {text : String} (hover : s.env.override name = some text) :
    s.unroll fuel name = pure (.string text) := by
  unfold unroll
  rw [hover]

theorem unroll_zero (hover : s.env.override name = none) :
    s.unroll 0 name = ExceptT.mk none := by
  unfold unroll
  rw [hover]

theorem unroll_of_unbound (hover : s.env.override name = none)
    (hbound : s.inputs.get? name = none) :
    s.unroll (fuel + 1) name = throw (.missingInput name) := by
  rw [unroll, hover]
  simp only [hbound]

theorem unroll_of_bound {node : Node} (hover : s.env.override name = none)
    (hbound : s.inputs.get? name = some node) :
    s.unroll (fuel + 1) name = node.eval (s.unroll fuel) := by
  rw [unroll, hover]
  simp only [hbound]

end Scope

namespace Fueled

variable {α β : Type}

/-- Going on after a computation that did not run out of fuel. -/
theorem run_bind_eq_some {x : Fueled α} {f : α → Fueled β} {result : Except EvalError β}
    (h : (x >>= f).run = some result) :
    (∃ a, x.run = some (.ok a) ∧ (f a).run = some result) ∨
      ∃ e, x.run = some (.error e) ∧ result = .error e := by
  rw [ExceptT.run_bind] at h
  obtain ⟨first, hx, h⟩ := Option.bind_eq_some_iff.1 h
  cases first with
  | ok a => exact Or.inl ⟨a, hx, h⟩
  | error e => exact Or.inr ⟨e, hx, (Option.some.inj h).symm⟩

end Fueled

/-! ### Relations that evaluation keeps -/

/-- Whether a computation failed for a cycle. -/
def FoundCycle {α : Type} (y : Except EvalError α) : Prop :=
  ∃ chain, y = .error (.cyclicInput chain)

/-- What the computation with fuel comes to, the other one comes to as well. -/
def Bounds (α : Type) (x : Fueled α) (y : Except EvalError α) : Prop :=
  ∀ result, x.run = some result → y = result

/-- What the first computation comes to, the second one comes to as well. -/
def Extends (α : Type) (x y : Fueled α) : Prop :=
  ∀ result, x.run = some result → y.run = some result

/-- The computation with fuel fails for no cycle. -/
def ReportsNoCycle (α : Type) (x _y : Fueled α) : Prop :=
  ∀ result, x.run = some result → ¬ FoundCycle result

/-- The fuel is enough, unless the other computation fails for a cycle. -/
def Suffices (α : Type) (x : Fueled α) (y : Except EvalError α) : Prop :=
  FoundCycle y ∨ x.run = some y

theorem bounds_simulation : Simulation Bounds where
  pure a := fun result h => Option.some.inj h
  throw e _ := fun result h => Option.some.inj h
  bind := by
    intro α β x y f g hxy hfg result h
    rcases Fueled.run_bind_eq_some h with ⟨a, hx, hf⟩ | ⟨e, hx, rfl⟩
    · rw [hxy _ hx]
      exact hfg a result hf
    · rw [hxy _ hx]
      rfl
  throw_bind e f g _ := fun result h => Option.some.inj h

theorem extends_simulation : Simulation Extends where
  pure a := fun result h => h
  throw e _ := fun result h => h
  bind := by
    intro α β x y f g hxy hfg result h
    rw [ExceptT.run_bind]
    rcases Fueled.run_bind_eq_some h with ⟨a, hx, hf⟩ | ⟨e, hx, rfl⟩
    · rw [hxy _ hx]
      exact hfg a result hf
    · rw [hxy _ hx]
      rfl
  throw_bind e f g _ := fun result h => h

theorem not_foundCycle_of_isLocal {α : Type} {e : EvalError} (he : e.isLocal = true) :
    ¬ FoundCycle (.error e : Except EvalError α) := by
  rintro ⟨chain, h⟩
  rw [Except.error.inj h] at he
  cases he

theorem reportsNoCycle_simulation : Simulation ReportsNoCycle where
  pure a := by
    intro result h
    obtain rfl := Option.some.inj h
    rintro ⟨chain, h⟩
    cases h
  throw e he := by
    intro result h
    obtain rfl := Option.some.inj h
    exact not_foundCycle_of_isLocal he
  bind := by
    intro α β x y f g hxy hfg result h
    rcases Fueled.run_bind_eq_some h with ⟨a, hx, hf⟩ | ⟨e, hx, rfl⟩
    · exact hfg a result hf
    · rintro ⟨chain, hcycle⟩
      exact hxy _ hx ⟨chain, by rw [Except.error.inj hcycle]⟩
  throw_bind e f g he := by
    intro result h
    obtain rfl := Option.some.inj h
    exact not_foundCycle_of_isLocal he

theorem suffices_simulation : Simulation Suffices where
  pure a := Or.inr rfl
  throw e _ := Or.inr rfl
  bind := by
    intro α β x y f g hxy hfg
    rcases hxy with ⟨chain, rfl⟩ | hx
    · exact Or.inl ⟨chain, rfl⟩
    · cases y with
      | ok a =>
        have hrun : (x >>= f).run = (f a).run := by
          rw [ExceptT.run_bind, hx]
          rfl
        rcases hfg a with hcycle | hf
        · exact Or.inl hcycle
        · exact Or.inr (hrun.trans hf)
      | error e =>
        right
        rw [ExceptT.run_bind, hx]
        rfl
  throw_bind e f g _ := Or.inr rfl

theorem Extends.trans {α : Type} {x y z : Fueled α} (hxy : Extends α x y) (hyz : Extends α y z) :
    Extends α x z :=
  fun result h => hyz result (hxy result h)

/-! ### Names -/

namespace Scope

variable {s : Scope}

/-- Without fuel there is no answer that could differ. -/
theorem extends_of_unroll_zero {name : String} (hover : s.env.override name = none)
    (y : Fueled Value) : Extends Value (s.unroll 0 name) y := by
  rw [unroll_zero hover]
  intro result h
  cases h

/-- One more unit of fuel changes no answer. -/
theorem unroll_extends (s : Scope) (fuel : Nat) (name : String) :
    Extends Value (s.unroll fuel name) (s.unroll (fuel + 1) name) := by
  induction fuel generalizing name with
  | zero =>
    cases hover : s.env.override name with
    | some text =>
      rw [unroll_of_override hover, unroll_of_override hover]
      exact extends_simulation.pure _
    | none => exact extends_of_unroll_zero hover _
  | succ fuel ih =>
    rcases s.overridden_or_unbound_or_bound name with
      ⟨text, hover⟩ | ⟨hover, hbound⟩ | ⟨node, hover, hbound⟩
    · rw [unroll_of_override hover, unroll_of_override hover]
      exact extends_simulation.pure _
    · rw [unroll_of_unbound hover hbound, unroll_of_unbound hover hbound]
      exact fun result h => h
    · rw [unroll_of_bound hover hbound, unroll_of_bound hover hbound]
      exact extends_simulation.eval node fun inner _ => ih inner

theorem unroll_extends_add (s : Scope) (fuel more : Nat) (name : String) :
    Extends Value (s.unroll fuel name) (s.unroll (fuel + more) name) := by
  induction more with
  | zero => exact fun result h => h
  | succ more ih => exact ih.trans (s.unroll_extends (fuel + more) name)

theorem unroll_eq_none_of_succ {fuel : Nat} {name : String}
    (h : (s.unroll (fuel + 1) name).run = none) : (s.unroll fuel name).run = none := by
  cases hrun : (s.unroll fuel name).run with
  | none => rfl
  | some result =>
    have hmore := s.unroll_extends fuel name result hrun
    rw [h] at hmore
    cases hmore

/-- What a name comes to with some fuel, it comes to on every chain of names that come to nothing
with that fuel. -/
theorem resolve_of_unroll {fuel : Nat} {chain : List String} {name : String}
    (hchain : ∀ x ∈ chain, (s.unroll fuel x).run = none) :
    Bounds Value (s.unroll fuel name) (s.resolve chain name) := by
  induction fuel generalizing chain name with
  | zero =>
    cases hover : s.env.override name with
    | some text =>
      rw [unroll_of_override hover, resolve_of_override hover]
      exact bounds_simulation.pure _
    | none =>
      rw [unroll_zero hover]
      intro result h
      cases h
  | succ fuel ih =>
    intro result h
    have hless : ∀ x ∈ chain, (s.unroll fuel x).run = none :=
      fun x hx => unroll_eq_none_of_succ (hchain x hx)
    cases hfuel : (s.unroll fuel name).run with
    | some other =>
      -- Less fuel is enough as well, and the chain is none the worse for it.
      have hmore := s.unroll_extends fuel name other hfuel
      rw [h] at hmore
      obtain rfl := Option.some.inj hmore
      exact ih hless result hfuel
    | none =>
      rcases s.overridden_or_unbound_or_bound name with
        ⟨text, hover⟩ | ⟨hover, hbound⟩ | ⟨node, hover, hbound⟩
      · rw [unroll_of_override hover] at h
        rw [resolve_of_override hover]
        exact bounds_simulation.pure _ result h
      · rw [unroll_of_unbound hover hbound] at h
        rw [resolve_of_unbound hover hbound]
        exact Option.some.inj h
      · have hnew : name ∉ chain := by
          intro hmem
          rw [hchain name hmem] at h
          cases h
        have hinner : ∀ x ∈ chain ++ [name], (s.unroll fuel x).run = none := by
          intro x hx
          rcases List.mem_append.1 hx with hx | hx
          · exact hless x hx
          · rw [List.mem_singleton.1 hx]
            exact hfuel
        rw [unroll_of_bound hover hbound] at h
        rw [resolve_of_bound hover hbound, if_neg hnew]
        exact bounds_simulation.eval node (fun inner _ => ih hinner) result h

/-- Fuel for more look-ups than there are bound names off the chain is enough for a name, unless it
fails for a cycle. -/
theorem unroll_of_resolve {fuel : Nat} {chain : List String} {name : String}
    (hfuel : (s.unresolved chain).length < fuel) :
    Suffices Value (s.unroll fuel name) (s.resolve chain name) := by
  induction fuel generalizing chain name with
  | zero => omega
  | succ fuel ih =>
    rcases s.overridden_or_unbound_or_bound name with
      ⟨text, hover⟩ | ⟨hover, hbound⟩ | ⟨node, hover, hbound⟩
    · rw [unroll_of_override hover, resolve_of_override hover]
      exact suffices_simulation.pure _
    · rw [unroll_of_unbound hover hbound, resolve_of_unbound hover hbound]
      exact Or.inr rfl
    · rw [unroll_of_bound hover hbound, resolve_of_bound hover hbound]
      by_cases hnew : name ∈ chain
      · rw [if_pos hnew]
        exact Or.inl ⟨_, rfl⟩
      · have hlt := unresolved_length_lt hbound hnew
        rw [if_neg hnew]
        exact suffices_simulation.eval node fun inner _ => ih (by omega)

theorem unroll_reportsNoCycle (s : Scope) (fuel : Nat) (name : String) :
    ReportsNoCycle Value (s.unroll fuel name) (s.unroll fuel name) := by
  induction fuel generalizing name with
  | zero =>
    cases hover : s.env.override name with
    | some text =>
      rw [unroll_of_override hover]
      exact reportsNoCycle_simulation.pure _
    | none =>
      rw [unroll_zero hover]
      intro result h
      cases h
  | succ fuel ih =>
    rcases s.overridden_or_unbound_or_bound name with
      ⟨text, hover⟩ | ⟨hover, hbound⟩ | ⟨node, hover, hbound⟩
    · rw [unroll_of_override hover]
      exact reportsNoCycle_simulation.pure _
    · rw [unroll_of_unbound hover hbound]
      intro result h
      obtain rfl := Option.some.inj h
      rintro ⟨chain, hcycle⟩
      cases hcycle
    · rw [unroll_of_bound hover hbound]
      exact reportsNoCycle_simulation.eval node fun inner _ => ih inner

end Scope

/-! ### The comparison -/

/-- A computation that comes to whatever the ones with fuel come to, and that fails for a cycle if and
only if these run out of fuel, however much it is. -/
def FindsCyclesExactly {α : Type} (y : Except EvalError α) (fueled : Nat → Fueled α) : Prop :=
  (∀ fuel result, (fueled fuel).run = some result → y = result) ∧
    (FoundCycle y ↔ ∀ fuel, (fueled fuel).run = none)

theorem findsCyclesExactly_of {α : Type} {y : Except EvalError α} {fueled : Nat → Fueled α}
    (hbounds : ∀ fuel, Bounds α (fueled fuel) y)
    (hnone : ∀ fuel, ReportsNoCycle α (fueled fuel) (fueled fuel))
    {enough : Nat} (henough : Suffices α (fueled enough) y) : FindsCyclesExactly y fueled := by
  refine ⟨hbounds, ?_, ?_⟩
  · intro hcycle fuel
    cases hrun : (fueled fuel).run with
    | none => rfl
    | some result =>
      rw [hbounds fuel result hrun] at hcycle
      exact absurd hcycle (hnone fuel result hrun)
  · intro hout
    rcases henough with hcycle | hrun
    · exact hcycle
    · rw [hout enough] at hrun
      cases hrun

/-- Computations whose evaluations on fuel come to the same are the same, or both fail for a cycle. -/
theorem FindsCyclesExactly.eq_or_foundCycle {α : Type} {y y' : Except EvalError α}
    {fueled fueled' : Nat → Fueled α} (h : FindsCyclesExactly y fueled)
    (h' : FindsCyclesExactly y' fueled')
    (hextends : ∀ fuel, ∃ more, Extends α (fueled fuel) (fueled' more))
    (hextended : ∀ fuel, ∃ more, Extends α (fueled' fuel) (fueled more)) :
    y = y' ∨ FoundCycle y ∧ FoundCycle y' := by
  by_cases hcycle : FoundCycle y
  · refine Or.inr ⟨hcycle, h'.2.2 fun fuel => ?_⟩
    obtain ⟨more, hmore⟩ := hextended fuel
    cases hrun : (fueled' fuel).run with
    | none => rfl
    | some result =>
      have hsome := hmore result hrun
      rw [h.2.1 hcycle more] at hsome
      cases hsome
  · have hsome : ∃ fuel, (fueled fuel).run ≠ none := by
      by_contra hnone
      exact hcycle (h.2.2 fun fuel => by_contra fun hrun => hnone ⟨fuel, hrun⟩)
    obtain ⟨fuel, hrun⟩ := hsome
    obtain ⟨result, hresult⟩ := Option.ne_none_iff_exists'.1 hrun
    obtain ⟨more, hmore⟩ := hextends fuel
    exact Or.inl ((h.1 fuel result hresult).trans (h'.1 more result (hmore result hresult)).symm)

namespace Scope

theorem bounds_unroll (s : Scope) (fuel : Nat) (name : String) :
    Bounds Value (s.unroll fuel name) (s.resolve [] name) :=
  resolve_of_unroll fun _ hx => absurd hx List.not_mem_nil

theorem suffices_unroll (s : Scope) (name : String) :
    Suffices Value (s.unroll ((s.unresolved []).length + 1) name) (s.resolve [] name) :=
  unroll_of_resolve (Nat.lt_succ_self _)

theorem findsCyclesExactly_evalFields (s : Scope) (n : Node) :
    FindsCyclesExactly (n.evalFields (s.resolve [])) fun fuel => n.evalFields (s.unroll fuel) :=
  findsCyclesExactly_of
    (fun fuel => bounds_simulation.evalFields n fun name _ => s.bounds_unroll fuel name)
    (fun fuel => reportsNoCycle_simulation.evalFields n fun name _ =>
      s.unroll_reportsNoCycle fuel name)
    (suffices_simulation.evalFields n fun name _ => s.suffices_unroll name)

end Scope

/-- Names, values and object nodes: evaluation agrees with evaluation on fuel wherever some fuel is
enough, and reports a cycle exactly where none is. -/
theorem cycles_found_exactly (s : Scope) :
    (∀ name, FindsCyclesExactly (s.resolve [] name) fun fuel => s.unroll fuel name) ∧
      (∀ n : Node, FindsCyclesExactly (n.eval (s.resolve [])) fun fuel => n.eval (s.unroll fuel)) ∧
      ∀ n : Node,
        FindsCyclesExactly (n.evalFields (s.resolve [])) fun fuel => n.evalFields (s.unroll fuel) := by
  refine ⟨fun name => ?_, fun n => ?_, s.findsCyclesExactly_evalFields⟩
  · exact findsCyclesExactly_of (fun fuel => s.bounds_unroll fuel name)
      (fun fuel => s.unroll_reportsNoCycle fuel name) (s.suffices_unroll name)
  · exact findsCyclesExactly_of
      (fun fuel => bounds_simulation.eval n fun name _ => s.bounds_unroll fuel name)
      (fun fuel => reportsNoCycle_simulation.eval n fun name _ => s.unroll_reportsNoCycle fuel name)
      (suffices_simulation.eval n fun name _ => s.suffices_unroll name)

end ConfigLang

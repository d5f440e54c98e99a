import ConfigLang.Proofs.Eval.Assignments
import ConfigLang.Proofs.Eval.ShapeSafety

/-!
# The references of a tree

The names in a tree lead to the nodes that they are bound to, and so to the names in these. A name that the
environment gives a text leads nowhere. Evaluation asks for no other names than the ones that are reached
in this way, so nothing else can make a difference to it.

* `Environment.Overrides` - the environment gives a name a text.
* `Scope.Refers`, `Scope.Reaches` - the graph of the references, and what a tree reaches in it.
* `only_reachable_names_matter` - the result, for tables of bound names and for environments.
-/

namespace ConfigLang

/-! ### The environment -/

/-- The input of a variable is named by the mark and the name of the variable. -/
theorem variableName_eq_some_iff {input name : String} :
    variableName input = some name ↔ name ≠ "" ∧ input = "$env_" ++ name := by
  have hinput : input = "$env_" ++ name ↔ variableMark.isPrefixOf? input.toList = some name.toList := by
    rw [List.isPrefixOf?_eq_some_iff_append_eq, ← String.toList_inj, String.toList_append]
    exact eq_comm
  rw [hinput, variableName]
  constructor
  · intro h
    split at h
    next c rest hrest =>
      obtain rfl := Option.some.inj h
      refine ⟨fun hempty => ?_, by rw [hrest, String.toList_ofList]⟩
      rw [← String.toList_inj, String.toList_ofList] at hempty
      cases hempty
    next => cases h
  · rintro ⟨hname, hrest⟩
    rw [hrest]
    cases hchars : name.toList with
    | nil => exact absurd (String.toList_inj.1 hchars) hname
    | cons c rest =>
      simp only [← hchars, String.ofList_toList]

namespace Environment

variable {env : Environment} {name var : String}

/-- A variable that is set to nothing is as good as one that is not set. -/
theorem override_append (hvar : var ≠ "") :
    env.override ("$env_" ++ var) = (env var).filter (· ≠ "") := by
  rw [override, variableName_eq_some_iff.2 ⟨hvar, rfl⟩]
  cases htext : env var with
  | none => simp [htext]
  | some text => simp [htext, Option.filter, ite_not]

/-- Only the inputs of variables are looked up in an environment. -/
theorem override_eq_none_or (name : String) :
    (∀ env : Environment, env.override name = none) ∨ ∃ var, var ≠ "" ∧ name = "$env_" ++ var := by
  cases hname : variableName name with
  | none =>
    left
    intro env
    rw [override, hname]
    rfl
  | some var => exact Or.inr ⟨var, variableName_eq_some_iff.1 hname⟩

/-- The environment gives a name a text: the name is that of the input of a variable, and the variable is set
to a text that is not empty. -/
def Overrides (env : Environment) (name : String) : Prop :=
  ∃ var text, var ≠ "" ∧ text ≠ "" ∧ name = "$env_" ++ var ∧ env var = some text

theorem override_eq_none_iff : env.override name = none ↔ ¬ env.Overrides name := by
  constructor
  · rintro hnone ⟨var, text, hvar, htext, rfl, hset⟩
    rw [override_append hvar, hset, Option.filter_some, if_pos (by simpa using htext)] at hnone
    cases hnone
  · intro hover
    rcases override_eq_none_or name with hnone | ⟨var, hvar, rfl⟩
    · exact hnone env
    · rw [override_append hvar, Option.filter_eq_none_iff]
      intro text hset htext
      exact hover ⟨var, text, hvar, by simpa using htext, rfl, hset⟩

end Environment

/-! ### The graph -/

namespace Scope

/-- A name leads to the names in the node that it is bound to, unless the environment gives it a text. -/
def Refers (s : Scope) (name inner : String) : Prop :=
  ¬ s.env.Overrides name ∧ ∃ node, s.inputs.get? name = some node ∧ inner ∈ node.references

/-- The names that a tree reaches: those in it, and those that a name which it reaches leads to. -/
inductive Reaches (s : Scope) (n : Node) : String → Prop where
  | inTree {name : String} : name ∈ n.references → Reaches s n name
  | through {name inner : String} : Reaches s n name → s.Refers name inner → Reaches s n inner

/-- The scopes agree on the names that a tree reaches in the first one: the environments give such a name the
same text or none, and if none then it is bound to the same node or on neither side. -/
def AgreesWith (s s' : Scope) (n : Node) : Prop :=
  ∀ name, s.Reaches n name → s.env.override name = s'.env.override name ∧
    (s.env.override name = none → s.inputs.get? name = s'.inputs.get? name)

variable {s s' : Scope} {n : Node}

theorem eq_simulation : Simulation fun α (x y : Except EvalError α) => x = y where
  pure a := rfl
  throw e _ := rfl
  bind := by
    rintro α β x y f g rfl hfg
    rw [funext hfg]
  throw_bind e f g _ := rfl

/-- A name comes to the same in two scopes that agree on it, if the names do that it is resolved through. -/
theorem resolve_congr {chain : List String} {name : String}
    (hoverrides : s.env.override name = s'.env.override name)
    (hbindings : s.env.override name = none → s.inputs.get? name = s'.inputs.get? name)
    (hinner : ∀ inner, s.Refers name inner →
      (s.unresolved (chain ++ [name])).length < (s.unresolved chain).length →
      s.resolve (chain ++ [name]) inner = s'.resolve (chain ++ [name]) inner) :
    s.resolve chain name = s'.resolve chain name := by
  rcases s.overridden_or_unbound_or_bound name with
    ⟨text, hover⟩ | ⟨hover, hbound⟩ | ⟨node, hover, hbound⟩
  · rw [resolve_of_override hover, resolve_of_override (hoverrides ▸ hover)]
  · rw [resolve_of_unbound hover hbound,
      resolve_of_unbound (hoverrides ▸ hover) (hbindings hover ▸ hbound)]
  · rw [resolve_of_bound hover hbound,
      resolve_of_bound (hoverrides ▸ hover) (hbindings hover ▸ hbound)]
    by_cases hnew : name ∈ chain
    · rw [if_pos hnew, if_pos hnew]
    · rw [if_neg hnew, if_neg hnew]
      refine eq_simulation.eval node fun inner hmem => hinner inner ?_ (unresolved_length_lt hbound hnew)
      exact ⟨Environment.override_eq_none_iff.1 hover, node, hbound, hmem⟩

/-- A reached name is resolved to the same on both sides, with the same chain of names. -/
theorem AgreesWith.resolve_eq (h : s.AgreesWith s' n) (chain : List String) (name : String)
    (hreached : s.Reaches n name) : s.resolve chain name = s'.resolve chain name := by
  obtain ⟨hoverrides, hbindings⟩ := h name hreached
  refine resolve_congr hoverrides hbindings fun inner hrefers hlt => ?_
  exact h.resolve_eq (chain ++ [name]) inner (hreached.through hrefers)
termination_by (s.unresolved chain).length

theorem AgreesWith.evalFields_eq (h : s.AgreesWith s' n) :
    n.evalFields (s.resolve []) = n.evalFields (s'.resolve []) :=
  eq_simulation.evalFields n fun name hname => h.resolve_eq [] name (.inTree hname)

/-- Two environments that differ at most in variables without a reached input. -/
theorem agreesWith_inEnv {env : Environment}
    (h : ∀ var, var ≠ "" → s.Reaches n ("$env_" ++ var) →
      (s.env var).filter (· ≠ "") = (env var).filter (· ≠ "")) : s.AgreesWith (s.inEnv env) n := by
  intro name hreached
  refine ⟨?_, fun _ => rfl⟩
  show s.env.override name = env.override name
  rcases Environment.override_eq_none_or name with hnone | ⟨var, hvar, rfl⟩
  · rw [hnone, hnone]
  · rw [Environment.override_append hvar, Environment.override_append hvar]
    exact h var hvar hreached

end Scope

/-! ### Documents -/

/-- The scope of a parsed document binds names to values, its root is an object, and it comes to what that
comes to. -/
theorem exists_enter_of_treeOf {tokens : List Token} {config : Node} (env : Environment)
    (hconfig : treeOf tokens = .ok config) :
    ∃ (s : Scope) (object : Node), (Scope.new env).enter config.children = (s, .ok object) ∧
      s.env = env ∧ s.Sound ∧ Shaped .object object ∧
      config.evaluate env = (object.evalFields (s.resolve [])).map (Evaluation.mk s.inputs) := by
  obtain ⟨hshaped, -⟩ := Grammar.shaped_and_tokens_of_treeOf hconfig
  obtain ⟨hkind, s, object, henter, hsound, hobject⟩ := (Scope.new env).enter_of_shaped hshaped
  have henv := (Scope.new env).env_enter config.children
  rw [henter] at henv
  exact ⟨s, object, henter, henv, hsound, hobject, (Scope.new env).evalConfig_of_enter hkind henter⟩

/-- An object comes to the same in two scopes that agree on the names that it reaches. So a document comes to
the same whatever the other names are bound to, and in every environment that gives the variables with a
reached input the same texts, where an empty text counts as none. -/
theorem only_reachable_names_matter :
    (∀ (object : Node) (s s' : Scope), s.AgreesWith s' object →
      object.evalFields (s.resolve []) = object.evalFields (s'.resolve [])) ∧
    ∀ tokens config env, treeOf tokens = .ok config → ∃ s object,
      (Scope.new env).enter config.children = (s, .ok object) ∧
      (∀ inputs, (∀ name, s.Reaches object name → s.inputs.get? name = inputs.get? name) →
        (config.evaluate env).map (·.fields) = object.evalFields ((Scope.mk env inputs).resolve [])) ∧
      ∀ env' : Environment, (∀ var, var ≠ "" → s.Reaches object ("$env_" ++ var) →
        (env var).filter (· ≠ "") = (env' var).filter (· ≠ "")) →
        config.evaluate env = config.evaluate env' := by
  refine ⟨fun object s s' h => h.evalFields_eq, fun tokens config env hconfig => ?_⟩
  obtain ⟨s, object, henter, rfl, -, -, heval⟩ := exists_enter_of_treeOf env hconfig
  refine ⟨s, object, henter, ?_, ?_⟩
  · intro inputs hinputs
    have hagrees : s.AgreesWith ⟨s.env, inputs⟩ object :=
      fun name hreached => ⟨rfl, fun _ => hinputs name hreached⟩
    rw [heval, hagrees.evalFields_eq]
    cases object.evalFields ((Scope.mk s.env inputs).resolve []) <;> rfl
  · intro env' hvars
    have henter' : (Scope.new env').enter config.children = (s.inEnv env', .ok object) := by
      have h := (Scope.new s.env).enter_inEnv env' config.children
      rwa [henter] at h
    obtain ⟨t, object', hother, -, -, -, heval'⟩ := exists_enter_of_treeOf env' hconfig
    rw [henter'] at hother
    obtain ⟨rfl, hobject⟩ := Prod.mk.inj hother
    obtain rfl := Except.ok.inj hobject
    rw [heval, heval', (Scope.agreesWith_inEnv hvars).evalFields_eq]
    rfl

/-- A document with an input that needs itself and that nothing refers to. It comes to the same without that
input, and with a variable that it does not ask for and one that is empty. -/
theorem unreached_names_make_no_difference :
    let inputs : OrderedMap Node :=
      [("$a", .leaf .input (.text "$env_HOME")), ("$env_HOME", .leaf .integer (.integer 1))]
    let object := Node.branch .object [.branch .pair [.branch .path [.leaf .pathSegment (.text "a")],
      .leaf .input (.text "$a")]]
    let config := Node.branch .config [
      .branch .assignBlock [
        .branch .assignment [.leaf .input (.text "$loop"), .branch .value [.leaf .input (.text "$loop")]],
        .branch .assignment [.leaf .input (.text "$a"), .branch .value [.leaf .input (.text "$env_HOME")]],
        .branch .assignment [.leaf .input (.text "$env_HOME"),
          .branch .value [.leaf .integer (.integer 1)]]], object]
    treeOf [.symbol .letWord, .symbol .braceOpen, .input "$loop", .symbol .equals, .input "$loop",
        .input "$a", .symbol .equals, .input "$env_HOME", .input "$env_HOME", .symbol .equals, .integer 1,
        .symbol .braceClose, .symbol .inWord, .symbol .braceOpen, .segment "a", .symbol .equals,
        .input "$a", .symbol .braceClose] = .ok config ∧
      (config.evaluate .empty).map (·.fields) = object.evalFields ((Scope.mk .empty inputs).resolve []) ∧
      config.evaluate .empty = config.evaluate (.ofList [("HOME", ""), ("USER", "me")]) := by
  intro inputs object config
  have hconfig : treeOf [.symbol .letWord, .symbol .braceOpen, .input "$loop", .symbol .equals,
      .input "$loop", .input "$a", .symbol .equals, .input "$env_HOME", .input "$env_HOME",
      .symbol .equals, .integer 1, .symbol .braceClose, .symbol .inWord, .symbol .braceOpen,
      .segment "a", .symbol .equals, .input "$a", .symbol .braceClose] = .ok config := rfl
  obtain ⟨s, root, henter, hinputs, hvars⟩ := only_reachable_names_matter.2 _ config .empty hconfig
  have hscope : (Scope.new .empty).enter config.children =
      (⟨.empty, ("$loop", .leaf .input (.text "$loop")) :: inputs⟩, .ok object) := rfl
  rw [hscope] at henter
  obtain ⟨rfl, hroot⟩ := Prod.mk.inj henter
  obtain rfl := Except.ok.inj hroot
  have hreached : ∀ name,
      (Scope.mk .empty (("$loop", .leaf .input (.text "$loop")) :: inputs)).Reaches object name →
      name = "$a" ∨ name = "$env_HOME" := by
    intro name h
    induction h with
    | inTree hname => exact Or.inl (List.mem_singleton.1 hname)
    | through _ hrefers ih =>
      obtain ⟨-, node, hbound, hinner⟩ := hrefers
      rcases ih with rfl | rfl
      · obtain rfl := Option.some.inj hbound
        exact Or.inr (List.mem_singleton.1 hinner)
      · obtain rfl := Option.some.inj hbound
        exact absurd hinner List.not_mem_nil
  refine ⟨hconfig, hinputs inputs fun name h => ?_, hvars _ fun var hvar h => ?_⟩
  · rcases hreached name h with rfl | rfl <;> rfl
  · have hname : variableName ("$env_" ++ var) = some var := variableName_eq_some_iff.2 ⟨hvar, rfl⟩
    rcases hreached _ h with heq | heq
    · rw [heq] at hname
      cases hname
    · rw [heq] at hname
      obtain rfl : "HOME" = var := Option.some.inj hname
      rfl

end ConfigLang

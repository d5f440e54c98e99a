import ConfigLang.Proofs.Eval.References
import Mathlib.Data.List.Chain
import Mathlib.Data.List.Nodup
import Mathlib.Logic.Relation

/-!
# Errors of references

Evaluation goes from name to name along the references, and it asks for every name in a well-shaped tree. So
it has an answer only if each reached name has a value, and the names of an error say where the graph of the
references is at fault.

* `Succeeds`, `Shaped.resolves_of_succeeds` - an answer needs the values of all names.
* `Scope.IsCycle` - a way in the graph of the references that ends where it starts.
* `Scope.Trail` - what holds of a name and the chain of names that it is needed for.
* `reference_errors_are_defects_of_the_graph` - the result.
-/

namespace ConfigLang

/-! ### All names are asked for -/

namespace Node

theorem exists_mem_of_mem_referencesOf {name : String} {ns : List Node}
    (h : name ∈ referencesOf ns) : ∃ n ∈ ns, name ∈ n.references := by
  induction ns with
  | nil => exact absurd h List.not_mem_nil
  | cons first others ih =>
    rw [referencesOf, List.mem_append] at h
    rcases h with h | h
    · exact ⟨first, List.mem_cons_self, h⟩
    · obtain ⟨n, hn, hname⟩ := ih h
      exact ⟨n, List.mem_cons_of_mem _ hn, hname⟩

/-- The names in a branch are those in its children. -/
theorem exists_child_of_mem_references {name : String} {kind : Kind} {children : List Node}
    (h : name ∈ (branch kind children).references) : ∃ c ∈ children, name ∈ c.references := by
  rw [branch, references, List.mem_append] at h
  refine exists_mem_of_mem_referencesOf (h.resolve_left ?_)
  cases kind <;> exact List.not_mem_nil

end Node

/-- Evaluation has an answer for the tree of a production. The trees of some productions are not evaluated. -/
def Succeeds (resolve : Resolver (Except EvalError)) : Production → Node → Prop
  | .object, n => ∃ fields, n.evalFields resolve = .ok fields
  | .entry, n => ∃ before after, Node.evalEntry resolve before n = .ok after
  | .item, n => ∃ values, n.itemValues resolve = .ok values
  | .part, n => ∃ piece, n.piece resolve = .ok piece
  | .value, n => ∃ value, n.eval resolve = .ok value
  | .path, _ => True
  | .segment, _ => True
  | _, _ => False

section Strict

variable {resolve : Resolver (Except EvalError)}

theorem succeeds_of_evalEntries {entries : List Node} {before after : OrderedMap Value}
    (h : Node.evalEntries resolve before entries = .ok after) :
    ∀ e ∈ entries, Succeeds resolve .entry e := by
  induction entries generalizing before with
  | nil => simp
  | cons e entries ih =>
    rw [Node.evalEntries] at h
    obtain ⟨next, hentry, hrest⟩ := exists_of_bind_eq_ok h
    exact List.forall_mem_cons.2 ⟨⟨before, next, hentry⟩, ih hrest⟩

theorem succeeds_of_evalItems {items : List Node} {values : List Value}
    (h : Node.evalItems resolve items = .ok values) : ∀ i ∈ items, Succeeds resolve .item i := by
  induction items generalizing values with
  | nil => simp
  | cons i items ih =>
    rw [Node.evalItems_cons] at h
    obtain ⟨first, hitem, hrest⟩ := exists_of_bind_eq_ok h
    obtain ⟨others, hothers, -⟩ := exists_of_bind_eq_ok hrest
    exact List.forall_mem_cons.2 ⟨⟨first, hitem⟩, ih hothers⟩

theorem succeeds_of_mapM_piece {parts : List Node} {pieces : List Piece}
    (h : parts.mapM (Node.piece resolve) = .ok pieces) : ∀ p ∈ parts, Succeeds resolve .part p := by
  induction parts generalizing pieces with
  | nil => simp
  | cons p parts ih =>
    rw [List.mapM_cons] at h
    obtain ⟨first, hpart, hrest⟩ := exists_of_bind_eq_ok h
    obtain ⟨others, hothers, -⟩ := exists_of_bind_eq_ok hrest
    exact List.forall_mem_cons.2 ⟨⟨first, hpart⟩, ih hothers⟩

/-- What goes on with the value of a name has an answer only if the name has a value. -/
theorem forall_mem_singleton_of_bind_eq_ok {α : Type} {name : String} {f : Value → Except EvalError α}
    {a : α} (h : resolve name >>= f = .ok a) : ∀ inner ∈ [name], ∃ value, resolve inner = .ok value := by
  intro inner hinner
  obtain rfl := List.mem_singleton.1 hinner
  obtain ⟨value, hvalue, -⟩ := exists_of_bind_eq_ok h
  exact ⟨value, hvalue⟩

/-- A well-shaped tree has an answer only if all names in it have a value. -/
theorem Shaped.resolves_of_succeeds {production : Production} {n : Node} (h : Shaped production n)
    (hsucceeds : Succeeds resolve production n) :
    ∀ name ∈ n.references, ∃ value, resolve name = .ok value := by
  induction h with
  | object _ ih =>
    obtain ⟨fields, hfields⟩ := hsucceeds
    rw [Node.evalFields_branch] at hfields
    intro name hname
    obtain ⟨e, he, hmem⟩ := Node.exists_child_of_mem_references hname
    exact ih e he (succeeds_of_evalEntries hfields e he) name hmem
  | entrySpread spread =>
    obtain ⟨before, after, hentry⟩ := hsucceeds
    obtain ⟨fields, hfields, -⟩ := exists_of_bind_eq_ok hentry
    exact forall_mem_singleton_of_bind_eq_ok hfields
  | @pair path value _ _ ihpath ihvalue =>
    obtain ⟨before, after, hentry⟩ := hsucceeds
    rw [Node.branch, Node.evalEntry] at hentry
    obtain ⟨keys, -, hrest⟩ := exists_of_bind_eq_ok hentry
    obtain ⟨v, hv, -⟩ := exists_of_bind_eq_ok hrest
    intro name hname
    obtain ⟨c, hc, hmem⟩ := Node.exists_child_of_mem_references hname
    rcases List.mem_pair.1 hc with rfl | rfl
    · exact ihpath trivial name hmem
    · exact ihvalue ⟨v, hv⟩ name hmem
  | path _ _ ih =>
    intro name hname
    obtain ⟨s, hs, hmem⟩ := Node.exists_child_of_mem_references hname
    exact ih s hs trivial name hmem
  | itemSpread spread =>
    obtain ⟨values, hitem⟩ := hsucceeds
    exact forall_mem_singleton_of_bind_eq_ok hitem
  | itemValue hvalue ih =>
    obtain ⟨values, hitem⟩ := hsucceeds
    rw [Node.itemValues, if_neg hvalue.kind_ne_spread, map_eq_pure_bind] at hitem
    obtain ⟨v, hv, -⟩ := exists_of_bind_eq_ok hitem
    exact ih ⟨v, hv⟩
  | interpolation name =>
    obtain ⟨piece, hpiece⟩ := hsucceeds
    exact forall_mem_singleton_of_bind_eq_ok hpiece
  | objectValue hobject ih =>
    obtain ⟨v, hv⟩ := hsucceeds
    rw [Node.eval_of_object resolve hobject.kind_eq_object] at hv
    obtain ⟨fields, hfields, -⟩ := exists_of_bind_eq_ok hv
    exact ih ⟨fields, hfields⟩
  | array _ ih =>
    obtain ⟨v, hv⟩ := hsucceeds
    rw [Node.branch, Node.eval] at hv
    obtain ⟨values, hvalues, -⟩ := exists_of_bind_eq_ok hv
    intro name hname
    obtain ⟨i, hi, hmem⟩ := Node.exists_child_of_mem_references hname
    exact ih i hi (succeeds_of_evalItems hvalues i hi) name hmem
  | string _ ih =>
    obtain ⟨v, hv⟩ := hsucceeds
    rw [Node.branch, Node.eval] at hv
    obtain ⟨pieces, hpieces, -⟩ := exists_of_bind_eq_ok hv
    intro name hname
    obtain ⟨p, hp, hmem⟩ := Node.exists_child_of_mem_references hname
    exact ih p hp (succeeds_of_mapM_piece hpieces p hp) name hmem
  | input name =>
    obtain ⟨v, hv⟩ := hsucceeds
    intro name' hname
    obtain rfl := List.mem_singleton.1 hname
    exact ⟨v, hv⟩
  | null | charSequence | charEscape | segment | boolean | float | integer =>
    intro name hname
    exact absurd hname List.not_mem_nil
  | config | configWithInputs | inputBlock | assignment => exact hsucceeds.elim

end Strict

/-! ### Names with a value -/

namespace Scope

variable {s : Scope} {n : Node} {chain : List String} {name inner : String}

/-- A name that refers to another one has a value only if it is not on its own chain and the other one has a
value. -/
theorem Sound.resolves_of_refers (hsound : s.Sound) (hrefers : s.Refers name inner)
    (h : ∃ value, s.resolve chain name = .ok value) :
    name ∉ chain ∧ ∃ value, s.resolve (chain ++ [name]) inner = .ok value := by
  obtain ⟨hover, node, hbound, hinner⟩ := hrefers
  obtain ⟨value, hvalue⟩ := h
  rw [resolve_of_bound (Environment.override_eq_none_iff.2 hover) hbound] at hvalue
  by_cases hnew : name ∈ chain
  · rw [if_pos hnew] at hvalue
    cases hvalue
  · rw [if_neg hnew] at hvalue
    have hsucceeds : Succeeds (s.resolve (chain ++ [name])) .value node := ⟨value, hvalue⟩
    exact ⟨hnew, (hsound name node hbound).resolves_of_succeeds hsucceeds inner hinner⟩

/-- Every reached name has a value if those in the tree have one. -/
theorem Sound.resolves_of_reaches (hsound : s.Sound)
    (htree : ∀ name ∈ n.references, ∃ value, s.resolve [] name = .ok value) (h : s.Reaches n name) :
    ∃ chain value, s.resolve chain name = .ok value := by
  induction h with
  | inTree hname => exact ⟨[], htree _ hname⟩
  | through _ hrefers ih =>
    obtain ⟨chain, hvalue⟩ := ih
    exact ⟨_, (hsound.resolves_of_refers hrefers hvalue).2⟩

/-- Where a name with a value leads to, the name is on the chain. -/
theorem Sound.resolves_of_transGen (hsound : s.Sound) (h : Relation.TransGen s.Refers name inner)
    (hvalue : ∃ value, s.resolve chain name = .ok value) :
    ∃ longer, name ∈ longer ∧ ∃ value, s.resolve longer inner = .ok value := by
  induction h with
  | single hrefers =>
    exact ⟨chain ++ [name], by simp, (hsound.resolves_of_refers hrefers hvalue).2⟩
  | @tail middle last _ hrefers ih =>
    obtain ⟨longer, hmem, hmiddle⟩ := ih
    exact ⟨longer ++ [middle], by simp [hmem], (hsound.resolves_of_refers hrefers hmiddle).2⟩

/-- A name with a value does not lead to itself. -/
theorem Sound.not_transGen_self (hsound : s.Sound) (hvalue : ∃ value, s.resolve chain name = .ok value) :
    ¬ Relation.TransGen s.Refers name name := by
  intro h
  obtain ⟨longer, hmem, hagain⟩ := hsound.resolves_of_transGen h hvalue
  obtain ⟨next, hrefers, -⟩ := Relation.TransGen.head'_iff.1 h
  exact (hsound.resolves_of_refers hrefers hagain).1 hmem

/-! ### Names in errors -/

/-- The name is bound to a node, and evaluation looks at that. -/
def Looked (s : Scope) (n : Node) (name : String) : Prop :=
  s.Reaches n name ∧ ¬ s.env.Overrides name ∧ ∃ node, s.inputs.get? name = some node

/-- The names lead one to the next and the last is the first; the others are different. -/
structure IsCycle (s : Scope) (n : Node) (names : List String) : Prop where
  closed : ∃ name others, names = name :: others ++ [name] ∧ (name :: others).Nodup
  looked : ∀ name ∈ names, s.Looked n name
  refers : names.IsChain s.Refers

/-- What an error says about the references of a tree. -/
def Explains (s : Scope) (n : Node) : EvalError → Prop
  | .missingInput name => s.Reaches n name ∧ ¬ s.env.Overrides name ∧ s.inputs.get? name = none
  | .cyclicInput names => s.IsCycle n names
  | _ => True

/-- The chain leads from the tree to the name. -/
structure Trail (s : Scope) (n : Node) (chain : List String) (name : String) : Prop where
  reached : s.Reaches n name
  nodup : chain.Nodup
  looked : ∀ name ∈ chain, s.Looked n name
  refers : (chain ++ [name]).IsChain s.Refers

/-- The other errors say nothing about references. -/
theorem explains_of_isLocal {e : EvalError} (he : e.isLocal = true) : s.Explains n e := by
  cases e with
  | missingInput | cyclicInput => cases he
  | _ => trivial

/-- The errors of the computation say where the references are at fault; the second computation does not
matter. -/
def ErrorsExplained (s : Scope) (n : Node) (α : Type) (x _y : Except EvalError α) : Prop :=
  ∀ e, x = .error e → s.Explains n e

theorem errorsExplained_simulation (s : Scope) (n : Node) : Simulation (s.ErrorsExplained n) where
  pure a := by
    intro e h
    cases h
  throw e he := by
    intro e' h
    obtain rfl := Except.error.inj h
    exact explains_of_isLocal he
  bind := by
    intro α β x y f g hx hf e h
    cases x with
    | ok a => exact hf a e h
    | error e' =>
      obtain rfl := Except.error.inj h
      exact hx e' rfl
  throw_bind e f g he := by
    intro e' h
    obtain rfl := Except.error.inj h
    exact explains_of_isLocal he

namespace Trail

theorem start (h : name ∈ n.references) : s.Trail n [] name where
  reached := .inTree h
  nodup := List.nodup_nil
  looked := by simp
  refers := List.isChain_singleton name

/-- The chain goes on over a name that is looked at. -/
theorem step (h : s.Trail n chain name) (hlooked : s.Looked n name) (hnew : name ∉ chain)
    (hrefers : s.Refers name inner) : s.Trail n (chain ++ [name]) inner where
  reached := h.reached.through hrefers
  nodup := by
    rw [← List.concat_eq_append]
    exact (List.nodup_concat _ _).2 ⟨hnew, h.nodup⟩
  looked := by
    intro x hx
    rcases List.mem_append.1 hx with hx | hx
    · exact h.looked x hx
    · rwa [List.mem_singleton.1 hx]
  refers := by
    refine h.refers.append (List.isChain_singleton inner) ?_
    simpa using hrefers

/-- A name that comes up again on its chain closes a cycle. -/
theorem isCycle (h : s.Trail n chain name) (hmem : name ∈ chain) : s.IsCycle n (cycle chain name) := by
  obtain ⟨before, after, rfl⟩ := List.append_of_mem hmem
  have hnodup := List.nodup_append.1 h.nodup
  have hbefore : ∀ x ∈ before, decide (x ≠ name) = true := by
    intro x hx
    exact decide_eq_true (hnodup.2.2 x hx name List.mem_cons_self)
  have hcycle : cycle (before ++ name :: after) name = name :: after ++ [name] := by
    rw [cycle, List.dropWhile_append_of_pos hbefore, List.dropWhile_cons_of_neg (by simp)]
  rw [hcycle]
  refine ⟨⟨name, after, rfl, hnodup.2.1⟩, fun x hx => h.looked x ?_, h.refers.suffix ⟨before, by simp⟩⟩
  have hx' : x = name ∨ x ∈ after := by simpa [or_assoc, or_comm] using hx
  rcases hx' with rfl | hx'
  · exact hmem
  · simp [hx']

/-- The errors of a name say where the references are at fault. -/
theorem errorsExplained {chain : List String} {name : String} (h : s.Trail n chain name) :
    s.ErrorsExplained n Value (s.resolve chain name) (s.resolve chain name) := by
  intro e he
  rcases s.overridden_or_unbound_or_bound name with
    ⟨text, hover⟩ | ⟨hover, hbound⟩ | ⟨node, hover, hbound⟩
  · rw [resolve_of_override hover] at he
    cases he
  · rw [resolve_of_unbound hover hbound] at he
    obtain rfl := Except.error.inj he
    exact ⟨h.reached, Environment.override_eq_none_iff.1 hover, hbound⟩
  · have hover' := Environment.override_eq_none_iff.1 hover
    rw [resolve_of_bound hover hbound] at he
    by_cases hnew : name ∈ chain
    · rw [if_pos hnew] at he
      obtain rfl := Except.error.inj he
      exact h.isCycle hnew
    · have hlt := unresolved_length_lt hbound hnew
      have hinner : ∀ inner ∈ node.references, s.ErrorsExplained n Value
          (s.resolve (chain ++ [name]) inner) (s.resolve (chain ++ [name]) inner) := by
        intro inner hinner
        have hlooked : s.Looked n name := ⟨h.reached, hover', node, hbound⟩
        exact (h.step hlooked hnew ⟨hover', node, hbound, hinner⟩).errorsExplained
      rw [if_neg hnew] at he
      exact (errorsExplained_simulation s n).eval node hinner e he
termination_by (s.unresolved chain).length

end Trail

end Scope

/-! ### Documents -/

theorem eq_error_of_map_eq_error {α β : Type} {f : α → β} {x : Except EvalError α} {e : EvalError}
    (h : x.map f = .error e) : x = .error e := by
  cases x with
  | ok a => cases h
  | error e' => rw [Except.error.inj h]

/-- If a document has a value, every reached name has a text from the environment or is bound, and none leads
to itself. If it fails for a missing input, that is a reached name without either; and if it fails for a cycle,
that is one in the graph of the references. -/
theorem reference_errors_are_defects_of_the_graph {tokens : List Token} {config : Node}
    (hconfig : treeOf tokens = .ok config) (env : Environment) :
    ∃ s object, (Scope.new env).enter config.children = (s, .ok object) ∧ s.env = env ∧
      (∀ evaluation, config.evaluate env = .ok evaluation →
        (∀ name, s.Reaches object name → env.Overrides name ∨ ∃ node, s.inputs.get? name = some node) ∧
        ∀ name, s.Reaches object name → ¬ env.Overrides name → ¬ Relation.TransGen s.Refers name name) ∧
      (∀ name, config.evaluate env = .error (.missingInput name) →
        s.Reaches object name ∧ ¬ env.Overrides name ∧ s.inputs.get? name = none) ∧
      ∀ names, config.evaluate env = .error (.cyclicInput names) → s.IsCycle object names := by
  obtain ⟨s, object, henter, rfl, hsound, hobject, heval⟩ := exists_enter_of_treeOf env hconfig
  have hexplains : ∀ e, config.evaluate s.env = .error e → s.Explains object e := by
    intro e he
    rw [heval] at he
    have htrails : ∀ name ∈ object.references,
        s.ErrorsExplained object Value (s.resolve [] name) (s.resolve [] name) :=
      fun name hname => (Scope.Trail.start hname).errorsExplained
    exact (Scope.errorsExplained_simulation s object).evalFields object htrails e
      (eq_error_of_map_eq_error he)
  refine ⟨s, object, henter, rfl, ?_, fun name => hexplains _, fun names => hexplains _⟩
  intro evaluation hevaluation
  have htree : ∀ name ∈ object.references, ∃ value, s.resolve [] name = .ok value := by
    rw [heval] at hevaluation
    cases hfields : object.evalFields (s.resolve []) with
    | ok fields => exact hobject.resolves_of_succeeds ⟨fields, hfields⟩
    | error e =>
      rw [hfields] at hevaluation
      cases hevaluation
  refine ⟨fun name hreached => ?_, fun name hreached _ => ?_⟩
  · obtain ⟨chain, value, hvalue⟩ := hsound.resolves_of_reaches htree hreached
    rcases s.overridden_or_unbound_or_bound name with
      ⟨text, hover⟩ | ⟨hover, hbound⟩ | ⟨node, hover, hbound⟩
    · left
      by_contra hnot
      rw [Environment.override_eq_none_iff.2 hnot] at hover
      cases hover
    · rw [Scope.resolve_of_unbound hover hbound] at hvalue
      cases hvalue
    · exact Or.inr ⟨node, hbound⟩
  · obtain ⟨chain, hvalue⟩ := hsound.resolves_of_reaches htree hreached
    exact hsound.not_transGen_self hvalue

/-- Two inputs that need each other, and the cycle that is reported. -/
theorem cycle_of_two_inputs :
    let config := Node.branch .config [
      .branch .assignBlock [
        .branch .assignment [.leaf .input (.text "$a"),
          .branch .value [.branch .array [.leaf .input (.text "$b")]]],
        .branch .assignment [.leaf .input (.text "$b"),
          .branch .value [.branch .array [.leaf .spread (.text "$a")]]]],
      .branch .object [.branch .pair [.branch .path [.leaf .pathSegment (.text "x")],
        .leaf .input (.text "$a")]]]
    treeOf [.symbol .letWord, .symbol .braceOpen,
        .input "$a", .symbol .equals, .symbol .bracketOpen, .input "$b", .symbol .bracketClose,
        .input "$b", .symbol .equals, .symbol .bracketOpen, .symbol .spread, .input "$a",
        .symbol .bracketClose, .symbol .braceClose, .symbol .inWord, .symbol .braceOpen,
        .segment "x", .symbol .equals, .input "$a", .symbol .braceClose] = .ok config ∧
      config.evaluate .empty = .error (.cyclicInput ["$a", "$b", "$a"]) ∧
      ∃ s object, (Scope.new .empty).enter config.children = (s, .ok object) ∧
        s.IsCycle object ["$a", "$b", "$a"] := by
  intro config
  have hconfig : treeOf [.symbol .letWord, .symbol .braceOpen,
      .input "$a", .symbol .equals, .symbol .bracketOpen, .input "$b", .symbol .bracketClose,
      .input "$b", .symbol .equals, .symbol .bracketOpen, .symbol .spread, .input "$a",
      .symbol .bracketClose, .symbol .braceClose, .symbol .inWord, .symbol .braceOpen,
      .segment "x", .symbol .equals, .input "$a", .symbol .braceClose] = .ok config := rfl
  have hcycle : config.evaluate .empty = .error (.cyclicInput ["$a", "$b", "$a"]) := by
    cbv
  obtain ⟨s, object, henter, -, -, -, hcycles⟩ := reference_errors_are_defects_of_the_graph hconfig .empty
  exact ⟨hconfig, hcycle, s, object, henter, hcycles _ hcycle⟩

end ConfigLang

import ConfigLang.Proofs.Eval.Cycles
import ConfigLang.Proofs.Eval.Replacement
import ConfigLang.Proofs.Eval.ShapeSafety

/-!
# Giving a value a name

A value somewhere in a document can be given a name that the document does not use: the input block binds
the name to the value, and the name stands where the value stood. The document comes to the same as before.

* `Node.declare` - the document with one more assignment, put first.
* `Scope.Abstracts` - the names of the two documents are bound alike.
* `inputs_are_pure_substitution` - the result.

With a limit on the look-ups in the table of bound names (`Scope.unroll`) the two documents can be compared
without their chains of names. Each look-up of the first document is at most two of the second, one more for
the new name, so what one comes to within some limit the other one comes to within another. Cycles are left
over for both.
-/

namespace ConfigLang

/-- The document with one more assignment, put first in its input block. -/
def Node.declare (config : Node) (name : String) (value : Node) : Node :=
  let assignment := branch .assignment [leaf .input (.text name), branch .value [value]]
  match config.children with
  | [block, object] => branch .config [branch .assignBlock (assignment :: block.children), object]
  | objects => branch .config (branch .assignBlock [assignment] :: objects)

/-- Only names with the mark are looked up in the environment. -/
theorem Environment.override_eq_none {name : String} (hmark : ¬ variableMark <+: name.toList)
    (env : Environment) : env.override name = none := by
  have hname : variableName name = none := by
    unfold variableName
    split
    next c rest hrest => exact absurd (List.isPrefixOf?_eq_some_iff_append_eq.1 hrest) fun h => hmark ⟨_, h⟩
    next => rfl
  rw [override, hname]
  rfl

variable {value : Node} {x : String}

/-! ### Trees that are alike -/

/-- The two trees are the same, or a value was given the name in one place. -/
def Node.Named (value : Node) (x : String) (n n' : Node) : Prop :=
  n' = n ∨ Node.Replaces value (.leaf .input (.text x)) n n'

namespace Node.Named

variable {n n' : Node}

theorem kind_eq (h : Named value x n n') : n'.kind = n.kind := by
  rcases h with rfl | h
  · rfl
  · exact h.kind_eq

theorem eq_of_leaf {kind : Kind} {literal : Literal} (h : Named value x (.leaf kind literal) n') :
    n' = .leaf kind literal :=
  h.resolve_right Replaces.not_leaf

/-- The children of a branch are alike one by one, unless it is a pair or an array. -/
theorem of_branch {kind : Kind} {children : List Node} (h : Named value x (.branch kind children) n')
    (harray : kind ≠ .array) (hpair : kind ≠ .pair) :
    ∃ children', n' = .branch kind children' ∧ List.Forall₂ (Named value x) children children' := by
  rcases h with rfl | h
  · exact ⟨children, rfl, List.forall₂_same.2 fun c _ => Or.inl rfl⟩
  · obtain ⟨before, m, m', after, rfl, hn', hinner⟩ := h.inside_of_branch harray hpair
    exact ⟨_, hn', Simulation.forall₂_of_one (fun c _ => Or.inl rfl) (Or.inr hinner)⟩

theorem of_assignment {name : String} {a' : Node}
    (h : Named value x (.branch .assignment [.leaf .input (.text name), .branch .value [n]]) a') :
    ∃ n', a' = .branch .assignment [.leaf .input (.text name), .branch .value [n']] ∧
      Named value x n n' := by
  obtain ⟨children, rfl, hchildren⟩ := h.of_branch (by decide) (by decide)
  cases hchildren with
  | cons hname hright =>
    obtain rfl := hname.eq_of_leaf
    cases hright with
    | cons hright hrest =>
      cases hrest
      obtain ⟨inner, rfl, hinner⟩ := hright.of_branch (by decide) (by decide)
      cases hinner with
      | cons hn hrest =>
        cases hrest
        exact ⟨_, rfl, hn⟩

end Node.Named

section Related

variable {m n : Type → Type} [Monad m] [MonadExcept EvalError m] [Monad n] [MonadExcept EvalError n]
variable [LawfulMonad m] [LawfulMonad n]
variable {R : (α : Type) → m α → n α → Prop} {resolve : Resolver m} {resolve' : Resolver n}
variable {tree tree' : Node}

/-- Values and objects that are alike are related, if the value and the name for it are. -/
theorem Simulation.named (h : Simulation R) (hvalue : Shaped .value value)
    (heval : R Value (value.eval resolve) (resolve' x)) {production : Production}
    (hproduction : production = .value ∨ production = .object) (htree : Shaped production tree)
    (hfresh : x ∉ tree.references) (hnamed : Node.Named value x tree tree')
    (hres : ∀ name, name ≠ x → R Value (resolve name) (resolve' name)) :
    Corresponds R resolve resolve' production tree tree' := by
  have hnames : ∀ name ∈ tree.references, R Value (resolve name) (resolve' name) := by
    intro name hname
    refine hres name ?_
    rintro rfl
    exact hfresh hname
  rcases hnamed with rfl | hreplaces
  · rcases hproduction with rfl | rfl
    · exact h.eval tree' hnames
    · exact h.evalFields tree' hnames
  · rw [← Node.eval_input resolve' x] at heval
    exact h.replaces hvalue.kind_ne_spread (Shaped.input x).kind_ne_spread heval htree hreplaces hnames

end Related

/-! ### Names -/

namespace Scope

/-- A name is bound on neither side, or to values that are alike and do not use the new name. -/
inductive Counterparts (value : Node) (x : String) : Option Node → Option Node → Prop where
  | unbound : Counterparts value x none none
  | bound {n n' : Node} : Shaped .value n → x ∉ n.references → Node.Named value x n n' →
      Counterparts value x (some n) (some n')

theorem Counterparts.unbound_or_bound {found found' : Option Node}
    (h : Counterparts value x found found') :
    (found = none ∧ found' = none) ∨ ∃ n n', found = some n ∧ found' = some n' ∧
      Shaped .value n ∧ x ∉ n.references ∧ Node.Named value x n n' := by
  cases h with
  | unbound => exact Or.inl ⟨rfl, rfl⟩
  | bound hn hfresh hnamed => exact Or.inr ⟨_, _, rfl, rfl, hn, hfresh, hnamed⟩

/-- The second scope binds a new name to a value, and all others as the first one does. -/
structure Abstracts (value : Node) (x : String) (s s' : Scope) : Prop where
  shaped : Shaped .value value
  fresh : x ∉ value.references
  /-- The name is not looked up in the environment. -/
  unmarked : ¬ variableMark <+: x.toList
  env : s'.env = s.env
  declared : s'.inputs.get? x = some value
  others : ∀ name, name ≠ x → Counterparts value x (s.inputs.get? name) (s'.inputs.get? name)

variable {s s' : Scope}

namespace Abstracts

/-- What is bound for values that are alike is alike. -/
theorem follow (h : Abstracts value x s s') {n n' : Node} (hn : Shaped .value n)
    (hfresh : x ∉ n.references) (hnamed : Node.Named value x n n') :
    ∃ node node', s.follow n = .ok node ∧ s'.follow n' = .ok node' ∧
      Counterparts value x (some node) (some node') := by
  by_cases hkind : n.kind = .input
  · obtain ⟨target, rfl⟩ := hn.exists_eq_input hkind
    obtain rfl := hnamed.eq_of_leaf
    have htarget : target ≠ x := by
      rintro rfl
      exact hfresh (Node.mem_references_of_text rfl (Or.inl rfl))
    refine ⟨_, _, s.follow_input target, s'.follow_input target, ?_⟩
    rcases (h.others target htarget).unbound_or_bound with
      ⟨hbound, hbound'⟩ | ⟨m, m', hbound, hbound', hm, hfresh', hnamed'⟩
    · rw [hbound, hbound']
      exact .bound hn hfresh hnamed
    · rw [hbound, hbound']
      exact .bound hm hfresh' hnamed'
  · have hkind' : n'.kind ≠ .input := by rwa [hnamed.kind_eq]
    refine ⟨n, n', ?_, ?_, .bound hn hfresh hnamed⟩
    · rw [Scope.follow, if_neg hkind]
    · rw [Scope.follow, if_neg hkind']

/-- Names that are bound to counterparts on both sides. -/
theorem insert (h : Abstracts value x s s') {name : String} {node node' : Node} (hname : name ≠ x)
    (hnode : Counterparts value x (some node) (some node')) :
    Abstracts value x { s with inputs := s.inputs.insert name node }
      { s' with inputs := s'.inputs.insert name node' } where
  shaped := h.shaped
  fresh := h.fresh
  unmarked := h.unmarked
  env := h.env
  declared := by
    show (s'.inputs.insert name node').get? x = some value
    rw [OrderedMap.get?_insert, if_neg hname]
    exact h.declared
  others key hkey := by
    show Counterparts value x ((s.inputs.insert name node).get? key)
      ((s'.inputs.insert name node').get? key)
    rw [OrderedMap.get?_insert, OrderedMap.get?_insert]
    split
    · exact hnode
    · exact h.others key hkey

/-- Assignments that are alike keep the scopes alike. -/
theorem assign (h : Abstracts value x s s') {a a' : Node} (ha : Shaped .assignment a)
    (hfresh : x ∉ a.references) (hnamed : Node.Named value x a a') :
    ∃ t t', s.assign a = .ok t ∧ s'.assign a' = .ok t' ∧ Abstracts value x t t' := by
  cases ha with
  | @assignment n name hn =>
    obtain ⟨n', rfl, hinner⟩ := hnamed.of_assignment
    have hname : name ≠ x := by
      rintro rfl
      refine hfresh (Node.mem_references_of_child (c := .leaf .input (.text name)) ?_ ?_)
      · exact List.mem_cons_self
      · exact Node.mem_references_of_text rfl (Or.inl rfl)
    have hfresh' : x ∉ n.references := by
      intro hx
      refine hfresh (Node.mem_references_of_child (c := .branch .value [n]) ?_ ?_)
      · exact List.mem_cons_of_mem _ List.mem_cons_self
      · exact Node.mem_references_of_child (c := n) List.mem_cons_self hx
    obtain ⟨node, node', hfollow, hfollow', hnode⟩ := h.follow hn hfresh' hinner
    refine ⟨_, _, ?_, ?_, h.insert hname hnode⟩
    · rw [assign_branch, hfollow]
      rfl
    · rw [assign_branch, hfollow']
      rfl

theorem assignAll (h : Abstracts value x s s') {assignments assignments' : List Node}
    (hall : ∀ a ∈ assignments, Shaped .assignment a)
    (hfresh : ∀ a ∈ assignments, x ∉ a.references)
    (hnamed : List.Forall₂ (Node.Named value x) assignments assignments') :
    ∃ t t', s.assignAll assignments = (t, .ok ()) ∧ s'.assignAll assignments' = (t', .ok ()) ∧
      Abstracts value x t t' := by
  induction hnamed generalizing s s' with
  | nil => exact ⟨s, s', rfl, rfl, h⟩
  | @cons a a' rest rest' hfirst _ ih =>
    obtain ⟨t, t', ht, ht', habstracts⟩ :=
      h.assign (hall a List.mem_cons_self) (hfresh a List.mem_cons_self) hfirst
    rw [Scope.assignAll, Scope.assignAll, ht, ht']
    exact ih habstracts (fun b hb => hall b (List.mem_cons_of_mem a hb))
      (fun b hb => hfresh b (List.mem_cons_of_mem a hb))

/-! ### Look-ups -/

/-- The environment gives a name the same text on both sides, or it is bound on neither, or on both. -/
theorem overridden_or_unbound_or_bound (h : Abstracts value x s s') {name : String} (hname : name ≠ x) :
    (∃ text, s.env.override name = some text ∧ s'.env.override name = some text) ∨
      (s.env.override name = none ∧ s'.env.override name = none ∧
        s.inputs.get? name = none ∧ s'.inputs.get? name = none) ∨
      ∃ n n', s.env.override name = none ∧ s'.env.override name = none ∧
        s.inputs.get? name = some n ∧ s'.inputs.get? name = some n' ∧
        Shaped .value n ∧ x ∉ n.references ∧ Node.Named value x n n' := by
  rw [h.env]
  cases hover : s.env.override name with
  | some text => exact Or.inl ⟨text, rfl, rfl⟩
  | none =>
    rcases (h.others name hname).unbound_or_bound with
      ⟨hbound, hbound'⟩ | ⟨n, n', hbound, hbound', hn, hfresh, hnamed⟩
    · exact Or.inr (Or.inl ⟨rfl, rfl, hbound, hbound'⟩)
    · exact Or.inr (Or.inr ⟨n, n', rfl, rfl, hbound, hbound', hn, hfresh, hnamed⟩)

theorem override_eq_none (h : Abstracts value x s s') : s'.env.override x = none :=
  s'.env.override_eq_none h.unmarked

section Unroll

variable {R : (α : Type) → Fueled α → Fueled α → Prop} {fuel fuel' : Nat}

/-- With these limits the names are related, and so are the value and the new name. -/
structure LookUps (R : (α : Type) → Fueled α → Fueled α → Prop) (value : Node) (x : String)
    (s s' : Scope) (fuel fuel' : Nat) : Prop where
  names : ∀ name, name ≠ x → R Value (s.unroll fuel name) (s'.unroll fuel' name)
  declared : R Value (value.eval (s.unroll fuel)) (s'.unroll fuel' x)

theorem not_mem_references (h : Abstracts value x s s') {name : String}
    (hname : name ∈ value.references) : name ≠ x := by
  rintro rfl
  exact h.fresh hname

/-- With one look-up more on both sides the names are still related. -/
theorem unroll_succ (h : Abstracts value x s s') (hR : Simulation R)
    (hthrow : ∀ e, R Value (throw e) (throw e)) (hlook : LookUps R value x s s' fuel fuel')
    {name : String} (hname : name ≠ x) :
    R Value (s.unroll (fuel + 1) name) (s'.unroll (fuel' + 1) name) := by
  rcases h.overridden_or_unbound_or_bound hname with ⟨text, hover, hover'⟩ |
    ⟨hover, hover', hbound, hbound'⟩ | ⟨n, n', hover, hover', hbound, hbound', hn, hfresh, hnamed⟩
  · rw [unroll_of_override hover, unroll_of_override hover']
    exact hR.pure _
  · rw [unroll_of_unbound hover hbound, unroll_of_unbound hover' hbound']
    exact hthrow _
  · rw [unroll_of_bound hover hbound, unroll_of_bound hover' hbound']
    exact hR.named h.shaped hlook.declared (Or.inl rfl) hn hfresh hnamed hlook.names

/-- One look-up more in the second scope, for the new name. -/
theorem lookUps_of_extends (h : Abstracts value x s s')
    (hless : ∀ name, name ≠ x → Extends Value (s.unroll fuel name) (s'.unroll (2 * fuel) name)) :
    LookUps Extends value x s s' fuel (2 * fuel + 1) where
  names name hname := (hless name hname).trans (s'.unroll_extends _ name)
  declared := by
    rw [unroll_of_bound h.override_eq_none h.declared]
    exact extends_simulation.eval value fun name hname => hless name (h.not_mem_references hname)

/-- Twice as many look-ups are enough in the second scope. -/
theorem unroll_extends (h : Abstracts value x s s') (fuel : Nat) {name : String} (hname : name ≠ x) :
    Extends Value (s.unroll fuel name) (s'.unroll (2 * fuel) name) := by
  induction fuel generalizing name with
  | zero =>
    rcases h.overridden_or_unbound_or_bound hname with
      ⟨text, hover, hover'⟩ | ⟨hover, -⟩ | ⟨-, -, hover, -⟩
    · rw [unroll_of_override hover, unroll_of_override hover']
      exact extends_simulation.pure _
    all_goals exact extends_of_unroll_zero hover _
  | succ fuel ih =>
    have hlook := h.lookUps_of_extends fun name hname => ih hname
    exact h.unroll_succ extends_simulation (fun e result h => h) hlook hname

/-- As many look-ups are enough in the first scope, and none is needed for the new name. -/
theorem lookUps_extended (h : Abstracts value x s s') (fuel : Nat) :
    LookUps (fun α y z => Extends α z y) value x s s' fuel fuel := by
  induction fuel with
  | zero =>
    refine ⟨fun name hname => ?_, extends_of_unroll_zero h.override_eq_none _⟩
    rcases h.overridden_or_unbound_or_bound hname with
      ⟨text, hover, hover'⟩ | ⟨-, hover', -⟩ | ⟨-, -, -, hover', -⟩
    · rw [unroll_of_override hover, unroll_of_override hover']
      exact extends_simulation.pure _
    all_goals exact extends_of_unroll_zero hover' _
  | succ fuel ih =>
    refine ⟨fun name hname => ?_, ?_⟩
    · exact h.unroll_succ extends_simulation.flip (fun e result h => h) ih hname
    · rw [unroll_of_bound h.override_eq_none h.declared]
      refine extends_simulation.eval value fun name hname => ?_
      exact (ih.names name (h.not_mem_references hname)).trans (s.unroll_extends fuel name)

/-- An object comes to the same in both scopes, or needs itself in both. -/
theorem evalFields_eq_or (h : Abstracts value x s s') {tree tree' : Node} (htree : Shaped .object tree)
    (hfresh : x ∉ tree.references) (hnamed : Node.Named value x tree tree') :
    tree.evalFields (s.resolve []) = tree'.evalFields (s'.resolve []) ∨
      FoundCycle (tree.evalFields (s.resolve [])) ∧ FoundCycle (tree'.evalFields (s'.resolve [])) := by
  refine (s.findsCyclesExactly_evalFields tree).eq_or_foundCycle
    (s'.findsCyclesExactly_evalFields tree') (fun fuel => ?_) fun fuel => ?_
  · have hlook := h.lookUps_of_extends fun name hname => h.unroll_extends fuel hname
    exact ⟨_, extends_simulation.named h.shaped hlook.declared (Or.inr rfl) htree hfresh hnamed
      hlook.names⟩
  · have hlook := h.lookUps_extended fuel
    exact ⟨_, extends_simulation.flip.named h.shaped hlook.declared (Or.inr rfl) htree hfresh hnamed
      hlook.names⟩

end Unroll

end Abstracts

/-! ### Documents -/

/-- The same environment with one bound name. -/
def declared (s : Scope) (name : String) (value : Node) : Scope := { s with inputs := [(name, value)] }

/-- After the new assignment the scopes are alike. -/
theorem abstracts_declared (s : Scope) (hvalue : Shaped .value value) (hfresh : x ∉ value.references)
    (hmark : ¬ variableMark <+: x.toList) : Abstracts value x s.clear (s.declared x value) where
  shaped := hvalue
  fresh := hfresh
  unmarked := hmark
  env := rfl
  declared := by
    show OrderedMap.get? [(x, value)] x = some value
    rw [OrderedMap.get?, if_pos rfl]
  others name hname := by
    show Counterparts value x none (OrderedMap.get? [(x, value)] name)
    rw [OrderedMap.get?, if_neg hname.symm]
    exact .unbound

/-- The new assignment comes first, so the name is bound to the value itself. -/
theorem enter_declare (s : Scope) (hvalue : Shaped .value value) (assignments : List Node)
    (object : Node) :
    s.enter [.branch .assignBlock (.branch .assignment [.leaf .input (.text x), .branch .value [value]] ::
        assignments), object] =
      (((s.declared x value).assignAll assignments).1,
        ((s.declared x value).assignAll assignments).2.map fun _ => object) := by
  have hfollow : s.clear.follow value = .ok value := by
    by_cases hkind : value.kind = .input
    · obtain ⟨target, rfl⟩ := hvalue.exists_eq_input hkind
      rfl
    · rw [Scope.follow, if_neg hkind]
  have hassign : s.clear.assign (.branch .assignment [.leaf .input (.text x), .branch .value [value]]) =
      .ok (s.declared x value) := by
    rw [assign_branch, hfollow]
    rfl
  rw [enter_block, assignAll, hassign]

/-- The scopes that the two documents are evaluated in are alike, and so are their root objects. -/
theorem exists_abstracts (s : Scope) {config config' : Node} (hconfig : Shaped .config config)
    (hvalue : Shaped .value value)
    (hreplaces : Node.Replaces value (.leaf .input (.text x)) config config')
    (hfresh : x ∉ config.references) (hmark : ¬ variableMark <+: x.toList) :
    ∃ inner inner' object object', s.enter config.children = (inner, .ok object) ∧
      s.enter (config'.declare x value).children = (inner', .ok object') ∧
      Abstracts value x inner inner' ∧ Shaped .object object ∧ x ∉ object.references ∧
      Node.Named value x object object' := by
  have hstart := s.abstracts_declared hvalue (fun hx => hfresh (hreplaces.mem_references_of_old hx)) hmark
  have hchild : ∀ c ∈ config.children, x ∉ c.references :=
    fun c hc hx => hfresh (Node.mem_references_of_child hc hx)
  have hwhole : Node.Named value x config config' := Or.inr hreplaces
  cases hconfig with
  | @config object hobject =>
    obtain ⟨children, rfl, hchildren⟩ := hwhole.of_branch (by decide) (by decide)
    cases hchildren with
    | @cons _ object' _ _ hnamed hrest =>
      cases hrest
      refine ⟨s.clear, s.declared x value, object, object', ?_, s.enter_declare hvalue [] object',
        hstart, hobject, hchild object List.mem_cons_self, hnamed⟩
      show (if object.kind = .object then _ else _) = _
      rw [if_pos hobject.kind_eq_object]
  | @configWithInputs block object hblock hobject =>
    obtain ⟨children, rfl, hchildren⟩ := hwhole.of_branch (by decide) (by decide)
    cases hchildren with
    | cons hblockNamed hrest =>
      cases hrest with
      | @cons _ object' _ _ hnamed hrest =>
        cases hrest
        cases hblock with
        | @inputBlock assignments hall =>
          obtain ⟨assignments', rfl, hassignments⟩ := hblockNamed.of_branch (by decide) (by decide)
          have hblockFresh := hchild (.branch .assignBlock assignments) List.mem_cons_self
          obtain ⟨inner, inner', hinner, hinner', habstracts⟩ := hstart.assignAll hall
            (fun a ha hx => hblockFresh (Node.mem_references_of_child ha hx)) hassignments
          have hfirst := s.enter_block assignments object
          have hsecond := s.enter_declare (x := x) hvalue assignments' object'
          rw [hinner] at hfirst
          rw [hinner'] at hsecond
          exact ⟨inner, inner', object, object', hfirst, hsecond, habstracts, hobject,
            hchild object (List.mem_cons_of_mem _ List.mem_cons_self), hnamed⟩

end Scope

theorem Node.kind_declare (config : Node) (name : String) (value : Node) :
    (config.declare name value).kind = .config := by
  unfold declare
  split <;> rfl

theorem FoundCycle.map {α β : Type} {y : Except EvalError α} (f : α → β) (h : FoundCycle y) :
    FoundCycle (y.map f) := by
  obtain ⟨chain, rfl⟩ := h
  exact ⟨chain, rfl⟩

/-- A value of a pair or an item of an array can be bound to a new name, put first in the input block, and
replaced by that name: the root object comes to the same, with the same error if there is one, or both
documents fail for a cycle. -/
theorem inputs_are_pure_substitution {tokens : List Token} {config config' : Node}
    (hconfig : treeOf tokens = .ok config) (hvalue : Shaped .value value)
    (hreplaces : Node.Replaces value (.leaf .input (.text x)) config config')
    (hfresh : x ∉ config.references) (hmark : ¬ variableMark <+: x.toList) (s : Scope) :
    (s.evalConfig config).1.map (·.fields) =
        (s.evalConfig (config'.declare x value)).1.map (·.fields) ∨
      FoundCycle (s.evalConfig config).1 ∧ FoundCycle (s.evalConfig (config'.declare x value)).1 := by
  obtain ⟨hshaped, -⟩ := Grammar.shaped_and_tokens_of_treeOf hconfig
  obtain ⟨inner, inner', object, object', henter, henter', habstracts, hobject, hfresh, hnamed⟩ :=
    s.exists_abstracts hshaped hvalue hreplaces hfresh hmark
  have hkind := (s.enter_of_shaped hshaped).1
  have hfields : ∀ (inputs : OrderedMap Node) (y : Except EvalError (OrderedMap Value)),
      (y.map (Evaluation.mk inputs)).map (·.fields) = y := by
    intro inputs y
    cases y <;> rfl
  rw [s.evalConfig_of_enter hkind henter, s.evalConfig_of_enter (config'.kind_declare x value) henter']
  rcases habstracts.evalFields_eq_or hobject hfresh hnamed with heq | ⟨hcycle, hcycle'⟩
  · left
    rw [hfields, hfields, heq]
  · exact Or.inr ⟨hcycle.map _, hcycle'.map _⟩

/-- An item of an array that an input is bound to, given a name. A spread takes in the array. -/
theorem item_of_spread_array_named :
    treeOf [.symbol .letWord, .symbol .braceOpen, .input "$l", .symbol .equals, .symbol .bracketOpen,
        .integer 1, .symbol .bracketClose, .symbol .braceClose, .symbol .inWord, .symbol .braceOpen,
        .segment "a", .symbol .equals, .symbol .bracketOpen, .symbol .spread, .input "$l",
        .symbol .bracketClose, .symbol .braceClose] =
      .ok (.branch .config [
        .branch .assignBlock [.branch .assignment [.leaf .input (.text "$l"),
          .branch .value [.branch .array [.leaf .integer (.integer 1)]]]],
        .branch .object [.branch .pair [.branch .path [.leaf .pathSegment (.text "a")],
          .branch .array [.leaf .spread (.text "$l")]]]]) ∧
    ((Scope.new .empty).evalConfig (.branch .config [
        .branch .assignBlock [
          .branch .assignment [.leaf .input (.text "$one"),
            .branch .value [.leaf .integer (.integer 1)]],
          .branch .assignment [.leaf .input (.text "$l"),
            .branch .value [.branch .array [.leaf .input (.text "$one")]]]],
        .branch .object [.branch .pair [.branch .path [.leaf .pathSegment (.text "a")],
          .branch .array [.leaf .spread (.text "$l")]]]])).1.map (·.fields) =
      .ok [("a", .array [.integer 1])] := by
  have htree : treeOf [.symbol .letWord, .symbol .braceOpen, .input "$l", .symbol .equals,
      .symbol .bracketOpen, .integer 1, .symbol .bracketClose, .symbol .braceClose, .symbol .inWord,
      .symbol .braceOpen, .segment "a", .symbol .equals, .symbol .bracketOpen, .symbol .spread,
      .input "$l", .symbol .bracketClose, .symbol .braceClose] = .ok _ := rfl
  have hreplaces : Node.Replaces (.leaf .integer (.integer 1)) (.leaf .input (.text "$one")) _ _ :=
    .inside .config [] [.branch .object [.branch .pair [.branch .path [.leaf .pathSegment (.text "a")],
        .branch .array [.leaf .spread (.text "$l")]]]]
      (.inside .assignBlock [] [] (.inside .assignment [.leaf .input (.text "$l")] []
        (.inside .value [] [] (.item [] []))))
  have hnamed := inputs_are_pure_substitution htree (.integer 1) hreplaces (by decide) (by decide)
    (.new .empty)
  have hfields : ((Scope.new .empty).evalConfig (.branch .config [
      .branch .assignBlock [.branch .assignment [.leaf .input (.text "$l"),
        .branch .value [.branch .array [.leaf .integer (.integer 1)]]]],
      .branch .object [.branch .pair [.branch .path [.leaf .pathSegment (.text "a")],
        .branch .array [.leaf .spread (.text "$l")]]]])).1.map (·.fields) =
      .ok [("a", .array [.integer 1])] := by
    cbv
  refine ⟨htree, ?_⟩
  rcases hnamed with heq | ⟨⟨chain, hcycle⟩, -⟩
  · exact heq.symm.trans hfields
  · have herror := congrArg (Except.map (·.fields)) hcycle
    cases hfields.symm.trans herror

end ConfigLang

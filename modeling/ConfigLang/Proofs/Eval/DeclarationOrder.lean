import ConfigLang.Proofs.Eval.Cycles
import ConfigLang.Proofs.Eval.References
import ConfigLang.Proofs.Eval.Replacement

/-!
# The order of the assignments

An assignment of one name to another binds the first to whatever the second is bound to at that moment, and
to the second itself if it is bound only later. So the table of the bound names depends on the order of the
assignments. What a document comes to does not, if no name is assigned twice and the environment gives no text
to a name that is assigned to another one.

Each table is compared with one that is the same for all orders: the names are bound to the right sides of
their assignments as they stand.

* `Scope.Lists` - the table that is the same for all orders.
* `Scope.StandsFor` - a right side is a name, which is bound to a right side in turn, and so on.
* `Scope.Collapses` - what some assignments have bound stands at the end of such a row of names.
* `Scope.Collapses.unroll_extends`, `Scope.Collapses.unroll_extended` - the names come to the same.
* `declaration_order_does_not_matter` - the result.

Look-ups are counted as they are for cycles (`Scope.unroll`). A row of names costs as many look-ups as it has
names, and there are no more of them than assignments.
-/

namespace ConfigLang

/-! ### Assignments -/

/-- The assignment of a value to a name. -/
def Node.assignment (name : String) (value : Node) : Node :=
  branch .assignment [leaf .input (.text name), branch .value [value]]

theorem Node.assignment_inj {name : String} {value value' : Node}
    (h : assignment name value = assignment name value') : value = value' := by
  have hright := (List.cons.inj (List.cons.inj (congrArg children h)).2).1
  exact (List.cons.inj (congrArg children hright)).1

/-- The name to the left of an assignment. -/
def Node.assignedName (a : Node) : Option String := a.children.head?.bind text?

namespace Scope

variable {s plain : Scope} {assignments made : List Node} {name : String} {n m : Node} {steps fuel : Nat}

/-- The names are bound to the right sides of the assignments as they stand, and the environment gives no
text to a name that is a right side. -/
structure Lists (plain : Scope) (assignments : List Node) : Prop where
  shaped : ∀ a ∈ assignments, Shaped .assignment a
  bound : ∀ name value, plain.inputs.get? name = some value ↔ Node.assignment name value ∈ assignments
  aliases : ∀ name target, Node.assignment name (.leaf .input (.text target)) ∈ assignments →
    plain.env.override target = none

/-- The order of the assignments makes no difference to this table. -/
theorem Lists.perm (h : plain.Lists assignments) {assignments' : List Node}
    (hperm : assignments.Perm assignments') : plain.Lists assignments' where
  shaped a ha := h.shaped a (hperm.mem_iff.2 ha)
  bound name value := (h.bound name value).trans hperm.mem_iff
  aliases name target ha := h.aliases name target (hperm.mem_iff.2 ha)

/-- There is such a table if no name is assigned twice. -/
theorem exists_lists (hall : ∀ a ∈ assignments, Shaped .assignment a)
    (hnames : (assignments.map Node.assignedName).Nodup) :
    ∃ inputs : OrderedMap Node, ∀ name value,
      inputs.get? name = some value ↔ Node.assignment name value ∈ assignments := by
  induction assignments with
  | nil => exact ⟨[], fun name value => by simp⟩
  | cons a assignments ih =>
    obtain ⟨hnew, hnames⟩ := List.nodup_cons.1 hnames
    obtain ⟨inputs, hinputs⟩ := ih (fun b hb => hall b (List.mem_cons_of_mem a hb)) hnames
    cases hall a List.mem_cons_self with
    | @assignment first left hfirst =>
      refine ⟨(left, first) :: inputs, fun name value => ?_⟩
      rw [OrderedMap.get?, List.mem_cons]
      by_cases hname : left = name
      · subst hname
        rw [if_pos rfl]
        constructor
        · intro hvalue
          rw [Option.some.inj hvalue]
          exact Or.inl rfl
        · rintro (hfirst | hmem)
          · rw [Node.assignment_inj hfirst]
          · exact absurd (List.mem_map_of_mem hmem) hnew
      · rw [if_neg hname, hinputs name value]
        refine ⟨Or.inr, fun hmem => hmem.resolve_left fun hfirst => ?_⟩
        exact hname (Option.some.inj (congrArg Node.assignedName hfirst)).symm

/-! ### Rows of names -/

/-- A node stands for itself, and a name for what the node stands for that it is bound to. -/
inductive StandsFor (plain : Scope) : Nat → Node → Node → Prop where
  | self (n : Node) : StandsFor plain 0 n n
  | through {name : String} {n m : Node} {steps : Nat} : plain.env.override name = none →
      plain.inputs.get? name = some n → StandsFor plain steps n m →
      StandsFor plain (steps + 1) (.leaf .input (.text name)) m

/-- Each step costs a look-up. -/
theorem StandsFor.eval_eq (h : plain.StandsFor steps n m) (fuel : Nat) :
    n.eval (plain.unroll (fuel + steps)) = m.eval (plain.unroll fuel) := by
  induction h with
  | self n => rfl
  | through hover hbound _ ih =>
    rw [Node.eval_input, ← Nat.add_assoc, unroll_of_bound hover hbound]
    exact ih

/-- What a node comes to with some look-ups, the node that it stands for comes to as well. -/
theorem StandsFor.eval_extends (h : plain.StandsFor steps n m)
    (hless : ∀ less ≤ fuel, ∀ name, Extends Value (plain.unroll less name) (s.unroll less name)) :
    Extends Value (n.eval (plain.unroll fuel)) (m.eval (s.unroll fuel)) := by
  induction h generalizing fuel with
  | self n => exact extends_simulation.eval n fun name _ => hless fuel (Nat.le_refl _) name
  | @through name n m steps hover hbound _ ih =>
    rw [Node.eval_input]
    cases fuel with
    | zero => exact extends_of_unroll_zero hover _
    | succ fuel =>
      rw [unroll_of_bound hover hbound]
      have hinner := ih fun less hle => hless less (Nat.le_succ_of_le hle)
      exact hinner.trans (extends_simulation.eval m fun name _ => s.unroll_extends fuel name)

/-! ### What assignments bind -/

/-- After some assignments their names are bound, each to what the right side of its assignment stands for. -/
structure Collapses (s plain : Scope) (made : List Node) : Prop where
  env : s.env = plain.env
  bound : ∀ name m, s.inputs.get? name = some m → ∃ n steps, plain.inputs.get? name = some n ∧
    steps ≤ made.length ∧ plain.StandsFor steps n m
  unbound : ∀ name value, s.inputs.get? name = none → Node.assignment name value ∉ made

namespace Collapses

/-- What is bound for a right side is what it stands for. -/
theorem follow (h : s.Collapses plain made) (hlists : plain.Lists assignments) {value : Node}
    (hvalue : Shaped .value value) (hmem : Node.assignment name value ∈ assignments) :
    ∃ node steps, s.follow value = .ok node ∧ steps ≤ made.length + 1 ∧
      plain.StandsFor steps value node := by
  by_cases hkind : value.kind = .input
  · obtain ⟨target, rfl⟩ := hvalue.exists_eq_input hkind
    rw [follow_input]
    cases hbound : s.inputs.get? target with
    | none => exact ⟨_, 0, rfl, Nat.zero_le _, .self _⟩
    | some m =>
      obtain ⟨n, steps, hplain, hle, hstands⟩ := h.bound target m hbound
      exact ⟨m, steps + 1, rfl, Nat.succ_le_succ hle,
        .through (hlists.aliases name target hmem) hplain hstands⟩
  · exact ⟨value, 0, by rw [Scope.follow, if_neg hkind], Nat.zero_le _, .self value⟩

theorem assign (h : s.Collapses plain made) (hlists : plain.Lists assignments) {a : Node}
    (ha : a ∈ assignments) : ∃ t, s.assign a = .ok t ∧ t.Collapses plain (made ++ [a]) := by
  cases hlists.shaped a ha with
  | @assignment value left hvalue =>
    obtain ⟨node, steps, hfollow, hle, hstands⟩ := h.follow hlists hvalue ha
    rw [assign_branch, hfollow]
    refine ⟨_, rfl, h.env, fun name m hbound => ?_, fun name other hunbound => ?_⟩
    · rw [OrderedMap.get?_insert] at hbound
      rw [List.length_append, List.length_singleton]
      split at hbound
      next hname =>
        subst hname
        obtain rfl := Option.some.inj hbound
        exact ⟨value, steps, (hlists.bound _ value).2 ha, hle, hstands⟩
      · obtain ⟨n, steps, hplain, hle, hstands⟩ := h.bound name m hbound
        exact ⟨n, steps, hplain, Nat.le_succ_of_le hle, hstands⟩
    · rw [OrderedMap.get?_insert] at hunbound
      split at hunbound
      · cases hunbound
      next hname =>
        intro hmem
        rcases List.mem_append.1 hmem with hmem | hmem
        · exact h.unbound name other hunbound hmem
        · have hsame := congrArg Node.assignedName (List.mem_singleton.1 hmem)
          exact hname (Option.some.inj hsame).symm

theorem assignAll (h : s.Collapses plain made) (hlists : plain.Lists assignments) {rest : List Node}
    (hrest : ∀ a ∈ rest, a ∈ assignments) :
    ∃ t, s.assignAll rest = (t, .ok ()) ∧ t.Collapses plain (made ++ rest) := by
  induction rest generalizing s made with
  | nil => exact ⟨s, rfl, by rwa [List.append_nil]⟩
  | cons a rest ih =>
    obtain ⟨next, hnext, hcollapses⟩ := h.assign hlists (hrest a List.mem_cons_self)
    rw [Scope.assignAll, hnext, List.append_cons]
    exact ih hcollapses fun b hb => hrest b (List.mem_cons_of_mem a hb)

/-- The environment gives a name the same text on both sides, or it is bound on neither, or on both. -/
theorem overridden_or_unbound_or_bound (h : s.Collapses plain assignments)
    (hlists : plain.Lists assignments) (name : String) :
    (∃ text, s.env.override name = some text ∧ plain.env.override name = some text) ∨
      (s.env.override name = none ∧ plain.env.override name = none ∧
        s.inputs.get? name = none ∧ plain.inputs.get? name = none) ∨
      ∃ n m steps, s.env.override name = none ∧ plain.env.override name = none ∧
        s.inputs.get? name = some m ∧ plain.inputs.get? name = some n ∧
        steps ≤ assignments.length ∧ plain.StandsFor steps n m := by
  rw [h.env]
  cases hover : plain.env.override name with
  | some text => exact Or.inl ⟨text, rfl, rfl⟩
  | none =>
    cases hbound : s.inputs.get? name with
    | none =>
      have hplain : plain.inputs.get? name = none :=
        Option.eq_none_iff_forall_ne_some.2 fun value hvalue =>
          h.unbound name value hbound ((hlists.bound name value).1 hvalue)
      exact Or.inr (Or.inl ⟨rfl, rfl, rfl, hplain⟩)
    | some m =>
      obtain ⟨n, steps, hplain, hle, hstands⟩ := h.bound name m hbound
      exact Or.inr (Or.inr ⟨n, m, steps, rfl, rfl, rfl, hplain, hle, hstands⟩)

/-! ### Look-ups -/

/-- A look-up is worth at most one for each assignment and one more. -/
theorem unroll_extends (h : s.Collapses plain assignments) (hlists : plain.Lists assignments)
    (fuel : Nat) (name : String) : Extends Value (s.unroll fuel name)
      (plain.unroll (fuel * (assignments.length + 1)) name) := by
  induction fuel generalizing name with
  | zero =>
    rcases h.overridden_or_unbound_or_bound hlists name with
      ⟨text, hover, hover'⟩ | ⟨hover, -⟩ | ⟨-, -, -, hover, -⟩
    · rw [unroll_of_override hover, unroll_of_override hover']
      exact extends_simulation.pure _
    all_goals exact extends_of_unroll_zero hover _
  | succ fuel ih =>
    rcases h.overridden_or_unbound_or_bound hlists name with ⟨text, hover, hover'⟩ |
      ⟨hover, hover', hbound, hbound'⟩ | ⟨n, m, steps, hover, hover', hbound, hbound', hle, hstands⟩
    · rw [unroll_of_override hover, unroll_of_override hover']
      exact extends_simulation.pure _
    · rw [unroll_of_unbound hover hbound, Nat.succ_mul, ← Nat.add_assoc, unroll_of_unbound hover' hbound']
      exact fun result h => h
    · -- One look-up for the name, one for each step of its row, and the others are left for the node.
      have hfuel : (fuel + 1) * (assignments.length + 1) =
          fuel * (assignments.length + 1) + (assignments.length - steps) + steps + 1 := by
        rw [Nat.succ_mul]
        omega
      rw [unroll_of_bound hover hbound, hfuel, unroll_of_bound hover' hbound', hstands.eval_eq]
      refine extends_simulation.eval m fun inner _ => (ih inner).trans ?_
      exact plain.unroll_extends_add _ _ inner

/-- As many look-ups are enough in the other direction. -/
theorem unroll_extended (h : s.Collapses plain assignments) (hlists : plain.Lists assignments)
    (fuel : Nat) (name : String) : Extends Value (plain.unroll fuel name) (s.unroll fuel name) := by
  induction fuel using Nat.strongRecOn generalizing name with
  | _ fuel ih =>
    rcases h.overridden_or_unbound_or_bound hlists name with ⟨text, hover, hover'⟩ |
      ⟨hover, hover', hbound, hbound'⟩ | ⟨n, m, steps, hover, hover', hbound, hbound', hle, hstands⟩
    · rw [unroll_of_override hover, unroll_of_override hover']
      exact extends_simulation.pure _
    · cases fuel with
      | zero => exact extends_of_unroll_zero hover' _
      | succ fuel =>
        rw [unroll_of_unbound hover hbound, unroll_of_unbound hover' hbound']
        exact fun result h => h
    · cases fuel with
      | zero => exact extends_of_unroll_zero hover' _
      | succ fuel =>
        rw [unroll_of_bound hover hbound, unroll_of_bound hover' hbound']
        exact hstands.eval_extends fun less hless inner => ih less (Nat.lt_succ_of_le hless) inner

/-- An object comes to the same in both scopes, or needs itself in both. -/
theorem evalFields_eq_or (h : s.Collapses plain assignments) (hlists : plain.Lists assignments)
    (object : Node) :
    object.evalFields (s.resolve []) = object.evalFields (plain.resolve []) ∨
      FoundCycle (object.evalFields (s.resolve [])) ∧
        FoundCycle (object.evalFields (plain.resolve [])) := by
  refine (s.findsCyclesExactly_evalFields object).eq_or_foundCycle
    (plain.findsCyclesExactly_evalFields object) (fun fuel => ?_) fun fuel => ?_
  · exact ⟨_, extends_simulation.evalFields object fun name _ => h.unroll_extends hlists fuel name⟩
  · exact ⟨_, extends_simulation.evalFields object fun name _ => h.unroll_extended hlists fuel name⟩

end Collapses

/-! ### Documents -/

/-- A document comes to what its root object comes to with the right sides as they stand, or both fail for a
cycle. -/
theorem evalConfig_eq_or (henv : s.env = plain.env) (hlists : plain.Lists assignments)
    (object : Node) :
    let fields := (s.evalConfig (.branch .config [.branch .assignBlock assignments, object])).1.map
      (·.fields)
    fields = object.evalFields (plain.resolve []) ∨
      FoundCycle fields ∧ FoundCycle (object.evalFields (plain.resolve [])) := by
  have hclear : s.clear.Collapses plain [] :=
    ⟨henv, fun name m hbound => (nomatch hbound), fun name value _ => List.not_mem_nil⟩
  obtain ⟨t, ht, hcollapses⟩ := hclear.assignAll hlists fun a ha => ha
  have henter : s.enter [.branch .assignBlock assignments, object] = (t, .ok object) := by
    rw [enter_block, ht]
    rfl
  have hfields : (s.evalConfig (.branch .config [.branch .assignBlock assignments, object])).1.map
      (·.fields) = object.evalFields (t.resolve []) := by
    rw [s.evalConfig_of_enter rfl henter]
    cases object.evalFields (t.resolve []) <;> rfl
  rw [hfields]
  exact hcollapses.evalFields_eq_or hlists object

end Scope

/-- Computations that compare to the same third one compare to each other. -/
theorem eq_or_foundCycle_of {α : Type} {x y z : Except EvalError α}
    (hx : x = z ∨ FoundCycle x ∧ FoundCycle z) (hy : y = z ∨ FoundCycle y ∧ FoundCycle z) :
    x = y ∨ FoundCycle x ∧ FoundCycle y := by
  rcases hx with rfl | ⟨hx, hz⟩
  · rcases hy with rfl | ⟨hy, hx⟩
    · exact Or.inl rfl
    · exact Or.inr ⟨hx, hy⟩
  · rcases hy with rfl | ⟨hy, -⟩
    · exact Or.inr ⟨hx, hz⟩
    · exact Or.inr ⟨hx, hy⟩

/-- The assignments of a parsed document can be put in any order if they assign to distinct names and if the
environment gives no text to a name that is assigned to another one: the root object comes to the same, with
the same error if there is one, or both documents fail for a cycle. -/
theorem declaration_order_does_not_matter {tokens : List Token} {assignments assignments' : List Node}
    {object : Node}
    (hconfig : treeOf tokens = .ok (.branch .config [.branch .assignBlock assignments, object]))
    (hnames : (assignments.map Node.assignedName).Nodup) (s : Scope)
    (haliases : ∀ name target, Node.assignment name (.leaf .input (.text target)) ∈ assignments →
      ¬ s.env.Overrides target)
    (hperm : assignments.Perm assignments') :
    let fields (block : List Node) :=
      (s.evalConfig (.branch .config [.branch .assignBlock block, object])).1.map (·.fields)
    fields assignments = fields assignments' ∨
      FoundCycle (fields assignments) ∧ FoundCycle (fields assignments') := by
  have hall : ∀ a ∈ assignments, Shaped .assignment a := by
    cases (Grammar.shaped_and_tokens_of_treeOf hconfig).1 with
    | configWithInputs hblock _ =>
      cases hblock with
      | inputBlock hall => exact hall
  obtain ⟨inputs, hinputs⟩ := Scope.exists_lists hall hnames
  have hlists : (Scope.mk s.env inputs).Lists assignments :=
    ⟨hall, hinputs, fun name target ha => Environment.override_eq_none_iff.2 (haliases name target ha)⟩
  have henv : s.env = (Scope.mk s.env inputs).env := rfl
  exact eq_or_foundCycle_of (Scope.evalConfig_eq_or henv hlists object)
    (Scope.evalConfig_eq_or henv (hlists.perm hperm) object)

/-- A row of names, first with each name in front of the one that it is assigned, and then behind it. The
environment gives a text to another name that is assigned a value. -/
theorem row_of_names_in_both_orders :
    let env : Environment := fun var => if var = "X" then some "text" else none
    let number := Node.assignment "$a" (.leaf .integer (.integer 1))
    let second := Node.assignment "$b" (.leaf .input (.text "$a"))
    let third := Node.assignment "$c" (.leaf .input (.text "$b"))
    let other := Node.assignment "$env_X" (.branch .null [])
    let object := Node.branch .object [
      .branch .pair [.branch .path [.leaf .pathSegment (.text "k")],
        .branch .array [.leaf .input (.text "$c"), .leaf .input (.text "$env_X")]]]
    treeOf [.symbol .letWord, .symbol .braceOpen, .input "$c", .symbol .equals, .input "$b", .input "$b",
        .symbol .equals, .input "$a", .input "$a", .symbol .equals, .integer 1, .input "$env_X",
        .symbol .equals, .symbol .nullWord, .symbol .braceClose, .symbol .inWord, .symbol .braceOpen,
        .segment "k", .symbol .equals, .symbol .bracketOpen, .input "$c", .input "$env_X",
        .symbol .bracketClose, .symbol .braceClose] =
      .ok (.branch .config [.branch .assignBlock [third, second, number, other], object]) ∧
    ((Scope.new env).evalConfig
      (.branch .config [.branch .assignBlock [other, number, second, third], object])).1.map (·.fields) =
      .ok [("k", .array [.integer 1, .string "text"])] := by
  intro env number second third other object
  have htree : treeOf [.symbol .letWord, .symbol .braceOpen, .input "$c", .symbol .equals, .input "$b",
      .input "$b", .symbol .equals, .input "$a", .input "$a", .symbol .equals, .integer 1,
      .input "$env_X", .symbol .equals, .symbol .nullWord, .symbol .braceClose, .symbol .inWord,
      .symbol .braceOpen, .segment "k", .symbol .equals, .symbol .bracketOpen, .input "$c",
      .input "$env_X", .symbol .bracketClose, .symbol .braceClose] =
      .ok (.branch .config [.branch .assignBlock [third, second, number, other], object]) := rfl
  have hnames : ([third, second, number, other].map Node.assignedName).Nodup := by decide
  have hperm : [third, second, number, other].Perm [other, number, second, third] :=
    List.reverse_perm [other, number, second, third]
  have haliases : ∀ name target,
      Node.assignment name (.leaf .input (.text target)) ∈ [third, second, number, other] →
      ¬ (Scope.new env).env.Overrides target := by
    intro name target hmem
    have hcases : name = "$c" ∧ target = "$b" ∨ name = "$b" ∧ target = "$a" := by
      simpa [third, second, number, other, Node.assignment, Node.branch, Node.leaf] using hmem
    rcases hcases with ⟨-, rfl⟩ | ⟨-, rfl⟩ <;> exact Environment.override_eq_none_iff.1 rfl
  have hfields : ((Scope.new env).evalConfig
      (.branch .config [.branch .assignBlock [third, second, number, other], object])).1.map (·.fields) =
      .ok [("k", .array [.integer 1, .string "text"])] := by
    cbv
  refine ⟨htree, ?_⟩
  rcases declaration_order_does_not_matter htree hnames (.new env) haliases hperm with
    heq | ⟨⟨chain, hcycle⟩, -⟩
  · exact heq.symm.trans hfields
  · cases hfields.symm.trans hcycle

end ConfigLang

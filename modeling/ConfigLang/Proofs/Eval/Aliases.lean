import ConfigLang.Proofs.Eval.DeclarationOrder
import ConfigLang.Proofs.Eval.Entries

/-!
# Names that are assigned to names

`$b = $a` binds `$b` to what `$a` is bound to at that moment, so that later assignments of `$a` make no
difference to it. If `$a` is not bound yet, `$b` is bound to the reference itself and follows `$a` wherever that
leads in the end.

* `Scope.exists_insert_of_assign` - what one assignment writes.
* `Scope.exists_merge_of_assignAll` - what some of them write, one after the other.
* `Scope.bound_of_last_assignment` - what a name is bound to comes from its last assignment.
* `Scope.resolve_eq_ok_iff` - a name has the value of the node that it is bound to.
* `aliases_are_snapshots_or_links` - the result.

The node that a name is bound to is evaluated with the name on the chain, and here it is compared with the same
node evaluated on its own. The look-ups are counted as they are for cycles (`Scope.unroll`), where there is no
chain.
-/

namespace ConfigLang

/-- The assignments of a well-shaped document are well-shaped. -/
theorem Shaped.assignments {config : Node} (h : Shaped .config config) :
    ∀ a ∈ config.assignments, Shaped .assignment a := by
  cases h with
  | config hobject => exact fun a ha => absurd ha List.not_mem_nil
  | configWithInputs hblock hobject =>
    cases hblock with
    | inputBlock hall => exact hall

/-- A well-shaped assignment gives a value to a name, and a value that is an input is a name as well. -/
theorem Shaped.exists_eq_assignment {a : Node} (h : Shaped .assignment a) :
    ∃ name value, a = Node.assignment name value ∧
      (value.kind = .input → ∃ target, value = .leaf .input (.text target)) := by
  cases h with
  | @assignment value name hvalue => exact ⟨name, value, rfl, hvalue.exists_eq_input⟩

namespace Scope

variable {s t : Scope} {assignments before after : List Node} {name : String} {node : Node}

/-! ### Assignments -/

/-- An assignment writes the name to its left. -/
theorem exists_insert_of_assign {a : Node} (h : s.assign a = .ok t) :
    ∃ name node, a.assignedName = some name ∧ t.inputs = s.inputs.insert name node := by
  unfold assign at h
  split at h
  next left right hchildren =>
    obtain ⟨name, hname, h⟩ := exists_of_bind_eq_ok h
    obtain ⟨value, -, h⟩ := exists_of_bind_eq_ok h
    obtain ⟨node, -, h⟩ := exists_of_bind_eq_ok h
    obtain rfl := Except.ok.inj h
    refine ⟨name, node, ?_, rfl⟩
    rw [Node.assignedName, hchildren]
    exact Node.text?_of_name hname
  · cases h

theorem assignAll_cons_eq_ok {a : Node} (h : s.assignAll (a :: assignments) = (t, .ok ())) :
    ∃ next, s.assign a = .ok next ∧ next.assignAll assignments = (t, .ok ()) := by
  rw [assignAll] at h
  cases hassign : s.assign a with
  | error e =>
    rw [hassign] at h
    cases (Prod.mk.inj h).2
  | ok next =>
    rw [hassign] at h
    exact ⟨next, rfl, h⟩

theorem assignAll_append_eq_ok (h : s.assignAll (before ++ after) = (t, .ok ())) :
    ∃ middle, s.assignAll before = (middle, .ok ()) ∧ middle.assignAll after = (t, .ok ()) := by
  induction before generalizing s with
  | nil => exact ⟨s, rfl, h⟩
  | cons a before ih =>
    obtain ⟨next, hassign, h⟩ := assignAll_cons_eq_ok h
    obtain ⟨middle, hmiddle, hafter⟩ := ih h
    refine ⟨middle, ?_, hafter⟩
    rw [assignAll, hassign]
    exact hmiddle

/-- Some assignments write their names one after the other. -/
theorem exists_merge_of_assignAll (h : s.assignAll assignments = (t, .ok ())) :
    ∃ entries : OrderedMap Node, entries.keys = assignments.filterMap Node.assignedName ∧
      t.inputs = s.inputs.merge entries := by
  induction assignments generalizing s with
  | nil =>
    obtain rfl := (Prod.mk.inj h).1
    exact ⟨[], rfl, rfl⟩
  | cons a assignments ih =>
    obtain ⟨next, hassign, h⟩ := assignAll_cons_eq_ok h
    obtain ⟨name, node, hname, hnext⟩ := exists_insert_of_assign hassign
    obtain ⟨entries, hkeys, ht⟩ := ih h
    refine ⟨(name, node) :: entries, ?_, ?_⟩
    · rw [List.filterMap_cons_some hname, ← hkeys]
      rfl
    · rw [ht, hnext, OrderedMap.merge_cons]

/-- What a name is bound to in the end is what its last assignment binds it to. -/
theorem bound_of_last_assignment {value : Node}
    (h : s.assignAll (before ++ Node.assignment name value :: after) = (t, .ok ()))
    (hlast : name ∉ after.filterMap Node.assignedName) :
    ∃ middle node, s.assignAll before = (middle, .ok ()) ∧ middle.follow value = .ok node ∧
      t.inputs.get? name = some node := by
  obtain ⟨middle, hbefore, h⟩ := assignAll_append_eq_ok h
  obtain ⟨next, hassign, hafter⟩ := assignAll_cons_eq_ok h
  rw [Node.assignment, assign_branch] at hassign
  obtain ⟨node, hnode, hnext⟩ := exists_of_bind_eq_ok hassign
  refine ⟨middle, node, hbefore, hnode, ?_⟩
  obtain ⟨entries, hkeys, ht⟩ := exists_merge_of_assignAll hafter
  rw [← hkeys] at hlast
  rw [ht, OrderedMap.get?_merge_of_not_mem hlast, ← Except.ok.inj hnext, OrderedMap.get?_insert, if_pos rfl]

/-- Assignments that start without bound names bind just their names, in the order of their first
assignments. -/
theorem keys_of_assignAll {env : Environment} (h : (Scope.new env).assignAll assignments = (t, .ok ())) :
    t.inputs.keys = (assignments.filterMap Node.assignedName).eraseDups ∧ t.inputs.keys.Nodup := by
  obtain ⟨entries, hkeys, ht⟩ := exists_merge_of_assignAll h
  have hnone : (Scope.new env).inputs.keys = ([] : List String).eraseDups := rfl
  have hnodup : (Scope.new env).inputs.keys.Nodup := List.nodup_nil
  rw [ht]
  refine ⟨?_, OrderedMap.nodup_keys_merge hnodup entries⟩
  rw [OrderedMap.keys_merge_eq_eraseDups hnone, hkeys, List.nil_append]

theorem get?_isSome_iff_assigned {env : Environment} (h : (Scope.new env).assignAll assignments = (t, .ok ()))
    (name : String) : (t.inputs.get? name).isSome ↔ name ∈ assignments.filterMap Node.assignedName := by
  rw [OrderedMap.get?_isSome_iff, (keys_of_assignAll h).1, List.mem_eraseDups]

/-- The scope of a parsed document is where all of its assignments lead. -/
theorem assignAll_of_enter {env : Environment} {config root : Node}
    (henter : (Scope.new env).enter config.children = (s, .ok root)) :
    (Scope.new env).assignAll config.assignments = (s, .ok ()) := by
  obtain ⟨outcome, hscope, herror⟩ := (Scope.new env).exists_enter_eq config
  obtain ⟨hs, rfl⟩ := Prod.mk.inj (henter.symm.trans hscope)
  refine Prod.ext hs.symm ?_
  cases hall : ((Scope.new env).assignAll config.assignments).2 with
  | ok => rfl
  | error e => cases herror e hall

/-! ### Values -/

/-- A name that the environment has no text for has the value of the node that it is bound to. -/
theorem resolve_eq_ok_iff (hover : s.env.override name = none) (hbound : s.inputs.get? name = some node)
    {v : Value} : s.resolve [] name = .ok v ↔ node.eval (s.resolve []) = .ok v := by
  constructor
  · intro h
    rcases s.suffices_unroll name with ⟨chain, hcycle⟩ | hfuel
    · cases h.symm.trans hcycle
    · -- The first look-up is the one of the name, and the rest is left for the node.
      rw [h, unroll_of_bound hover hbound] at hfuel
      exact bounds_simulation.eval node (fun inner _ => s.bounds_unroll _ inner) _ hfuel
  · intro h
    rcases suffices_simulation.eval node fun inner _ => s.suffices_unroll inner with
      ⟨chain, hcycle⟩ | hfuel
    · cases h.symm.trans hcycle
    · rw [h, ← unroll_of_bound hover hbound] at hfuel
      exact s.bounds_unroll _ name _ hfuel

end Scope

/-- The names of a parsed document are those that it assigns, once each and in the order of their first
assignments, and the last assignment of a name counts. What is no name is bound as it stands. For a name, what
matters is whether that one is assigned before. If it is, it is taken for what it is bound to there, whatever
comes later: the two values are the same, where there are any. If it is not, both names have the same value.
The environment must have no text for the name that is assigned; for the other one it may. -/
theorem aliases_are_snapshots_or_links {tokens : List Token} {config : Node}
    (hconfig : treeOf tokens = .ok config) (env : Environment) :
    ∃ s root, (Scope.new env).enter config.children = (s, .ok root) ∧
      s.inputs.keys = (config.assignments.filterMap Node.assignedName).eraseDups ∧ s.inputs.keys.Nodup ∧
      (∀ a ∈ config.assignments, ∃ y value, a = Node.assignment y value ∧
        (value.kind = .input → ∃ x, value = .leaf .input (.text x))) ∧
      ∀ before y value after, config.assignments = before ++ Node.assignment y value :: after →
        y ∉ after.filterMap Node.assignedName →
        (value.kind ≠ .input → s.inputs.get? y = some value) ∧
        ∀ x, value = .leaf .input (.text x) → env.override y = none →
          (x ∈ before.filterMap Node.assignedName →
            ∃ node, ((Scope.new env).assignAll before).1.inputs.get? x = some node ∧
              ∀ v, s.resolve [] y = .ok v ↔ node.eval (s.resolve []) = .ok v) ∧
          (x ∉ before.filterMap Node.assignedName →
            ∀ v, s.resolve [] y = .ok v ↔ s.resolve [] x = .ok v) := by
  obtain ⟨s, root, henter, henv, -⟩ := exists_enter_of_treeOf env hconfig
  have hassign := Scope.assignAll_of_enter henter
  obtain ⟨hkeys, hnodup⟩ := Scope.keys_of_assignAll hassign
  have hall := (Grammar.shaped_and_tokens_of_treeOf hconfig).1.assignments
  refine ⟨s, root, henter, hkeys, hnodup, fun a ha => (hall a ha).exists_eq_assignment, ?_⟩
  intro before y value after hsplit hlast
  rw [hsplit] at hassign
  obtain ⟨middle, node, hbefore, hnode, hbound⟩ := Scope.bound_of_last_assignment hassign hlast
  have hassigned := Scope.get?_isSome_iff_assigned hbefore
  refine ⟨fun hkind => ?_, ?_⟩
  · rw [Scope.follow, if_neg hkind] at hnode
    rw [hbound, Except.ok.inj hnode]
  · rintro x rfl hover
    rw [Scope.follow_input] at hnode
    rw [← henv] at hover
    refine ⟨fun hx => ?_, fun hx v => ?_⟩
    · obtain ⟨earlier, hearlier⟩ := Option.isSome_iff_exists.1 ((hassigned x).2 hx)
      rw [hearlier, Option.getD_some] at hnode
      obtain rfl := Except.ok.inj hnode
      exact ⟨earlier, by rw [hbefore, hearlier], fun v => Scope.resolve_eq_ok_iff hover hbound⟩
    · have hunbound : middle.inputs.get? x = none := by
        rw [← Option.not_isSome_iff_eq_none, hassigned x]
        exact hx
      rw [hunbound, Option.getD_none] at hnode
      obtain rfl := Except.ok.inj hnode
      rw [Scope.resolve_eq_ok_iff hover hbound, Node.eval_input]

/-- One name is assigned before it is taken and again behind that, and the environment has a text for it; the
other one is assigned later. -/
theorem alias_of_a_name_that_is_assigned_again :
    let env : Environment := fun var => if var = "X" then some "text" else none
    let first := Node.assignment "$env_X" (.leaf .integer (.integer 1))
    let copy := Node.assignment "$y" (.leaf .input (.text "$env_X"))
    let link := Node.assignment "$z" (.leaf .input (.text "$w"))
    let again := Node.assignment "$env_X" (.leaf .integer (.integer 2))
    let target := Node.assignment "$w" (.leaf .input (.text "$y"))
    let object := Node.branch .object []
    treeOf [.symbol .letWord, .symbol .braceOpen, .input "$env_X", .symbol .equals, .integer 1, .input "$y",
        .symbol .equals, .input "$env_X", .input "$z", .symbol .equals, .input "$w", .input "$env_X",
        .symbol .equals, .integer 2, .input "$w", .symbol .equals, .input "$y", .symbol .braceClose,
        .symbol .inWord, .symbol .braceOpen, .symbol .braceClose] =
      .ok (.branch .config [.branch .assignBlock [first, copy, link, again, target], object]) ∧
    ∃ s root, (Scope.new env).enter [.branch .assignBlock [first, copy, link, again, target], object] =
        (s, .ok root) ∧ s.inputs.keys = ["$env_X", "$y", "$z", "$w"] ∧
      s.inputs.get? "$env_X" = some (.leaf .integer (.integer 2)) ∧ env.override "$y" = none ∧
      s.resolve [] "$y" = .ok (.integer 1) ∧ env.override "$z" = none ∧
      ∀ v, s.resolve [] "$z" = .ok v ↔ s.resolve [] "$w" = .ok v := by
  intro env first copy link again target object
  have htree : treeOf [.symbol .letWord, .symbol .braceOpen, .input "$env_X", .symbol .equals, .integer 1,
      .input "$y", .symbol .equals, .input "$env_X", .input "$z", .symbol .equals, .input "$w",
      .input "$env_X", .symbol .equals, .integer 2, .input "$w", .symbol .equals, .input "$y",
      .symbol .braceClose, .symbol .inWord, .symbol .braceOpen, .symbol .braceClose] =
      .ok (.branch .config [.branch .assignBlock [first, copy, link, again, target], object]) := rfl
  obtain ⟨s, root, henter, hkeys, -, -, hnames⟩ := aliases_are_snapshots_or_links htree env
  have hagain := (hnames [first, copy, link] "$env_X" _ [target] rfl (by decide)).1 (by decide)
  have hcopy := (hnames [first] "$y" _ [link, again, target] rfl (by decide)).2 _ rfl rfl
  have hlink := (hnames [first, copy] "$z" _ [again, target] rfl (by decide)).2 _ rfl rfl
  obtain ⟨node, hnode, hvalue⟩ := hcopy.1 (by decide)
  obtain rfl : Node.leaf .integer (.integer 1) = node := Option.some.inj hnode
  exact ⟨htree, s, root, henter, hkeys, hagain, rfl, (hvalue _).2 rfl, rfl, hlink.2 (by decide)⟩

end ConfigLang

import ConfigLang.Proofs.Eval.Cycles
import ConfigLang.Proofs.Eval.Entries
import ConfigLang.Proofs.Value.Tree

/-!
# Spreading is inlining

A spread brings in what an array or an object comes to that an input is bound to. Instead of the spread the
items or entries may be written themselves.

* `Scope.sameOutcome_resolve` - a name comes to what its node comes to.
* `Node.IsFlat` - the entries that write to keys of the object itself, not below them.
* `Node.evalEntries_merge` - such entries write the same whether the fields in front are there or are merged
  in later.
* `spreading_is_inlining` - the result.

The node of a name is evaluated with the name on the chain, and the items written out are not. That makes no
difference to the outcome: if the name comes up again, then both fail, only that the second one finds the
cycle one round later.
-/

namespace ConfigLang

/-! ### A name and its node -/

/-- A name comes to what the node comes to that it is bound to. -/
theorem Scope.sameOutcome_resolve {s : Scope} {name : String} {node : Node}
    (hover : s.env.override name = none) (hbound : s.inputs.get? name = some node) :
    SameOutcome (s.resolve [] name) (node.eval (s.resolve [])) := by
  have hname : FindsCyclesExactly (s.resolve [] name) fun fuel => s.unroll fuel name :=
    findsCyclesExactly_of (fun fuel => s.bounds_unroll fuel name)
      (fun fuel => s.unroll_reportsNoCycle fuel name) (s.suffices_unroll name)
  have hnode : FindsCyclesExactly (node.eval (s.resolve [])) fun fuel => node.eval (s.unroll fuel) :=
    findsCyclesExactly_of
      (fun fuel => bounds_simulation.eval node fun inner _ => s.bounds_unroll fuel inner)
      (fun fuel => reportsNoCycle_simulation.eval node fun inner _ => s.unroll_reportsNoCycle fuel inner)
      (suffices_simulation.eval node fun inner _ => s.suffices_unroll inner)
  -- The name needs one look-up more than its node.
  have hextends : ∀ fuel, ∃ more, Extends Value (s.unroll fuel name) (node.eval (s.unroll more)) := by
    rintro (_ | fuel)
    · exact ⟨0, extends_of_unroll_zero hover _⟩
    · refine ⟨fuel, ?_⟩
      rw [unroll_of_bound hover hbound]
      exact fun result h => h
  have hextended : ∀ fuel, ∃ more, Extends Value (node.eval (s.unroll fuel)) (s.unroll more name) := by
    intro fuel
    refine ⟨fuel + 1, ?_⟩
    rw [unroll_of_bound hover hbound]
    exact fun result h => h
  rcases hname.eq_or_foundCycle hnode hextends hextended with heq | ⟨⟨chain, hcycle⟩, chain', hcycle'⟩
  · exact .of_eq heq
  · rw [hcycle, hcycle']
    exact .fail _ _

namespace Node

section Spreads

variable {s : Scope} {name : String} {spread : Node} {literal : Option Literal} {children : List Node}

/-! ### Arrays -/

/-- A spread brings the items into an array that its name is bound to. -/
theorem sameOutcome_spreadItems (htext : spread.text? = some name)
    (hover : s.env.override name = none)
    (hbound : s.inputs.get? name = some ⟨.array, literal, children⟩) :
    SameOutcome (spread.spreadItems (s.resolve [])) (evalItems (s.resolve []) children) := by
  have hname := Scope.sameOutcome_resolve hover hbound
  rw [eval] at hname
  rw [spreadItems, name_of_text? htext, pure_bind]
  refine (hname.bind fun v => .refl _).trans (.of_eq ?_)
  simp only [bind_assoc, pure_bind, bind_pure]

/-- The items may stand in the place of the spread. -/
theorem sameOutcome_evalItems (hkind : spread.kind = .spread) (htext : spread.text? = some name)
    (hover : s.env.override name = none)
    (hbound : s.inputs.get? name = some ⟨.array, literal, children⟩) (before after : List Node) :
    SameOutcome (evalItems (s.resolve []) (before ++ spread :: after))
      (evalItems (s.resolve []) (before ++ children ++ after)) := by
  rw [List.append_assoc, evalItems_append, evalItems_append, evalItems_append, evalItems_cons, itemValues,
    if_pos hkind]
  refine SameOutcome.bind (.refl _) fun values => SameOutcome.bind ?_ fun more => .refl _
  exact (sameOutcome_spreadItems htext hover hbound).bind fun values => .refl _

/-! ### Objects -/

/-- A spread brings the fields into an object that its name is bound to. -/
theorem sameOutcome_spreadFields (htext : spread.text? = some name)
    (hover : s.env.override name = none)
    (hbound : s.inputs.get? name = some ⟨.object, literal, children⟩) :
    SameOutcome (spread.spreadFields (s.resolve [])) (evalEntries (s.resolve []) [] children) := by
  have hname := Scope.sameOutcome_resolve hover hbound
  rw [eval] at hname
  rw [spreadFields, name_of_text? htext, pure_bind]
  refine (hname.bind fun v => .refl _).trans (.of_eq ?_)
  simp only [bind_assoc, pure_bind, bind_pure]

end Spreads

/-- The entry writes to keys of the object itself: it is a spread, or a pair whose path has one segment. -/
def IsFlat (entry : Node) : Prop :=
  entry.kind = .spread ∨
    ∃ literal pathLiteral segment value,
      entry = ⟨.pair, literal, [⟨.path, pathLiteral, [segment]⟩, value]⟩

section Merging

variable {resolve : Resolver (Except EvalError)} {fields written : OrderedMap Value} {entry : Node}
  {entries : List Node}

/-- A flat entry writes the same whether the fields in front are there or are merged in later. -/
theorem evalEntry_merge (hentry : entry.IsFlat) (hfields : fields.keys.Nodup)
    (outer : OrderedMap Value) :
    evalEntry resolve (outer.merge fields) entry =
      (evalEntry resolve fields entry).map fun written => outer.merge written := by
  rcases hentry with hspread | ⟨literal, pathLiteral, segment, node, rfl⟩
  · rw [evalEntry_of_spread resolve _ hspread, evalEntry_of_spread resolve _ hspread]
    cases entry.spreadFields resolve with
    | error e => rfl
    | ok spread => exact congrArg Except.ok (OrderedMap.merge_merge hfields outer spread).symm
  · rw [evalEntry_pair, evalEntry_pair, pathKeys_cons]
    cases (segment.name : Except EvalError String) with
    | error e => rfl
    | ok key =>
      cases node.eval resolve with
      | error e => rfl
      | ok value => exact congrArg Except.ok (OrderedMap.merge_insert hfields outer key value).symm

/-- No entry makes a key come twice. -/
theorem nodup_keys_of_evalEntry (h : evalEntry resolve fields entry = .ok written)
    (hfields : fields.keys.Nodup) : written.keys.Nodup := by
  rcases cases_of_evalEntry h with
    ⟨-, spread, -, rfl⟩ | ⟨literal, path, node, keys, value, -, -, -, hwrite⟩
  · exact OrderedMap.nodup_keys_merge hfields spread
  · cases keys with
    | nil => cases hwrite
    | cons key keys =>
      obtain ⟨v, rfl⟩ := exists_eq_insert_of_writeAt hwrite
      exact OrderedMap.nodup_keys_insert hfields key v

/-- Flat entries write the same whether the fields in front are there or are merged in later. -/
theorem evalEntries_merge (hentries : ∀ e ∈ entries, e.IsFlat) (hfields : fields.keys.Nodup)
    (outer : OrderedMap Value) :
    evalEntries resolve (outer.merge fields) entries =
      (evalEntries resolve fields entries).map fun written => outer.merge written := by
  induction entries generalizing fields with
  | nil =>
    rw [evalEntries, evalEntries]
    rfl
  | cons entry entries ih =>
    rw [evalEntries, evalEntries, evalEntry_merge (hentries entry List.mem_cons_self) hfields]
    cases hentry : evalEntry resolve fields entry with
    | error e => rfl
    | ok written =>
      exact ih (fun e he => hentries e (List.mem_cons_of_mem entry he))
        (nodup_keys_of_evalEntry hentry hfields)

end Merging

section Spreads

variable {s : Scope} {name : String} {spread : Node} {literal : Option Literal} {children : List Node}

/-- The entries may stand in the place of the spread. -/
theorem sameOutcome_evalEntries (hkind : spread.kind = .spread) (htext : spread.text? = some name)
    (hover : s.env.override name = none)
    (hbound : s.inputs.get? name = some ⟨.object, literal, children⟩)
    (hchildren : ∀ e ∈ children, e.IsFlat) (before after : List Node) :
    SameOutcome (evalEntries (s.resolve []) [] (before ++ spread :: after))
      (evalEntries (s.resolve []) [] (before ++ children ++ after)) := by
  rw [List.append_assoc, evalEntries_append, evalEntries_append]
  refine SameOutcome.bind (.refl _) fun fields => ?_
  have hnone : (OrderedMap.keys ([] : OrderedMap Value)).Nodup := List.nodup_nil
  have hmerge : evalEntries (s.resolve []) fields children =
      (evalEntries (s.resolve []) [] children).map fun written => fields.merge written :=
    evalEntries_merge hchildren hnone fields
  rw [evalEntries, evalEntry_of_spread _ _ hkind, evalEntries_append]
  refine SameOutcome.bind ?_ fun fields => .refl _
  refine ((sameOutcome_spreadFields htext hover hbound).bind fun spread => .refl _).trans (.of_eq ?_)
  rw [hmerge]
  cases evalEntries (s.resolve []) [] children <;> rfl

end Spreads

end Node

/-- Where an array or an object is spread that an input is bound to, its items or entries may be written
themselves, as long as the entries write to no key below another one. -/
theorem spreading_is_inlining {s : Scope} {name : String} {spread : Node}
    (hkind : spread.kind = .spread) (htext : spread.text? = some name)
    (hover : s.env.override name = none) :
    (∀ literal items, s.inputs.get? name = some ⟨.array, literal, items⟩ →
      ∀ literal' before after,
        SameOutcome (Node.eval (s.resolve []) ⟨.array, literal', before ++ spread :: after⟩)
          (Node.eval (s.resolve []) ⟨.array, literal', before ++ items ++ after⟩)) ∧
    ∀ literal entries, s.inputs.get? name = some ⟨.object, literal, entries⟩ →
      (∀ e ∈ entries, e.IsFlat) → ∀ literal' before after,
        SameOutcome (Node.eval (s.resolve []) ⟨.object, literal', before ++ spread :: after⟩)
          (Node.eval (s.resolve []) ⟨.object, literal', before ++ entries ++ after⟩) := by
  refine ⟨fun literal items hbound literal' before after => ?_,
    fun literal entries hbound hflat literal' before after => ?_⟩
  · rw [Node.eval, Node.eval]
    exact (Node.sameOutcome_evalItems hkind htext hover hbound before after).bind fun values => .refl _
  · rw [Node.eval, Node.eval]
    exact (Node.sameOutcome_evalEntries hkind htext hover hbound hflat before after).bind
      fun fields => .refl _

/-- A row that spreads another one, and an object that writes a key twice and spreads another one between:
the first key of the result stands where it was before the spread. -/
theorem row_and_object_inlined :
    let s := Scope.mk .empty
      [("$row", .branch .array [.leaf .integer (.integer 1), .leaf .spread (.text "$end")]),
       ("$end", .branch .array [.branch .null []]),
       ("$base", .branch .object [Value.fieldNode "a" (.leaf .integer (.integer 1)),
          .leaf .spread (.text "$more"), Value.fieldNode "a" (.leaf .integer (.integer 2))]),
       ("$more", .branch .object [Value.fieldNode "b" (.branch .object []),
          Value.fieldNode "c" (.leaf .input (.text "$row"))])]
    Node.eval (s.resolve []) (.branch .array [.leaf .spread (.text "$row"), .leaf .integer (.integer 2)]) =
        .ok (.array [.integer 1, .null, .integer 2]) ∧
      Node.eval (s.resolve []) (.branch .object [Value.fieldNode "c" (.leaf .integer (.integer 0)),
          .leaf .spread (.text "$base"),
          .branch .pair [.branch .path [.leaf .pathSegment (.text "b"), .leaf .pathSegment (.text "d")],
            .leaf .integer (.integer 3)]]) =
        .ok (.object [("c", .array [.integer 1, .null]), ("a", .integer 2),
          ("b", .object [("d", .integer 3)])]) := by
  intro s
  obtain ⟨harray, -⟩ := @spreading_is_inlining s "$row" (.leaf .spread (.text "$row")) rfl rfl rfl
  obtain ⟨-, hobject⟩ := @spreading_is_inlining s "$base" (.leaf .spread (.text "$base")) rfl rfl rfl
  have hflat : ∀ e ∈ [Value.fieldNode "a" (.leaf .integer (.integer 1)), .leaf .spread (.text "$more"),
      Value.fieldNode "a" (.leaf .integer (.integer 2))], e.IsFlat := by
    intro e he
    rcases List.mem_cons.1 he with rfl | he
    · exact Or.inr ⟨_, _, _, _, rfl⟩
    · rcases List.mem_cons.1 he with rfl | he
      · exact Or.inl rfl
      · exact Or.inr ⟨_, _, _, _, List.mem_singleton.1 he⟩
  refine ⟨(harray none _ rfl none [] _).eq_ok ?_, (hobject none _ rfl hflat none [_] [_]).eq_ok ?_⟩
  · cbv
  · cbv

end ConfigLang

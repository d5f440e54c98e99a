import ConfigLang.Eval.Scope
import ConfigLang.Proofs.Eval.Entries
import ConfigLang.Proofs.Value.Tree

/-!
# The fields of an evaluated object

Which keys an object has and in which order, and what is found at the paths of its pairs.

* `Node.writtenKeys` - the keys that an entry writes to.
* `Node.WritesApartFrom` - an entry that writes neither at a path nor above nor below it.
* `Node.keys_of_evalEntries` - keys stand in the order of the first write to each.
* `Node.get?_of_evalEntries` - what is at a path stays there through all entries that are apart from it.
* `no_write_is_lost` - the result.
-/

namespace ConfigLang

namespace Node

variable {resolve : Resolver (Except EvalError)} {fields written : OrderedMap Value} {entry : Node}
  {entries : List Node} {path : List String}

/-! ### The order of keys -/

/-- The keys that an entry writes to: those of the object that a spread resolves to, and the first key of the
path of a pair. -/
def writtenKeys (resolve : Resolver (Except EvalError)) (entry : Node) : List String :=
  match entry.kind, entry.children with
  | .spread, _ =>
    match entry.spreadFields resolve with
    | .ok spread => spread.keys
    | .error _ => []
  | .pair, [path, _] =>
    match (path.pathKeys : Except EvalError (List String)) with
    | .ok keys => keys.take 1
    | .error _ => []
  | _, _ => []

theorem writtenKeys_of_spread {spread : OrderedMap Value} (hkind : entry.kind = .spread)
    (h : entry.spreadFields resolve = .ok spread) : entry.writtenKeys resolve = spread.keys := by
  simp only [writtenKeys, hkind, h]

theorem writtenKeys_of_pair {literal : Option Literal} {path node : Node} {keys : List String}
    (h : path.pathKeys = (.ok keys : Except EvalError (List String))) :
    writtenKeys resolve ⟨.pair, literal, [path, node]⟩ = keys.take 1 := by
  simp only [writtenKeys, h]

/-- An entry adds its keys to the ones written so far. -/
theorem keys_of_evalEntry {before : List String} (hfields : fields.keys = before.eraseDups)
    (h : evalEntry resolve fields entry = .ok written) :
    written.keys = (before ++ entry.writtenKeys resolve).eraseDups := by
  rcases cases_of_evalEntry h with
    ⟨hspread, spread, hkeys, rfl⟩ | ⟨literal, path, node, keys, value, rfl, hkeys, -, hwrite⟩
  · rw [writtenKeys_of_spread hspread hkeys]
    exact OrderedMap.keys_merge_eq_eraseDups hfields spread
  · cases keys with
    | nil => cases hwrite
    | cons key keys =>
      obtain ⟨v, rfl⟩ := exists_eq_insert_of_writeAt hwrite
      rw [writtenKeys_of_pair hkeys]
      exact OrderedMap.keys_insert_eq_eraseDups hfields key v

/-- Keys stand in the order of the first write to each. -/
theorem keys_of_evalEntries {before : List String} (hfields : fields.keys = before.eraseDups)
    (h : evalEntries resolve fields entries = .ok written) :
    written.keys = (before ++ entries.flatMap (writtenKeys resolve)).eraseDups := by
  induction entries generalizing fields before with
  | nil =>
    obtain rfl := Except.ok.inj h
    rw [List.flatMap_nil, List.append_nil, hfields]
  | cons entry entries ih =>
    rw [evalEntries] at h
    obtain ⟨next, hentry, h⟩ := exists_of_bind_eq_ok h
    rw [ih (keys_of_evalEntry hfields hentry) h, List.flatMap_cons, List.append_assoc]

/-! ### What stays -/

/-- The entry writes neither at the path nor above nor below it: a pair has a path that is neither a start of
this one nor goes on from it, and a spread brings in no field of its first key. -/
structure WritesApartFrom (resolve : Resolver (Except EvalError)) (path : List String) (entry : Node) :
    Prop where
  pair : ∀ literal other node keys, entry = ⟨.pair, literal, [other, node]⟩ →
    other.pathKeys = (.ok keys : Except EvalError (List String)) → ¬ keys <+: path ∧ ¬ path <+: keys
  spread : entry.kind = .spread → ∀ fields, entry.spreadFields resolve = .ok fields →
    ∀ key, path.head? = some key → key ∉ fields.keys

/-- What is at a path stays there if an entry writes apart from it. -/
theorem get?_of_evalEntry_apart (hpath : path ≠ []) (hentry : entry.WritesApartFrom resolve path)
    (h : evalEntry resolve fields entry = .ok written) :
    (Value.object written).get? path = (Value.object fields).get? path := by
  rcases cases_of_evalEntry h with
    ⟨hspread, spread, hfields, rfl⟩ | ⟨literal, other, node, keys, value, rfl, hkeys, -, hwrite⟩
  · obtain ⟨key, path, rfl⟩ := List.exists_cons_of_ne_nil hpath
    have hnew := hentry.spread hspread spread hfields key rfl
    rw [Value.get?_object_cons, Value.get?_object_cons, OrderedMap.get?_merge_of_not_mem hnew]
  · obtain ⟨hother, hpath⟩ := hentry.pair literal other node keys rfl hkeys
    exact get?_of_writeAt_apart hwrite hother hpath

/-- What is at a path stays there through all entries that write apart from it. -/
theorem get?_of_evalEntries_apart (hpath : path ≠ [])
    (hentries : ∀ e ∈ entries, e.WritesApartFrom resolve path)
    (h : evalEntries resolve fields entries = .ok written) :
    (Value.object written).get? path = (Value.object fields).get? path := by
  induction entries generalizing fields with
  | nil => rw [Except.ok.inj h]
  | cons entry entries ih =>
    rw [evalEntries] at h
    obtain ⟨next, hentry, h⟩ := exists_of_bind_eq_ok h
    rw [ih (fun e he => hentries e (List.mem_cons_of_mem entry he)) h]
    exact get?_of_evalEntry_apart hpath (hentries entry List.mem_cons_self) hentry

end Node

/-- An object that evaluates has the keys that its entries write to, in the order of the first write to each.
Each of its pairs has keys and a value, and the value is found at the path of the keys unless a later entry
writes there, above or below. -/
theorem no_write_is_lost (s : Scope) (chain : List String) {literal : Option Literal}
    {entries : List Node} {fields : OrderedMap Value}
    (h : Node.evalFields (s.resolve chain) ⟨.object, literal, entries⟩ = .ok fields) :
    fields.keys = (entries.flatMap (Node.writtenKeys (s.resolve chain))).eraseDups ∧
    ∀ before pairLiteral path node after,
      entries = before ++ ⟨.pair, pairLiteral, [path, node]⟩ :: after →
      ∃ keys value, path.pathKeys = (.ok keys : Except EvalError (List String)) ∧
        node.eval (s.resolve chain) = .ok value ∧
        ((∀ e ∈ after, e.WritesApartFrom (s.resolve chain) keys) →
          (Value.object fields).get? keys = some value) := by
  have hentries : Node.evalEntries (s.resolve chain) [] entries = .ok fields := h
  have hnone : OrderedMap.keys ([] : OrderedMap Value) = ([] : List String).eraseDups := rfl
  refine ⟨Node.keys_of_evalEntries hnone hentries, ?_⟩
  rintro before pairLiteral path node after rfl
  rw [Node.evalEntries_append] at hentries
  obtain ⟨start, -, hentries⟩ := exists_of_bind_eq_ok hentries
  rw [Node.evalEntries] at hentries
  obtain ⟨next, hpair, hafter⟩ := exists_of_bind_eq_ok hentries
  rcases Node.cases_of_evalEntry hpair with
    ⟨hspread, -⟩ | ⟨_, _, _, keys, value, heq, hkeys, hvalue, hwrite⟩
  · cases hspread
  · cases heq
    refine ⟨keys, value, hkeys, hvalue, fun hapart => ?_⟩
    have hne : keys ≠ [] := by
      rintro rfl
      cases hwrite
    rw [Node.get?_of_evalEntries_apart hne hapart hafter]
    exact get?_of_writeAt hwrite

/-- A key that is written again keeps its place, below which a later pair writes; a spread brings in a key in
front of its last write. -/
theorem pair_under_a_later_spread_is_found :
    let key (k : String) : Node := .leaf .pathSegment (.text k)
    let one : Node := .leaf .integer (.integer 1)
    let s := Scope.mk .empty [("$more", .branch .object [Value.fieldNode "c" one])]
    let last : List Node := [.leaf .spread (.text "$more"), Value.fieldNode "a" (.branch .null []),
      .branch .pair [.branch .path [key "b", key "e"], one]]
    let entries : List Node := Value.fieldNode "a" one ::
      .branch .pair [.branch .path [key "b", key "d"], .leaf .input (.text "$more")] :: last
    let fields : OrderedMap Value := [("a", .null),
      ("b", .object [("d", .object [("c", .integer 1)]), ("e", .integer 1)]), ("c", .integer 1)]
    Node.evalFields (s.resolve []) (.branch .object entries) = .ok fields ∧
      fields.keys = ["a", "b", "c", "a", "b"].eraseDups ∧
      (∀ e ∈ last, e.WritesApartFrom (s.resolve []) ["b", "d"]) ∧
      (Value.object fields).get? ["b", "d"] = some (.object [("c", .integer 1)]) := by
  intro key one s last entries fields
  have hfields : Node.evalFields (s.resolve []) (.branch .object entries) = .ok fields := by
    cbv
  have hmore : (Node.leaf .spread (.text "$more")).spreadFields (s.resolve []) =
      .ok [("c", .integer 1)] := by
    cbv
  have hpair : ∀ keys node,
      Node.pathKeys (.branch .path (keys.map key)) = (.ok keys : Except EvalError (List String)) →
      (¬ keys <+: ["b", "d"] ∧ ¬ ["b", "d"] <+: keys) →
      (Node.branch .pair [.branch .path (keys.map key), node]).WritesApartFrom (s.resolve [])
        ["b", "d"] := by
    refine fun keys node hkeys hapart =>
      ⟨fun literal other value otherKeys heq hother => ?_, fun hkind => Node.Kind.noConfusion hkind⟩
    obtain rfl : Node.branch .path (keys.map key) = other := by
      injection heq with _ _ hchildren
      exact (List.cons.inj hchildren).1
    rwa [← Except.ok.inj (hkeys.symm.trans hother)]
  have hlast : ∀ e ∈ last, e.WritesApartFrom (s.resolve []) ["b", "d"] := by
    simp only [last, List.forall_mem_cons, List.not_mem_nil, false_implies, implies_true, and_true]
    refine ⟨⟨fun literal other node keys heq => ?_, fun _ spread hspread k hk => ?_⟩,
      hpair ["a"] _ rfl (by decide), hpair ["b", "e"] _ rfl (by decide)⟩
    · have hkind : Node.Kind.spread = .pair := congrArg Node.kind heq
      cases hkind
    · rw [← Except.ok.inj (hmore.symm.trans hspread), ← Option.some.inj hk]
      decide
  have hwritten : entries.flatMap (Node.writtenKeys (s.resolve [])) = ["a", "b", "c", "a", "b"] := by
    cbv
  obtain ⟨hkeys, hpairs⟩ := no_write_is_lost s [] hfields
  rw [hwritten] at hkeys
  obtain ⟨keys, value, hpath, hvalue, hget⟩ := hpairs [_] none _ _ last rfl
  have hmoreValue : Node.eval (s.resolve []) (.leaf .input (.text "$more")) =
      .ok (.object [("c", .integer 1)]) := by
    cbv
  obtain rfl : ["b", "d"] = keys := Except.ok.inj hpath
  obtain rfl : Value.object [("c", .integer 1)] = value := Except.ok.inj (hmoreValue.symm.trans hvalue)
  exact ⟨hfields, hkeys, hlast, hget hlast⟩

end ConfigLang

import ConfigLang.Eval.Scope
import ConfigLang.Proofs.Eval.Entries
import ConfigLang.Proofs.Value.Tree

/-!
# Dotted paths are nested objects

Pairs whose paths begin with the same key may be gathered: one pair at that key, in the place of the first of
them, whose object has all of them without the key.

* `Node.below?` - an entry without the first key of its path.
* `Node.regroup` - the entries with those below a key gathered.
* `Node.WritesBelowOnly` - the entries that do not write to the key itself.
* `Node.sameOutcome_evalEntries_apart` - what is written below a key can be evaluated apart from the rest.
* `dotted_paths_are_nested_objects` - the result.

The gathered entries are evaluated earlier than where they stood. That is seen in no field: the other entries
neither write below the key nor see what is there. It may decide which of two errors comes first.
-/

namespace ConfigLang

namespace Node

/-! ### Entries below a key -/

/-- The entry without the first key of its path, if that is the given key. -/
def below? (k : String) : Node → Option Node
  | ⟨.pair, literal, [⟨.path, pathLiteral, first :: rest⟩, node]⟩ =>
    if first.text? = some k then some ⟨.pair, literal, [⟨.path, pathLiteral, rest⟩, node]⟩ else none
  | _ => none

/-- The entries that are not below the key. -/
def others (k : String) (entries : List Node) : List Node :=
  entries.filter fun other => (other.below? k).isNone

/-- The entries with those below a key gathered in one pair, in the place of the first of them. -/
def regroup (k : String) : List Node → List Node
  | [] => []
  | entry :: rest =>
    match entry.below? k with
    | none => entry :: regroup k rest
    | some inner =>
      Value.fieldNode k (.branch .object (inner :: rest.filterMap (below? k))) :: others k rest

/-- The entry does not write to the key itself: a pair whose path begins with it goes on below, and a spread
brings in no field of that key. -/
structure WritesBelowOnly (resolve : Resolver (Except EvalError)) (k : String) (entry : Node) : Prop where
  pair : ∀ literal pathLiteral segment node,
    entry = ⟨.pair, literal, [⟨.path, pathLiteral, [segment]⟩, node]⟩ → segment.text? ≠ some k
  spread : entry.kind = .spread → ∀ fields, entry.spreadFields resolve = .ok fields → k ∉ fields.keys

section Regrouping

variable {resolve : Resolver (Except EvalError)} {k : String} {fields written inner : OrderedMap Value}
  {entry below : Node} {entries : List Node}

theorem exists_of_below? (h : entry.below? k = some below) :
    ∃ literal pathLiteral first rest node,
      entry = ⟨.pair, literal, [⟨.path, pathLiteral, first :: rest⟩, node]⟩ ∧
      first.text? = some k ∧ below = ⟨.pair, literal, [⟨.path, pathLiteral, rest⟩, node]⟩ := by
  unfold below? at h
  split at h
  next literal pathLiteral first rest node =>
    obtain ⟨htext, hbelow⟩ := Option.ite_none_right_eq_some.1 h
    exact ⟨literal, pathLiteral, first, rest, node, rfl, htext, (Option.some.inj hbelow).symm⟩
  · cases h

/-- A pair that is not below the key has a path that begins with another one. -/
theorem ne_of_below?_eq_none {literal : Option Literal} {path node : Node} {key : String}
    {keys : List String} (h : below? k ⟨.pair, literal, [path, node]⟩ = none)
    (hkeys : path.pathKeys = (.ok (key :: keys) : Except EvalError (List String))) : k ≠ key := by
  obtain ⟨kind, pathLiteral, children⟩ := path
  by_cases hkind : kind = .path
  · subst hkind
    cases children with
    | nil => cases hkeys
    | cons first rest =>
      rw [pathKeys_cons] at hkeys
      obtain ⟨name, hname, hkeys⟩ := exists_of_bind_eq_ok hkeys
      obtain ⟨others, -, hkeys⟩ := exists_of_bind_eq_ok hkeys
      obtain ⟨rfl, -⟩ := List.cons.inj (Except.ok.inj hkeys)
      rintro rfl
      rw [below?, if_pos (text?_of_name hname)] at h
      cases h
  · rw [pathKeys, if_neg hkind] at hkeys
    cases hkeys

/-- A path with a segment has a key. -/
theorem ne_nil_of_pathKeys {literal : Option Literal} {segments : List Node} {keys : List String}
    (hne : segments ≠ [])
    (hkeys : pathKeys ⟨.path, literal, segments⟩ = (.ok keys : Except EvalError (List String))) :
    keys ≠ [] := by
  obtain ⟨first, rest, rfl⟩ := List.exists_cons_of_ne_nil hne
  rw [pathKeys_cons] at hkeys
  obtain ⟨name, -, hkeys⟩ := exists_of_bind_eq_ok hkeys
  obtain ⟨others, -, hkeys⟩ := exists_of_bind_eq_ok hkeys
  rw [← Except.ok.inj hkeys]
  exact List.cons_ne_nil _ _

/-! ### What one entry does -/

/-- An entry below the key writes to the object there. -/
theorem evalEntry_below (hbelow : entry.below? k = some below)
    (hentry : entry.WritesBelowOnly resolve k) (hinner : objectAt? fields k = some inner) :
    evalEntry resolve fields entry =
      (evalEntry resolve inner below).map fun after => fields.insert k (.object after) := by
  obtain ⟨literal, pathLiteral, first, rest, node, rfl, htext, rfl⟩ := exists_of_below? hbelow
  have hrest : rest ≠ [] := by
    rintro rfl
    exact hentry.pair literal pathLiteral first node rfl htext
  rw [evalEntry_pair, evalEntry_pair, pathKeys_cons, name_of_text? htext, pure_bind]
  cases hkeys : (pathKeys ⟨.path, pathLiteral, rest⟩ : Except EvalError (List String)) with
  | error e => rfl
  | ok keys =>
    cases node.eval resolve with
    | error e => rfl
    | ok value =>
      have hwrite := writeAt_below hinner (ne_nil_of_pathKeys hrest hkeys) value
      show (writeAt fields (k :: keys) value).mapError EvalError.ofPathError = _
      rw [hwrite]
      show _ = ((writeAt inner keys value).mapError EvalError.ofPathError).map _
      cases writeAt inner keys value <;> rfl

/-- Another entry does not see what is at the key. -/
theorem evalEntry_insert (hother : entry.below? k = none) (hentry : entry.WritesBelowOnly resolve k)
    (hk : k ∈ fields.keys) (v : Value) :
    evalEntry resolve (fields.insert k v) entry =
      (evalEntry resolve fields entry).map fun written => written.insert k v := by
  rcases spread_or_pair_or_error resolve entry with hspread | ⟨literal, path, node, rfl⟩ | ⟨e, he⟩
  · rw [evalEntry_of_spread _ _ hspread, evalEntry_of_spread _ _ hspread]
    cases hfields : entry.spreadFields resolve with
    | error e => rfl
    | ok spread =>
      have hnew := hentry.spread hspread spread hfields
      exact congrArg Except.ok (OrderedMap.insert_merge_of_mem hk hnew v)
  · rw [evalEntry_pair, evalEntry_pair]
    cases hkeys : (path.pathKeys : Except EvalError (List String)) with
    | error e => rfl
    | ok keys =>
      cases node.eval resolve with
      | error e => rfl
      | ok value =>
        cases keys with
        | nil => rfl
        | cons key keys =>
          have hwrite := writeAt_insert_of_ne hk (ne_of_below?_eq_none hother hkeys) v keys value
          show (writeAt (fields.insert k v) (key :: keys) value).mapError EvalError.ofPathError =
            ((writeAt fields (key :: keys) value).mapError EvalError.ofPathError).map _
          rw [hwrite]
          cases writeAt fields (key :: keys) value <;> rfl
  · rw [he, he]
    rfl

/-- Another entry leaves what is at the key. -/
theorem get?_of_evalEntry (hother : entry.below? k = none) (hentry : entry.WritesBelowOnly resolve k)
    (h : evalEntry resolve fields entry = .ok written) : written.get? k = fields.get? k := by
  rcases cases_of_evalEntry h with
    ⟨hspread, spread, hfields, rfl⟩ | ⟨literal, path, node, keys, value, rfl, hkeys, -, hwrite⟩
  · exact OrderedMap.get?_merge_of_not_mem (hentry.spread hspread spread hfields)
  · cases keys with
    | nil => cases hwrite
    | cons key keys =>
      obtain ⟨v, rfl⟩ := exists_eq_insert_of_writeAt hwrite
      rw [OrderedMap.get?_insert, if_neg (ne_of_below?_eq_none hother hkeys).symm]

/-! ### What all entries do -/

/-- Other entries do not see what is at the key. -/
theorem evalEntries_insert (hother : ∀ e ∈ entries, e.below? k = none)
    (hentries : ∀ e ∈ entries, e.WritesBelowOnly resolve k) (hk : k ∈ fields.keys) (v : Value) :
    evalEntries resolve (fields.insert k v) entries =
      (evalEntries resolve fields entries).map fun written => written.insert k v := by
  induction entries generalizing fields with
  | nil =>
    rw [evalEntries, evalEntries]
    rfl
  | cons entry entries ih =>
    have hfirst := hother entry List.mem_cons_self
    have hwrites := hentries entry List.mem_cons_self
    rw [evalEntries, evalEntries, evalEntry_insert hfirst hwrites hk]
    cases hentry : evalEntry resolve fields entry with
    | error e => rfl
    | ok written =>
      have hk' : k ∈ written.keys := by
        rw [← OrderedMap.get?_isSome_iff, get?_of_evalEntry hfirst hwrites hentry,
          OrderedMap.get?_isSome_iff]
        exact hk
      exact ih (fun e he => hother e (List.mem_cons_of_mem entry he))
        (fun e he => hentries e (List.mem_cons_of_mem entry he)) hk'

/-- The entries of an object that are not below the key do not see what is at it. -/
theorem evalEntries_others_insert (hentries : ∀ e ∈ entries, e.WritesBelowOnly resolve k)
    (hk : k ∈ fields.keys) (v : Value) :
    evalEntries resolve (fields.insert k v) (others k entries) =
      (evalEntries resolve fields (others k entries)).map fun written => written.insert k v := by
  refine evalEntries_insert (fun e he => ?_) (fun e he => hentries e (List.mem_filter.1 he).1) hk v
  simpa using (List.mem_filter.1 he).2

/-- Where there is an object at the key, the entries below it can be evaluated first and apart. -/
theorem sameOutcome_evalEntries_apart (hentries : ∀ e ∈ entries, e.WritesBelowOnly resolve k)
    (hinner : fields.get? k = some (.object inner)) :
    SameOutcome (evalEntries resolve fields entries) (do
      let after ← evalEntries resolve inner (entries.filterMap (below? k))
      let written ← evalEntries resolve fields (others k entries)
      pure (written.insert k (.object after))) := by
  -- The object at the key is general in the induction: an entry below the key changes it.
  induction entries generalizing fields inner with
  | nil =>
    refine .of_eq ?_
    show Except.ok fields = Except.ok (fields.insert k (.object inner))
    rw [OrderedMap.insert_of_get? hinner]
  | cons entry entries ih =>
    have hwrites := hentries entry List.mem_cons_self
    have hrest : ∀ e ∈ entries, e.WritesBelowOnly resolve k :=
      fun e he => hentries e (List.mem_cons_of_mem entry he)
    cases hbelow : entry.below? k with
    | some below =>
      have hothers : others k (entry :: entries) = others k entries :=
        List.filter_cons_of_neg (by simp [hbelow])
      have hat : objectAt? fields k = some inner := objectAt?_eq_some_iff.2 (Or.inr hinner)
      rw [List.filterMap_cons_some hbelow, hothers, evalEntries, evalEntries,
        evalEntry_below hbelow hwrites hat]
      cases evalEntry resolve inner below with
      | error e => exact .fail e e
      | ok after =>
        have hget : (fields.insert k (.object after)).get? k = some (.object after) := by
          rw [OrderedMap.get?_insert, if_pos rfl]
        have hk : k ∈ fields.keys := by
          rw [← OrderedMap.get?_isSome_iff, hinner]
          rfl
        refine (ih hrest hget).trans (SameOutcome.bind (.refl _) fun last => .of_eq ?_)
        rw [evalEntries_others_insert hrest hk]
        cases evalEntries resolve fields (others k entries) with
        | error e => rfl
        | ok written => exact congrArg Except.ok (OrderedMap.insert_insert written k _ _)
    | none =>
      have hothers : others k (entry :: entries) = entry :: others k entries :=
        List.filter_cons_of_pos (by simp [hbelow])
      rw [List.filterMap_cons_none hbelow, hothers, evalEntries, evalEntries]
      cases hentry : evalEntry resolve fields entry with
      | error e => exact (SameOutcome.bind_comm _ (.error e) _).symm
      | ok next => exact ih hrest ((get?_of_evalEntry hbelow hwrites hentry).trans hinner)

/-- The pair of a key writes the value of its node. -/
theorem evalEntry_fieldNode (resolve : Resolver (Except EvalError)) (fields : OrderedMap Value)
    (k : String) (node : Node) :
    evalEntry resolve fields (Value.fieldNode k node) =
      (node.eval resolve).map fun v => fields.insert k v := by
  have hpath : pathKeys (.branch .path [.leaf .pathSegment (.text k)]) =
      (.ok [k] : Except EvalError (List String)) := rfl
  rw [Value.fieldNode, branch, evalEntry_pair, hpath]
  cases node.eval resolve <;> rfl

/-- Gathering the entries below a key makes no difference where nothing is at the key yet. -/
theorem sameOutcome_evalEntries_regroup (hentries : ∀ e ∈ entries, e.WritesBelowOnly resolve k)
    (hnone : fields.get? k = none) :
    SameOutcome (evalEntries resolve fields entries) (evalEntries resolve fields (regroup k entries)) := by
  induction entries generalizing fields with
  | nil => exact .refl _
  | cons entry entries ih =>
    have hwrites := hentries entry List.mem_cons_self
    have hrest : ∀ e ∈ entries, e.WritesBelowOnly resolve k :=
      fun e he => hentries e (List.mem_cons_of_mem entry he)
    rw [regroup]
    cases hbelow : entry.below? k with
    | none =>
      simp only
      rw [evalEntries, evalEntries]
      cases hentry : evalEntry resolve fields entry with
      | error e => exact .fail e e
      | ok next => exact ih hrest ((get?_of_evalEntry hbelow hwrites hentry).trans hnone)
    | some below =>
      have hat : objectAt? fields k = some [] := objectAt?_eq_some_iff.2 (Or.inl ⟨hnone, rfl⟩)
      simp only
      rw [evalEntries, evalEntries, evalEntry_fieldNode, branch, eval, evalEntries,
        evalEntry_below hbelow hwrites hat]
      cases evalEntry resolve [] below with
      | error e => exact .fail e e
      | ok inner =>
        have hget : (fields.insert k (.object inner)).get? k = some (.object inner) := by
          rw [OrderedMap.get?_insert, if_pos rfl]
        have hk := OrderedMap.mem_keys_insert fields k (.object inner)
        refine (sameOutcome_evalEntries_apart hrest hget).trans ?_
        show SameOutcome _ (((evalEntries resolve inner (entries.filterMap (below? k))).bind _).map _ >>= _)
        cases evalEntries resolve inner (entries.filterMap (below? k)) with
        | error e => exact .fail e e
        | ok after =>
          have hinsert := evalEntries_others_insert hrest hk (.object after)
          rw [OrderedMap.insert_insert] at hinsert
          refine .of_eq ?_
          show (evalEntries resolve (fields.insert k (.object inner)) (others k entries) >>= _) =
            evalEntries resolve (fields.insert k (.object after)) (others k entries)
          rw [hinsert]
          cases evalEntries resolve (fields.insert k (.object inner)) (others k entries) <;> rfl

end Regrouping

end Node

/-- Pairs with dotted paths below a key come to the same object as one pair at that key with an object of the
pairs, wherever else in the object they stand, as long as no entry writes to the key itself. -/
theorem dotted_paths_are_nested_objects (s : Scope) (chain : List String) {k : String}
    {entries : List Node} (hentries : ∀ e ∈ entries, e.WritesBelowOnly (s.resolve chain) k)
    (literal : Option Literal) :
    SameOutcome (Node.eval (s.resolve chain) ⟨.object, literal, entries⟩)
      (Node.eval (s.resolve chain) ⟨.object, literal, Node.regroup k entries⟩) := by
  rw [Node.eval, Node.eval]
  exact (Node.sameOutcome_evalEntries_regroup hentries rfl).bind fun fields => .refl _

/-- Three pairs below a key with a spread and another pair between them; the last one writes over the object
that the second one made. -/
theorem pairs_around_a_spread_gathered :
    let pair (keys : List String) (node : Node) : Node :=
      .branch .pair [.branch .path (keys.map fun key => .leaf .pathSegment (.text key)), node]
    let one : Node := .leaf .integer (.integer 1)
    let spread : Node := .leaf .spread (.text "$more")
    let s := Scope.mk .empty [("$more", .branch .object [pair ["x"] one, pair ["y"] one])]
    let entries := [pair ["a", "b", "c"] one, spread, pair ["a", "d"] (.leaf .input (.text "$more")),
      pair ["x"] (.branch .null []), pair ["a", "b"] one]
    Node.regroup "a" entries =
        [pair ["a"] (.branch .object [pair ["b", "c"] one, pair ["d"] (.leaf .input (.text "$more")),
            pair ["b"] one]), spread, pair ["x"] (.branch .null [])] ∧
      Node.eval (s.resolve []) (.branch .object entries) =
        .ok (.object [("a", .object [("b", .integer 1),
            ("d", .object [("x", .integer 1), ("y", .integer 1)])]), ("x", .null), ("y", .integer 1)]) := by
  intro pair one spread s entries
  have hspread : spread.spreadFields (s.resolve []) = .ok [("x", .integer 1), ("y", .integer 1)] := by
    cbv
  have hpair : ∀ keys node, keys ≠ ["a"] → (pair keys node).WritesBelowOnly (s.resolve []) "a" := by
    refine fun keys node hne =>
      ⟨fun literal pathLiteral segment value heq htext => ?_, fun hkind => Node.Kind.noConfusion hkind⟩
    have hkeys : keys.map (fun key => Node.leaf .pathSegment (.text key)) = [segment] := by
      injection heq with _ _ hchildren
      injection (List.cons.inj hchildren).1
    obtain ⟨key, rfl, rfl⟩ := List.map_eq_singleton_iff.1 hkeys
    exact hne (congrArg (fun key => [key]) (Option.some.inj htext))
  have hmore : spread.WritesBelowOnly (s.resolve []) "a" := by
    refine ⟨fun literal pathLiteral segment value heq => ?_, fun _ fields hfields => ?_⟩
    · have hkind : Node.Kind.spread = .pair := congrArg Node.kind heq
      cases hkind
    · rw [← Except.ok.inj (hspread.symm.trans hfields)]
      decide
  have hentries : ∀ e ∈ entries, e.WritesBelowOnly (s.resolve []) "a" := by
    simp only [entries, List.forall_mem_cons, List.not_mem_nil, false_implies, implies_true, and_true]
    exact ⟨hpair _ _ (by decide), hmore, hpair _ _ (by decide), hpair _ _ (by decide),
      hpair _ _ (by decide)⟩
  have hregroup : Node.regroup "a" entries =
      [pair ["a"] (.branch .object [pair ["b", "c"] one, pair ["d"] (.leaf .input (.text "$more")),
        pair ["b"] one]), spread, pair ["x"] (.branch .null [])] := rfl
  have houtcome := dotted_paths_are_nested_objects s [] hentries none
  rw [hregroup] at houtcome
  refine ⟨hregroup, houtcome.eq_ok ?_⟩
  cbv

end ConfigLang

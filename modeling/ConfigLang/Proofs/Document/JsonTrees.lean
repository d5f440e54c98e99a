import ConfigLang.Json
import ConfigLang.Proofs.Eval.DistinctKeys

/-!
# The JSON tree of a document

An object is handed out by writing its entries one after the other into a new map. Nothing is lost on the way
because no key comes twice: the tree is the value once more, with the same keys in the same order, and only
the floats that JSON does not have become null. So finite values can be told apart by their trees.

* `Value.Mirrors` - a JSON tree that repeats a value part by part.
* `Value.AllFinite` - a value without infinite floats and without those that are no number.
* `OrderedMap.ofList_of_nodup` - entries with distinct keys are a map as they stand.
* `Value.HasDistinctKeys.mirrors_toJson` - the tree of a value with distinct keys repeats it.
* `Value.Mirrors.unique` - a tree repeats one finite value at most.
* `json_tree_is_faithful` - the result.
-/

namespace ConfigLang

/-! ### Maps -/

namespace OrderedMap

variable {α : Type} {m n : OrderedMap α}

/-- Entries with new keys that are all distinct are written at the end. -/
theorem merge_of_nodup (h : (m ++ n).keys.Nodup) : m.merge n = m ++ n := by
  induction n generalizing m with
  | nil => exact (List.append_nil m).symm
  | cons entry n ih =>
    obtain ⟨key, v⟩ := entry
    have hnew : key ∉ m.keys := by
      intro hkey
      rw [keys, List.map_append] at h
      exact List.disjoint_of_nodup_append h hkey List.mem_cons_self
    rw [List.append_cons] at h
    rw [merge_cons, insert_of_not_mem hnew, ih h, ← List.append_cons]

theorem ofList_of_nodup (h : n.keys.Nodup) : ofList n = n := merge_of_nodup h

/-- Maps are the same if they have the same keys and the same values in the same order. -/
theorem eq_of_keys_eq (hkeys : m.keys = n.keys)
    (hvalues : m.map (·.2) = n.map (·.2)) : m = n := by
  rw [← List.zip_unzip m, ← List.zip_unzip n, List.unzip_eq_map, List.unzip_eq_map]
  exact congrArg₂ List.zip hkeys hvalues

end OrderedMap

/-! ### Trees that repeat a value -/

namespace Value

theorem itemsToJson_eq_map (items : List Value) : itemsToJson items = items.map toJson := by
  induction items with
  | nil => rfl
  | cons item items ih => rw [itemsToJson, ih, List.map_cons]

theorem fieldsToJson_eq_map (fields : OrderedMap Value) :
    fieldsToJson fields = fields.map fun f => (f.1, f.2.toJson) := by
  induction fields with
  | nil => rfl
  | cons f fields ih => rw [fieldsToJson, ih, List.map_cons]

theorem keys_fieldsToJson (fields : OrderedMap Value) :
    OrderedMap.keys (fieldsToJson fields) = OrderedMap.keys fields := by
  rw [fieldsToJson_eq_map, OrderedMap.keys, OrderedMap.keys, List.map_map]
  rfl

/-- The JSON tree repeats the value: each scalar is the same, integers and floats apart, each array has the
trees of its items, and each object has its keys in their order with the trees of their values. Only a float
that is not finite is null. -/
inductive Mirrors : Value → Json → Prop
  | null : Mirrors .null .null
  | boolean (b : Bool) : Mirrors (.boolean b) (.boolean b)
  | integer (i : Int64) : Mirrors (.integer i) (.integer i)
  | float {x : Float} : x.isFinite = true → Mirrors (.float x) (.float x)
  | notFinite {x : Float} : x.isFinite = false → Mirrors (.float x) .null
  | string (text : String) : Mirrors (.string text) (.string text)
  | array {items : List Value} {trees : List Json} :
      List.Forall₂ Mirrors items trees → Mirrors (.array items) (.array trees)
  | object {fields : OrderedMap Value} {entries : OrderedMap Json} :
      entries.keys = fields.keys → List.Forall₂ Mirrors (fields.map (·.2)) (entries.map (·.2)) →
      Mirrors (.object fields) (.object entries)

/-- All floats in the value are finite. -/
def AllFinite (v : Value) : Prop := ∀ x : Float, v.Contains (.float x) → x.isFinite = true

theorem allFinite_array_iff {items : List Value} :
    (array items).AllFinite ↔ ∀ i ∈ items, i.AllFinite := by
  simp only [AllFinite, contains_array_iff, reduceCtorEq, false_or]
  exact ⟨fun h i hi x hx => h x ⟨i, hi, hx⟩, fun h x ⟨i, hi, hx⟩ => h i hi x hx⟩

theorem allFinite_object_iff {fields : OrderedMap Value} :
    (object fields).AllFinite ↔ ∀ v ∈ fields.map (·.2), v.AllFinite := by
  simp only [AllFinite, contains_object_iff, reduceCtorEq, false_or, List.forall_mem_map]
  exact ⟨fun h f hf x hx => h x ⟨f, hf, hx⟩, fun h x ⟨f, hf, hx⟩ => h f hf x hx⟩

theorem allFinite_scalar_iff {v : Value} (harray : v.kind ≠ .array) (hobject : v.kind ≠ .object) :
    v.AllFinite ↔ ∀ x : Float, float x = v → x.isFinite = true := by
  simp only [AllFinite, contains_iff_of_scalar harray hobject]

/-- The tree of a value with distinct keys repeats the value. -/
theorem HasDistinctKeys.mirrors_toJson {v : Value} (h : v.HasDistinctKeys) : v.Mirrors v.toJson := by
  induction v using Value.induct with
  | scalar v harray hobject =>
    cases v with
    | null => exact .null
    | boolean b => exact .boolean b
    | integer i => exact .integer i
    | float x =>
      rw [toJson]
      by_cases hx : x.isFinite = true
      · rw [if_pos hx]
        exact .float hx
      · rw [if_neg hx]
        exact .notFinite (Bool.not_eq_true _ ▸ hx)
    | string text => exact .string text
    | array => exact absurd rfl harray
    | object => exact absurd rfl hobject
  | array items ih =>
    rw [toJson, itemsToJson_eq_map]
    refine .array (List.forall₂_map_right_iff.2 (List.forall₂_same.2 fun i hi => ?_))
    exact ih i hi (hasDistinctKeys_array_iff.1 h i hi)
  | object fields ih =>
    obtain ⟨hkeys, hvalues⟩ := hasDistinctKeys_object_iff.1 h
    rw [toJson, OrderedMap.ofList_of_nodup ((keys_fieldsToJson fields).symm ▸ hkeys)]
    refine .object (keys_fieldsToJson fields) ?_
    rw [fieldsToJson_eq_map, List.map_map, List.forall₂_map_left_iff, List.forall₂_map_right_iff]
    exact List.forall₂_same.2 fun f hf => ih f hf (hvalues f hf)

/-! ### Values told apart -/

/-- Two lists are the same if each of their items is told by the tree at its place. -/
theorem eq_of_forall₂_mirrors {values others : List Value} {trees : List Json}
    (heq : ∀ v ∈ values, ∀ (w : Value) (j : Json), v.Mirrors j → w.Mirrors j → v.AllFinite → w.AllFinite →
      v = w)
    (hvalues : List.Forall₂ Mirrors values trees) (hothers : List.Forall₂ Mirrors others trees)
    (hfinite : ∀ v ∈ values, v.AllFinite) (hfinite' : ∀ w ∈ others, w.AllFinite) : values = others := by
  induction hvalues generalizing others with
  | nil =>
    cases hothers
    rfl
  | cons hv _ ih =>
    cases hothers with
    | cons hw hothers =>
      obtain ⟨heqv, heq⟩ := List.forall_mem_cons.1 heq
      obtain ⟨hfv, hfinite⟩ := List.forall_mem_cons.1 hfinite
      obtain ⟨hfw, hfinite'⟩ := List.forall_mem_cons.1 hfinite'
      rw [heqv _ _ hv hw hfv hfw, ih heq hothers hfinite hfinite']

/-- A tree repeats one finite value at most. -/
theorem Mirrors.unique {v w : Value} {j : Json} (hv : v.Mirrors j) (hw : w.Mirrors j) (hfinite : v.AllFinite)
    (hfinite' : w.AllFinite) : v = w := by
  induction v using Value.induct generalizing w j with
  | scalar v harray hobject =>
    -- Null is the tree of all floats that are not finite, so only here the hypotheses are needed.
    have hnever : ∀ x : Float, x.isFinite = false → ¬ (Value.float x).AllFinite :=
      fun x hx h => Bool.false_ne_true (hx.symm.trans (h x (.self _)))
    cases hv with
    | array => exact absurd rfl harray
    | object => exact absurd rfl hobject
    | notFinite hx => exact absurd hfinite (hnever _ hx)
    | null =>
      cases hw with
      | null => rfl
      | notFinite hx => exact absurd hfinite' (hnever _ hx)
    | boolean | integer | float | string =>
      cases hw
      rfl
  | array items ih =>
    cases hv with
    | array htrees =>
      cases hw with
      | array htrees' =>
        have heq := eq_of_forall₂_mirrors (fun i hi w j hi' hw => ih i hi hi' hw) htrees htrees'
          (allFinite_array_iff.1 hfinite) (allFinite_array_iff.1 hfinite')
        rw [heq]
  | object fields ih =>
    cases hv with
    | object hkeys htrees =>
      cases hw with
      | object hkeys' htrees' =>
        have hsame : ∀ v ∈ fields.map (·.2), ∀ (w : Value) (j : Json), v.Mirrors j → w.Mirrors j →
            v.AllFinite → w.AllFinite → v = w := by
          intro v hv w j
          obtain ⟨f, hf, rfl⟩ := List.mem_map.1 hv
          exact fun hv hw => ih f hf hv hw
        have hvalues := eq_of_forall₂_mirrors hsame htrees htrees' (allFinite_object_iff.1 hfinite)
          (allFinite_object_iff.1 hfinite')
        rw [OrderedMap.eq_of_keys_eq (hkeys.symm.trans hkeys') hvalues]

end Value

/-! ### Documents -/

/-- What is handed out as JSON is the evaluated document. No object in the value has a key twice, at whatever
depth it is; the JSON tree repeats the value part by part, with the same keys in the same order; and two
documents whose values have finite floats only are handed out as the same tree if and only if they have the
same value. -/
theorem json_tree_is_faithful {env env' : Environment} {config config' : Node} {e e' : Evaluation}
    (h : config.evaluate env = .ok e) (h' : config'.evaluate env' = .ok e') :
    (∀ fields : OrderedMap Value, e.value.Contains (.object fields) → fields.keys.Nodup) ∧
      e.value.Mirrors e.value.toJson ∧
      (e.value.AllFinite → e'.value.AllFinite → (e.value.toJson = e'.value.toJson ↔ e.value = e'.value)) := by
  have hkeys := Node.hasDistinctKeys_of_evaluate h
  have hkeys' := Node.hasDistinctKeys_of_evaluate h'
  refine ⟨hkeys, hkeys.mirrors_toJson, fun hfinite hfinite' => ⟨fun htree => ?_, congrArg _⟩⟩
  have hmirrors' : e'.value.Mirrors e.value.toJson := htree ▸ hkeys'.mirrors_toJson
  exact hkeys.mirrors_toJson.unique hmirrors' hfinite hfinite'

/-- One document pairs with dotted paths, one of them below a spread, and writes a key again; the other one has
the objects as they come out. Both are handed out as the same tree. -/
theorem json_tree_of_paths_and_spread :
    let half : Float := 1.5
    let number (n : Int64) : Node := .leaf .integer (.integer n)
    let pair (keys : List String) (n : Node) : Node :=
      .branch .pair [.branch .path (keys.map fun k => .leaf .pathSegment (.text k)), n]
    let items : Node := .branch .array [.branch .object [pair ["x"] (number 3)], .leaf .float (.float half)]
    let base : Node := .branch .object [pair ["a", "b"] (number 1)]
    let config : Node := .branch .config
      [.branch .assignBlock [.branch .assignment [.leaf .input (.text "$base"), .branch .value [base]]],
        .branch .object [.leaf .spread (.text "$base"), pair ["a", "c"] (number 2), pair ["a", "c"] items,
          pair ["k"] (number 4)]]
    let config' : Node := .branch .config [.branch .object
      [pair ["a"] (.branch .object [pair ["b"] (number 1), pair ["c"] items]), pair ["k"] (number 4)]]
    ∃ e e', config.evaluate .empty = .ok e ∧ config'.evaluate .empty = .ok e' ∧
      e.value.AllFinite ∧ e'.value.AllFinite ∧
      (∀ fields : OrderedMap Value, e.value.Contains (.object fields) → fields.keys.Nodup) ∧
      e.value.Mirrors e.value.toJson ∧ (e.value.toJson = e'.value.toJson ↔ e.value = e'.value) := by
  intro half number pair items base config config'
  have hhalf : half.isFinite = true := by
    decide +kernel
  clear_value half
  let fields : OrderedMap Value := [("a", .object [("b", .integer 1),
    ("c", .array [.object [("x", .integer 3)], .float half])]), ("k", .integer 4)]
  have heval : config.evaluate .empty = .ok ⟨[("$base", base)], fields⟩ := by
    cbv
  have heval' : config'.evaluate .empty = .ok ⟨[], fields⟩ := by
    cbv
  have hfinite : (Value.object fields).AllFinite := by
    have hinteger (n : Int64) : (Value.integer n).AllFinite := by
      rw [Value.allFinite_scalar_iff (by simp [Value.kind]) (by simp [Value.kind])]
      exact fun x hx => Value.noConfusion hx
    have hfloat : (Value.float half).AllFinite := by
      rw [Value.allFinite_scalar_iff (by simp [Value.kind]) (by simp [Value.kind])]
      exact fun x hx => Value.float.inj hx ▸ hhalf
    simp [fields, Value.allFinite_object_iff, Value.allFinite_array_iff, hinteger, hfloat]
  obtain ⟨hkeys, hmirrors, htold⟩ := json_tree_is_faithful heval heval'
  exact ⟨_, _, heval, heval', hfinite, hfinite, hkeys, hmirrors, htold hfinite hfinite⟩

end ConfigLang

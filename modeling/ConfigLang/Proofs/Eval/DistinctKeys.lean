import ConfigLang.Eval.Config
import ConfigLang.Proofs.Eval.Entries
import ConfigLang.Proofs.Value.Writes

/-!
# Keys are distinct

In no object of an evaluated document does a key come twice, however deep the object is in it: not in one that
pairs with dotted paths built up, nor in one that was brought in by a spread or stands in an array.

* `Value.Contains` - what is in a value, at any depth.
* `Value.HasDistinctKeys` - no object in a value has a key twice.
* `Value.HasDistinctKeys.insert`, `Value.HasDistinctKeys.merge`, `Value.HasDistinctKeys.writeAt` - what keeps
  this.
* `Yields` - all that a computation may answer with has a property.
* `Node.evaluatesDistinctly`, `Scope.resolve_yields` - it holds of all values of trees and of names.
* `Node.hasDistinctKeys_of_evaluate` - the result.
-/

namespace ConfigLang

/-! ### Values -/

namespace Value

/-- The value itself, and all that its items or fields contain. -/
inductive Contains : Value → Value → Prop
  | self (v : Value) : Contains v v
  | item {items : List Value} {i v : Value} : i ∈ items → Contains i v → Contains (.array items) v
  | field {fields : OrderedMap Value} {f : String × Value} {v : Value} :
      f ∈ fields → Contains f.2 v → Contains (.object fields) v

section Contains

variable {items : List Value} {fields : OrderedMap Value} {v w : Value}

/-- A scalar contains nothing but itself. -/
theorem contains_iff_of_scalar (harray : v.kind ≠ .array) (hobject : v.kind ≠ .object) :
    v.Contains w ↔ w = v := by
  constructor
  · intro h
    cases h with
    | self => rfl
    | item => exact absurd rfl harray
    | field => exact absurd rfl hobject
  · rintro rfl
    exact .self w

theorem contains_array_iff : (array items).Contains w ↔ w = array items ∨ ∃ i ∈ items, i.Contains w := by
  constructor
  · intro h
    cases h with
    | self => exact Or.inl rfl
    | item hi hinner => exact Or.inr ⟨_, hi, hinner⟩
  · rintro (rfl | ⟨i, hi, hinner⟩)
    · exact .self _
    · exact .item hi hinner

theorem contains_object_iff :
    (object fields).Contains w ↔ w = object fields ∨ ∃ f ∈ fields, f.2.Contains w := by
  constructor
  · intro h
    cases h with
    | self => exact Or.inl rfl
    | field hf hinner => exact Or.inr ⟨_, hf, hinner⟩
  · rintro (rfl | ⟨f, hf, hinner⟩)
    · exact .self _
    · exact .field hf hinner

end Contains

/-- No object in the value has a key twice. -/
def HasDistinctKeys (v : Value) : Prop :=
  ∀ fields : OrderedMap Value, v.Contains (.object fields) → fields.keys.Nodup

theorem hasDistinctKeys_of_scalar {v : Value} (harray : v.kind ≠ .array) (hobject : v.kind ≠ .object) :
    v.HasDistinctKeys := by
  intro fields h
  rw [← (contains_iff_of_scalar harray hobject).1 h] at hobject
  exact absurd rfl hobject

theorem hasDistinctKeys_array_iff {items : List Value} :
    (array items).HasDistinctKeys ↔ ∀ i ∈ items, i.HasDistinctKeys := by
  simp only [HasDistinctKeys, contains_array_iff, reduceCtorEq, false_or]
  exact ⟨fun h i hi fields hin => h fields ⟨i, hi, hin⟩, fun h fields ⟨i, hi, hin⟩ => h i hi fields hin⟩

theorem hasDistinctKeys_object_iff {fields : OrderedMap Value} :
    (object fields).HasDistinctKeys ↔ fields.keys.Nodup ∧ ∀ f ∈ fields, f.2.HasDistinctKeys := by
  simp only [HasDistinctKeys, contains_object_iff, object.injEq]
  constructor
  · exact fun h => ⟨h fields (Or.inl rfl), fun f hf inner hin => h inner (Or.inr ⟨f, hf, hin⟩)⟩
  · rintro ⟨hkeys, hvalues⟩ inner (rfl | ⟨f, hf, hin⟩)
    · exact hkeys
    · exact hvalues f hf inner hin

theorem hasDistinctKeys_empty : (object []).HasDistinctKeys :=
  hasDistinctKeys_object_iff.2 ⟨List.nodup_nil, fun _ hf => absurd hf List.not_mem_nil⟩

end Value

/-! ### Writes -/

namespace OrderedMap

variable {α : Type} {m : OrderedMap α} {key : String} {v : α}

/-- After a write there are the entries from before and the one written. -/
theorem mem_insert {entry : String × α} (h : entry ∈ m.insert key v) : entry ∈ m ∨ entry = (key, v) := by
  induction m with
  | nil => exact Or.inr (List.mem_singleton.1 h)
  | cons first rest ih =>
    obtain ⟨k, w⟩ := first
    by_cases hk : k = key
    · rw [insert, if_pos hk] at h
      rcases List.mem_cons.1 h with rfl | h
      · exact Or.inr (by rw [hk])
      · exact Or.inl (List.mem_cons_of_mem _ h)
    · rw [insert, if_neg hk] at h
      rcases List.mem_cons.1 h with rfl | h
      · exact Or.inl List.mem_cons_self
      · exact (ih h).imp_left (List.mem_cons_of_mem _)

/-- What is found at a key is in the map. -/
theorem mem_of_get? (h : m.get? key = some v) : (key, v) ∈ m := by
  induction m with
  | nil => cases h
  | cons first rest ih =>
    obtain ⟨k, w⟩ := first
    by_cases hk : k = key
    · rw [get?, if_pos hk] at h
      rw [hk, Option.some.inj h]
      exact List.mem_cons_self
    · rw [get?, if_neg hk] at h
      exact List.mem_cons_of_mem _ (ih h)

end OrderedMap

namespace Value.HasDistinctKeys

variable {fields others : OrderedMap Value} {value : Value}

theorem insert (h : (object fields).HasDistinctKeys) (hvalue : value.HasDistinctKeys) (key : String) :
    (object (fields.insert key value)).HasDistinctKeys := by
  obtain ⟨hkeys, hvalues⟩ := hasDistinctKeys_object_iff.1 h
  refine hasDistinctKeys_object_iff.2 ⟨OrderedMap.nodup_keys_insert hkeys key value, fun f hf => ?_⟩
  rcases OrderedMap.mem_insert hf with hf | rfl
  · exact hvalues f hf
  · exact hvalue

theorem merge (h : (object fields).HasDistinctKeys) (hothers : (object others).HasDistinctKeys) :
    (object (fields.merge others)).HasDistinctKeys := by
  have hvalues := (hasDistinctKeys_object_iff.1 hothers).2
  clear hothers
  induction others generalizing fields with
  | nil => exact h
  | cons f others ih =>
    rw [OrderedMap.merge_cons]
    exact ih (insert h (hvalues f List.mem_cons_self) f.1) fun g hg => hvalues g (List.mem_cons_of_mem f hg)

/-- The object below a key has distinct keys too. -/
theorem objectAt? (h : (object fields).HasDistinctKeys) {key : String} {inner : OrderedMap Value}
    (hinner : ConfigLang.objectAt? fields key = some inner) : (object inner).HasDistinctKeys := by
  rcases objectAt?_eq_some_iff.1 hinner with ⟨-, rfl⟩ | hget
  · exact hasDistinctKeys_empty
  · exact (hasDistinctKeys_object_iff.1 h).2 _ (OrderedMap.mem_of_get? hget)

theorem writeAt (h : (object fields).HasDistinctKeys) (hvalue : value.HasDistinctKeys) {path : List String}
    {written : OrderedMap Value} (hwrite : ConfigLang.writeAt fields path value = .ok written) :
    (object written).HasDistinctKeys := by
  induction path generalizing fields written with
  | nil => cases hwrite
  | cons key path ih =>
    by_cases hpath : path = []
    · subst hpath
      obtain rfl := Except.ok.inj hwrite
      exact insert h hvalue key
    · obtain ⟨inner, below, hinner, hbelow, rfl⟩ := exists_below_of_writeAt hwrite hpath
      exact insert h (ih (objectAt? h hinner) hbelow) key

end Value.HasDistinctKeys

/-! ### Computations -/

/-- All that the computation may answer with has the property. -/
def Yields {α : Type} (P : α → Prop) (x : Except EvalError α) : Prop := ∀ a, x = .ok a → P a

namespace Yields

variable {α β : Type} {P : α → Prop} {Q : β → Prop}

theorem ok {a : α} (ha : P a) : Yields P (.ok a) := by
  intro b h
  rwa [← Except.ok.inj h]

theorem error (e : EvalError) : Yields P (.error e) := by
  intro a h
  cases h

theorem bind {x : Except EvalError α} {f : α → Except EvalError β} (hx : Yields P x)
    (hf : ∀ a, P a → Yields Q (f a)) : Yields Q (x >>= f) := by
  intro b h
  obtain ⟨a, ha, hb⟩ := exists_of_bind_eq_ok h
  exact hf a (hx a ha) b hb

/-- Nothing is asked of what the first computation answers with. -/
theorem bind_any {x : Except EvalError α} {f : α → Except EvalError β} (hf : ∀ a, Yields Q (f a)) :
    Yields Q (x >>= f) :=
  bind (P := fun _ => True) (fun _ _ => trivial) fun a _ => hf a

end Yields

/-! ### Trees -/

namespace Node

variable {resolve : Resolver (Except EvalError)}

/-- All that evaluation does with a node keeps the keys distinct: its value has distinct keys, and so have the
fields after it as an entry. -/
structure EvaluatesDistinctly (resolve : Resolver (Except EvalError)) (n : Node) : Prop where
  eval : Yields Value.HasDistinctKeys (n.eval resolve)
  evalEntry : ∀ fields : OrderedMap Value, (Value.object fields).HasDistinctKeys →
    Yields (fun written => (Value.object written).HasDistinctKeys) (evalEntry resolve fields n)

theorem evalEntries_yields {entries : List Node} (h : ∀ e ∈ entries, e.EvaluatesDistinctly resolve)
    {fields : OrderedMap Value} (hfields : (Value.object fields).HasDistinctKeys) :
    Yields (fun written => (Value.object written).HasDistinctKeys) (evalEntries resolve fields entries) := by
  induction entries generalizing fields with
  | nil => exact .ok hfields
  | cons e entries ih =>
    rw [evalEntries]
    exact ((h e List.mem_cons_self).evalEntry fields hfields).bind fun written hwritten =>
      ih (fun e' he' => h e' (List.mem_cons_of_mem e he')) hwritten

/-- The items that an input brings into an array are those of its value. -/
theorem itemValues_yields (hres : ∀ name, Yields Value.HasDistinctKeys (resolve name)) {item : Node}
    (h : item.EvaluatesDistinctly resolve) :
    Yields (fun values => ∀ v ∈ values, v.HasDistinctKeys) (item.itemValues resolve) := by
  unfold itemValues
  split
  · refine Yields.bind_any fun name => (hres name).bind fun value hvalue => ?_
    split
    · exact .ok (Value.hasDistinctKeys_array_iff.1 hvalue)
    · exact .error _
  · rw [map_eq_pure_bind]
    refine h.eval.bind fun value hvalue => .ok ?_
    exact fun v hv => List.mem_singleton.1 hv ▸ hvalue

theorem evalItems_yields (hres : ∀ name, Yields Value.HasDistinctKeys (resolve name)) {items : List Node}
    (h : ∀ i ∈ items, i.EvaluatesDistinctly resolve) :
    Yields (fun values => ∀ v ∈ values, v.HasDistinctKeys) (evalItems resolve items) := by
  induction items with
  | nil => exact .ok fun v hv => absurd hv List.not_mem_nil
  | cons i items ih =>
    rw [evalItems_cons]
    refine (itemValues_yields hres (h i List.mem_cons_self)).bind fun values hvalues => ?_
    refine (ih fun i' hi' => h i' (List.mem_cons_of_mem i hi')).bind fun others hothers => .ok ?_
    exact fun v hv => (List.mem_append.1 hv).elim (hvalues v) (hothers v)

theorem evalEntry_yields (hres : ∀ name, Yields Value.HasDistinctKeys (resolve name)) {n : Node}
    (hchildren : ∀ c ∈ n.children, c.EvaluatesDistinctly resolve) {fields : OrderedMap Value}
    (hfields : (Value.object fields).HasDistinctKeys) :
    Yields (fun written => (Value.object written).HasDistinctKeys) (n.evalEntry resolve fields) := by
  intro written h
  rcases cases_of_evalEntry h with
    ⟨-, spread, hspread, rfl⟩ | ⟨literal, path, node, keys, value, rfl, -, hvalue, hwrite⟩
  · have hyields : Yields (fun spread => (Value.object spread).HasDistinctKeys) (n.spreadFields resolve) := by
      refine Yields.bind_any fun name => (hres name).bind fun value hvalue => ?_
      split
      · exact .ok hvalue
      · exact .error _
    exact hfields.merge (hyields spread hspread)
  · have hnode := hchildren node (by simp)
    exact hfields.writeAt (hnode.eval value hvalue) hwrite

/-- Evaluation keeps the keys distinct if the values of the names have distinct keys. -/
theorem evaluatesDistinctly (hres : ∀ name, Yields Value.HasDistinctKeys (resolve name)) (n : Node) :
    n.EvaluatesDistinctly resolve := by
  induction n using Node.induct with
  | node kind literal children ih =>
    refine ⟨?_, fun fields hfields => evalEntry_yields hres ih hfields⟩
    have hscalar : ∀ v : Value, v.kind ≠ .array → v.kind ≠ .object →
        Yields Value.HasDistinctKeys (.ok v) :=
      fun v harray hobject => .ok (Value.hasDistinctKeys_of_scalar harray hobject)
    -- Objects and arrays go on to the children; all other nodes are scalars, names or errors.
    unfold Node.eval
    split
    next heq =>
      obtain ⟨-, -, rfl⟩ := Node.mk.inj heq
      exact (evalEntries_yields ih Value.hasDistinctKeys_empty).bind fun fields hfields => .ok hfields
    next heq =>
      obtain ⟨-, -, rfl⟩ := Node.mk.inj heq
      exact (evalItems_yields hres ih).bind fun values hvalues =>
        .ok (Value.hasDistinctKeys_array_iff.2 hvalues)
    next => exact Yields.bind_any fun pieces => hscalar _ nofun nofun
    next => exact Yields.bind_any hres
    all_goals first | exact hscalar _ nofun nofun | exact .error _

theorem evalFields_yields (hres : ∀ name, Yields Value.HasDistinctKeys (resolve name)) (n : Node) :
    Yields (fun fields => (Value.object fields).HasDistinctKeys) (n.evalFields resolve) := by
  unfold evalFields
  split
  · exact evalEntries_yields (fun c _ => evaluatesDistinctly hres c) Value.hasDistinctKeys_empty
  · exact .error _

end Node

/-! ### Documents -/

/-- The values of the names have distinct keys, by the recursion that finds them. -/
theorem Scope.resolve_yields (s : Scope) (chain : List String) (name : String) :
    Yields Value.HasDistinctKeys (s.resolve chain name) := by
  fun_induction Scope.resolve s chain name with
  | case1 => exact .ok (Value.hasDistinctKeys_of_scalar nofun nofun)
  | case2 => exact .error _
  | case3 => exact .error _
  | case4 chain name _ node hbound _ ih => exact (Node.evaluatesDistinctly ih node).eval

/-- No object in the value of a document has a key twice. -/
theorem Node.hasDistinctKeys_of_evaluate {env : Environment} {config : Node} {e : Evaluation}
    (h : config.evaluate env = .ok e) : e.value.HasDistinctKeys := by
  unfold Node.evaluate Scope.evalConfig at h
  split at h
  next hkind =>
    dsimp only at h
    split at h
    next fields hfields =>
      obtain ⟨root, -, hfields⟩ := exists_of_bind_eq_ok hfields
      obtain rfl := Except.ok.inj h
      exact evalFields_yields (fun name => Scope.resolve_yields _ [] name) root fields hfields
    · cases h
  · cases h

end ConfigLang

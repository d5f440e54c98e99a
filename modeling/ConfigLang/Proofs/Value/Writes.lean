import ConfigLang.Value.Path
import Mathlib.Data.List.Nodup

/-!
# Writes

What several writes come to, for ordered maps and for paths in nested objects. A write to a key that is
there already leaves all places as they are, so it may be done earlier or later.

* `OrderedMap.insert_comm_of_mem` - writes to two keys, one of which is there already, in either order.
* `OrderedMap.merge_insert`, `OrderedMap.merge_merge` - merging a map that was built apart is the same as
  writing its entries one by one.
* `OrderedMap.keys_merge_eq_eraseDups` - keys stand in the order of the first write to each.
* `writeAt_below`, `exists_below_of_writeAt` - a write below a key is a write to the object at that key.
* `exists_writeAt_eq_map`, `writeAt_insert_of_ne` - a write does not see what other keys hold.
* `get?_of_writeAt`, `get?_of_writeAt_apart` - what is found at a path after a write.
-/

namespace ConfigLang

namespace OrderedMap

variable {α : Type} {m n : OrderedMap α} {k key : String}

/-! ### Writes to one key and to two -/

/-- Of two writes to a key the second one counts. -/
theorem insert_insert (m : OrderedMap α) (k : String) (v w : α) :
    (m.insert k v).insert k w = m.insert k w := by
  induction m with
  | nil => simp [insert]
  | cons entry rest ih =>
    obtain ⟨k', v'⟩ := entry
    by_cases hk : k' = k
    · simp [insert, hk]
    · simp only [insert, if_neg hk, ih]

/-- Writing what is there already changes nothing. -/
theorem insert_of_get? {v : α} (h : m.get? k = some v) : m.insert k v = m := by
  induction m with
  | nil => cases h
  | cons entry rest ih =>
    obtain ⟨k', v'⟩ := entry
    by_cases hk : k' = k
    · rw [get?, if_pos hk] at h
      rw [insert, if_pos hk, hk, Option.some.inj h]
    · rw [get?, if_neg hk] at h
      rw [insert, if_neg hk, ih h]

/-- A write to a key that is there already may be done before or after a write to another key. -/
theorem insert_comm_of_mem (hk : k ∈ m.keys) (hne : k ≠ key) (v w : α) :
    (m.insert key w).insert k v = (m.insert k v).insert key w := by
  induction m with
  | nil => exact absurd hk List.not_mem_nil
  | cons entry rest ih =>
    obtain ⟨k', v'⟩ := entry
    by_cases hfirst : k' = k
    · subst hfirst
      simp [insert, hne]
    · have hrest : k ∈ keys rest := (List.mem_cons.1 hk).resolve_left (Ne.symm hfirst)
      by_cases hkey : k' = key
      · subst hkey
        simp [insert, hfirst]
      · simp only [insert, if_neg hfirst, if_neg hkey, ih hrest]

theorem mem_keys_insert (m : OrderedMap α) (k : String) (v : α) : k ∈ (m.insert k v).keys := by
  rw [keys_insert]
  split
  next h => exact h
  next => exact List.mem_append_right _ (List.mem_singleton_self k)

theorem mem_keys_insert_of_mem (hk : k ∈ m.keys) (key : String) (v : α) :
    k ∈ (m.insert key v).keys := by
  rw [keys_insert]
  split
  · exact hk
  · exact List.mem_append_left _ hk

/-- A write does not make a key come twice. -/
theorem nodup_keys_insert (hm : m.keys.Nodup) (k : String) (v : α) : (m.insert k v).keys.Nodup := by
  rw [keys_insert]
  split
  · exact hm
  next hk => exact List.nodup_append'.2 ⟨hm, List.nodup_singleton k, by simpa using hk⟩

/-! ### Merging -/

theorem merge_cons (m : OrderedMap α) (k : String) (v : α) (rest : OrderedMap α) :
    m.merge ((k, v) :: rest) = (m.insert k v).merge rest := rfl

theorem nodup_keys_merge (hm : m.keys.Nodup) (n : OrderedMap α) : (m.merge n).keys.Nodup := by
  induction n generalizing m with
  | nil => exact hm
  | cons entry rest ih => exact ih (nodup_keys_insert hm entry.1 entry.2)

/-- What is merged in says nothing of other keys. -/
theorem get?_merge_of_not_mem (hk : k ∉ n.keys) : (m.merge n).get? k = m.get? k := by
  induction n generalizing m with
  | nil => rfl
  | cons entry rest ih =>
    obtain ⟨k', v'⟩ := entry
    obtain ⟨hne, hrest⟩ := not_or.1 (mt List.mem_cons.2 hk)
    rw [merge_cons, ih hrest, get?_insert, if_neg (Ne.symm hne)]

/-- A write to a key that is there already may be done before or after a merge that does not have it. -/
theorem insert_merge_of_mem (hk : k ∈ m.keys) (hn : k ∉ n.keys) (v : α) :
    (m.insert k v).merge n = (m.merge n).insert k v := by
  induction n generalizing m with
  | nil => rfl
  | cons entry rest ih =>
    obtain ⟨k', v'⟩ := entry
    obtain ⟨hne, hrest⟩ := not_or.1 (mt List.mem_cons.2 hn)
    rw [merge_cons, merge_cons, ← insert_comm_of_mem hk hne, ih (mem_keys_insert_of_mem hk k' v') hrest]

/-- Merging a map with one more write is merging the map and then writing. -/
theorem merge_insert (hn : n.keys.Nodup) (m : OrderedMap α) (k : String) (v : α) :
    m.merge (n.insert k v) = (m.merge n).insert k v := by
  induction n generalizing m with
  | nil => rfl
  | cons entry rest ih =>
    obtain ⟨k', v'⟩ := entry
    obtain ⟨hnew, hrest⟩ := List.nodup_cons.1 hn
    by_cases hk : k' = k
    · subst hk
      rw [insert, if_pos rfl, merge_cons, merge_cons,
        ← insert_merge_of_mem (mem_keys_insert m k' v') hnew, insert_insert]
    · rw [insert, if_neg hk, merge_cons, merge_cons, ih hrest]

/-- Merging may be done in parts. -/
theorem merge_merge (hn : n.keys.Nodup) (m l : OrderedMap α) :
    m.merge (n.merge l) = (m.merge n).merge l := by
  induction l generalizing n with
  | nil => rfl
  | cons entry rest ih =>
    obtain ⟨k, v⟩ := entry
    rw [merge_cons, merge_cons, ih (nodup_keys_insert hn k v), merge_insert hn]

/-! ### The order of keys -/

/-- A write adds its key to the ones written so far. -/
theorem keys_insert_eq_eraseDups {written : List String} (hm : m.keys = written.eraseDups) (k : String)
    (v : α) : (m.insert k v).keys = (written ++ [k]).eraseDups := by
  rw [keys_insert, hm, List.eraseDups_append]
  by_cases hk : k ∈ written
  · have hnone : [k].removeAll written = [] := by simp [List.removeAll, hk]
    rw [if_pos (List.mem_eraseDups.2 hk), hnone, List.eraseDups_nil, List.append_nil]
  · have hone : [k].removeAll written = [k] := by simp [List.removeAll, hk]
    rw [if_neg (mt List.mem_eraseDups.1 hk), hone, List.eraseDups_cons]
    rfl

/-- A merge adds its keys to the ones written so far. -/
theorem keys_merge_eq_eraseDups {written : List String} (hm : m.keys = written.eraseDups)
    (n : OrderedMap α) : (m.merge n).keys = (written ++ n.keys).eraseDups := by
  induction n generalizing m written with
  | nil =>
    show m.keys = (written ++ []).eraseDups
    rw [List.append_nil, hm]
  | cons entry rest ih =>
    obtain ⟨k, v⟩ := entry
    rw [merge_cons, ih (keys_insert_eq_eraseDups hm k v), List.append_assoc]
    rfl

end OrderedMap

/-! ### Paths -/

/-- At a path that begins with a key, an object has what its value at the key has at the rest of it. -/
theorem Value.get?_object_cons (fields : OrderedMap Value) (key : String) (path : List String) :
    (object fields).get? (key :: path) = (fields.get? key).bind fun v => v.get? path := by
  cases hkey : fields.get? key with
  | none => simp [get?, fields?, hkey]
  | some v => simp [get?, fields?, hkey]

/-- The object below a key: the one that is there, and an empty one if there is nothing. -/
def objectAt? (fields : OrderedMap Value) (key : String) : Option (OrderedMap Value) :=
  match fields.get? key with
  | none => some []
  | some v => v.fields?

section Writes

variable {fields written inner : OrderedMap Value} {key k : String} {path other : List String}
  {value : Value}

theorem objectAt?_eq_some_iff :
    objectAt? fields key = some inner ↔
      fields.get? key = none ∧ inner = [] ∨ fields.get? key = some (.object inner) := by
  unfold objectAt?
  cases fields.get? key with
  | none => simp [eq_comm]
  | some v => cases v <;> simp [Value.fields?]

/-- There is no object below a key that holds another value. -/
theorem objectAt?_eq_none_iff :
    objectAt? fields key = none ↔ ∃ v, fields.get? key = some v ∧ v.kind ≠ .object := by
  unfold objectAt?
  cases fields.get? key with
  | none => simp
  | some v => cases v <;> simp [Value.fields?, Value.kind]

theorem objectAt?_insert_object (fields : OrderedMap Value) (key : String) (inner : OrderedMap Value) :
    objectAt? (fields.insert key (.object inner)) key = some inner := by
  rw [objectAt?_eq_some_iff, OrderedMap.get?_insert, if_pos rfl]
  exact Or.inr rfl

/-- What is below a key is what is in the object below it. -/
theorem get?_object_of_objectAt? (h : objectAt? fields key = some inner) (hpath : path ≠ []) :
    (Value.object fields).get? (key :: path) = (Value.object inner).get? path := by
  obtain ⟨next, path, rfl⟩ := List.exists_cons_of_ne_nil hpath
  rw [Value.get?_object_cons]
  rcases objectAt?_eq_some_iff.1 h with ⟨hnone, rfl⟩ | hsome
  · rw [hnone, Value.get?_object_cons]
    rfl
  · rw [hsome]
    rfl

/-- A write below a key is a write to the object at that key. -/
theorem writeAt_below (h : objectAt? fields key = some inner) (hpath : path ≠ []) (value : Value) :
    writeAt fields (key :: path) value =
      (writeAt inner path value).map fun below => fields.insert key (.object below) := by
  obtain ⟨next, path, rfl⟩ := List.exists_cons_of_ne_nil hpath
  rw [writeAt]
  rcases objectAt?_eq_some_iff.1 h with ⟨hget, rfl⟩ | hget <;>
  · simp only [hget]
    cases writeAt _ (next :: path) value <;> rfl

/-- A write does not go on below a key that holds another value than an object. -/
theorem writeAt_of_not_object {v : Value} (hget : fields.get? key = some v)
    (hv : v.kind ≠ .object) (hpath : path ≠ []) (value : Value) :
    writeAt fields (key :: path) value = .error (.blocked key v.kind) := by
  obtain ⟨next, rest, rfl⟩ := List.exists_cons_of_ne_nil hpath
  rw [writeAt, hget]
  cases v with
  | object fields => exact absurd rfl hv
  | _ => rfl

/-- There is no write below a key that holds another value. -/
theorem exists_writeAt_eq_error (h : objectAt? fields key = none) (hpath : path ≠ []) :
    ∃ e, ∀ value, writeAt fields (key :: path) value = .error e := by
  obtain ⟨v, hget, hkind⟩ := objectAt?_eq_none_iff.1 h
  exact ⟨.blocked key v.kind, writeAt_of_not_object hget hkind hpath⟩

/-- All that a write below a key can be. -/
theorem exists_below_of_writeAt (h : writeAt fields (key :: path) value = .ok written)
    (hpath : path ≠ []) :
    ∃ inner below, objectAt? fields key = some inner ∧ writeAt inner path value = .ok below ∧
      written = fields.insert key (.object below) := by
  cases hinner : objectAt? fields key with
  | none =>
    obtain ⟨e, he⟩ := exists_writeAt_eq_error hinner hpath
    rw [he] at h
    cases h
  | some inner =>
    rw [writeAt_below hinner hpath] at h
    cases hbelow : writeAt inner path value with
    | error e =>
      rw [hbelow] at h
      cases h
    | ok below =>
      rw [hbelow] at h
      exact ⟨inner, below, rfl, hbelow, (Except.ok.inj h).symm⟩

/-- Two writes below a key are two writes to the object at that key. -/
theorem writeAt_below_twice (h : objectAt? fields key = some inner) (hpath : path ≠ [])
    (hother : other ≠ []) (value value' : Value) :
    (writeAt fields (key :: path) value >>= fun written => writeAt written (key :: other) value') =
      (writeAt inner path value >>= fun below => writeAt below other value').map fun below =>
        fields.insert key (.object below) := by
  rw [writeAt_below h hpath]
  cases writeAt inner path value with
  | error e => rfl
  | ok below =>
    show writeAt (fields.insert key (.object below)) (key :: other) value' =
      (writeAt below other value').map fun below => fields.insert key (.object below)
    rw [writeAt_below (objectAt?_insert_object fields key below) hother]
    simp only [OrderedMap.insert_insert]

/-- A write at a path is a write to the first key of the path. -/
theorem exists_eq_insert_of_writeAt (h : writeAt fields (key :: path) value = .ok written) :
    ∃ v, written = fields.insert key v := by
  by_cases hpath : path = []
  · rw [hpath] at h
    exact ⟨value, (Except.ok.inj h).symm⟩
  · obtain ⟨_, below, -, -, hwritten⟩ := exists_below_of_writeAt h hpath
    exact ⟨.object below, hwritten⟩

/-- What a write puts at the first key of its path depends on what is at that key only. -/
theorem exists_writeAt_eq_map (fields : OrderedMap Value) (key : String) (path : List String)
    (value : Value) :
    ∃ x : Except PathError Value, ∀ others : OrderedMap Value, others.get? key = fields.get? key →
      writeAt others (key :: path) value = x.map fun v => others.insert key v := by
  by_cases hpath : path = []
  · subst hpath
    exact ⟨.ok value, fun others _ => rfl⟩
  · cases hinner : objectAt? fields key with
    | none =>
      obtain ⟨v, hv, hkind⟩ := objectAt?_eq_none_iff.1 hinner
      refine ⟨.error (.blocked key v.kind), fun others hget => ?_⟩
      rw [writeAt_of_not_object (hget.trans hv) hkind hpath]
      rfl
    | some inner =>
      refine ⟨(writeAt inner path value).map .object, fun others hget => ?_⟩
      have hothers : objectAt? others key = some inner := by
        rw [← hinner, objectAt?, objectAt?, hget]
      rw [writeAt_below hothers hpath]
      cases writeAt inner path value <;> rfl

/-- A write is the same whatever another key holds. -/
theorem writeAt_insert_of_ne (hk : k ∈ fields.keys) (hne : k ≠ key) (v : Value) (path : List String)
    (value : Value) :
    writeAt (fields.insert k v) (key :: path) value =
      (writeAt fields (key :: path) value).map fun written => written.insert k v := by
  have hget : (fields.insert k v).get? key = fields.get? key := by
    rw [OrderedMap.get?_insert, if_neg hne]
  obtain ⟨x, hx⟩ := exists_writeAt_eq_map fields key path value
  rw [hx _ hget, hx fields rfl]
  cases x with
  | error e => rfl
  | ok w => exact congrArg Except.ok (OrderedMap.insert_comm_of_mem hk hne v w).symm

/-! ### What is found after a write -/

/-- After a write the value is found at its path. -/
theorem get?_of_writeAt (h : writeAt fields path value = .ok written) :
    (Value.object written).get? path = some value := by
  induction path generalizing fields written with
  | nil => cases h
  | cons key path ih =>
    by_cases hpath : path = []
    · subst hpath
      obtain rfl := Except.ok.inj h
      rw [Value.get?_object_cons, OrderedMap.get?_insert, if_pos rfl]
      rfl
    · obtain ⟨inner, below, -, hbelow, rfl⟩ := exists_below_of_writeAt h hpath
      rw [Value.get?_object_cons, OrderedMap.get?_insert, if_pos rfl]
      exact ih hbelow

/-- At a path that is apart from the one of the write everything is as before. -/
theorem get?_of_writeAt_apart (h : writeAt fields path value = .ok written) (hpath : ¬ path <+: other)
    (hother : ¬ other <+: path) :
    (Value.object written).get? other = (Value.object fields).get? other := by
  induction path generalizing fields written other with
  | nil => exact absurd List.nil_prefix hpath
  | cons key path ih =>
    cases other with
    | nil => exact absurd List.nil_prefix hother
    | cons k other =>
      by_cases hk : key = k
      · subst hk
        rw [List.cons_prefix_cons, not_and] at hpath hother
        have hne : path ≠ [] := by
          rintro rfl
          exact hpath rfl List.nil_prefix
        have hne' : other ≠ [] := by
          rintro rfl
          exact hother rfl List.nil_prefix
        obtain ⟨inner, below, hinner, hbelow, rfl⟩ := exists_below_of_writeAt h hne
        rw [get?_object_of_objectAt? hinner hne', Value.get?_object_cons, OrderedMap.get?_insert,
          if_pos rfl]
        exact ih hbelow (hpath rfl) (hother rfl)
      · obtain ⟨v, rfl⟩ := exists_eq_insert_of_writeAt h
        rw [Value.get?_object_cons, Value.get?_object_cons, OrderedMap.get?_insert, if_neg hk]

end Writes

end ConfigLang

import ConfigLang.Proofs.Value.Writes

/-!
# The laws of a write

A write at a path is a lawful one: what was written is found, what is apart from the path is as it was, the
objects on the way keep the order of their keys, and a second write at the same path leaves nothing of
the first.

* `Value.getDotted?_intercalate` - keys without dots are found at the path that has dots between them.
* `fieldsAt` - the fields of the object at a path.
* `keys_of_writeAt` - an object on the way gets at most one new key, and that at its end.
* `writeAt_writeAt` - of two writes at a path the second one counts.
* `writes_are_lawful` - the result.
-/

namespace ConfigLang

/-- The path written with dots between keys that have none stands for these keys. -/
theorem Value.getDotted?_intercalate {path : List String} (hpath : path ≠ [])
    (hdots : ∀ key ∈ path, '.' ∉ key.toList) (v : Value) :
    v.getDotted? (".".intercalate path) = v.get? path := by
  have hpieces : ∀ piece ∈ path.map String.toList, '.' ∉ piece := by
    intro piece hpiece
    obtain ⟨key, hkey, rfl⟩ := List.mem_map.1 hpiece
    exact hdots key hkey
  have hsplit : Text.splitAt '.' (".".intercalate path).toList = path.map String.toList := by
    rw [String.toList_intercalate]
    exact Text.splitAt_intercalate (mt List.map_eq_nil_iff.1 hpath) hpieces
  have hkeys : (path.map String.toList).map String.ofList = path := by
    rw [List.map_map]
    exact List.map_id'' (fun _ => String.ofList_toList) path
  rw [getDotted?, hsplit, hkeys]

/-- The fields of the object at a path; none if nothing is there. -/
def fieldsAt (fields : OrderedMap Value) (path : List String) : OrderedMap Value :=
  (((Value.object fields).get? path).bind Value.fields?).getD []

section Writes

variable {fields written inner : OrderedMap Value} {path before behind : List String} {key k : String}
  {value : Value}

theorem fieldsAt_cons (h : objectAt? fields k = some inner) (path : List String) :
    fieldsAt fields (k :: path) = fieldsAt inner path := by
  rw [fieldsAt, fieldsAt, Value.get?_object_cons]
  rcases objectAt?_eq_some_iff.1 h with ⟨hget, rfl⟩ | hget
  · rw [hget]
    cases path <;> rfl
  · rw [hget]
    rfl

/-- After a write there is an object at each place on the way to its path. Its keys are the ones from
before in their order, and the next key of the path behind them if it was not among them. -/
theorem keys_of_writeAt (h : writeAt fields (before ++ key :: behind) value = .ok written) :
    ∃ inner : OrderedMap Value, (Value.object written).get? before = some (.object inner) ∧
      inner.keys = if key ∈ (fieldsAt fields before).keys then (fieldsAt fields before).keys
        else (fieldsAt fields before).keys ++ [key] := by
  induction before generalizing fields written with
  | nil =>
    obtain ⟨v, rfl⟩ := exists_eq_insert_of_writeAt h
    exact ⟨fields.insert key v, rfl, OrderedMap.keys_insert fields key v⟩
  | cons k before ih =>
    have hpath : before ++ key :: behind ≠ [] :=
      List.append_ne_nil_of_right_ne_nil before (List.cons_ne_nil key behind)
    obtain ⟨inner, below, hinner, hbelow, rfl⟩ := exists_below_of_writeAt h hpath
    rw [fieldsAt_cons hinner, Value.get?_object_cons, OrderedMap.get?_insert, if_pos rfl]
    exact ih hbelow

/-- A write at a path where there has been one succeeds, and nothing is left of the first. -/
theorem writeAt_writeAt (h : writeAt fields path value = .ok written) (other : Value) :
    ∃ again, writeAt fields path other = .ok again ∧ writeAt written path other = .ok again := by
  induction path generalizing fields written with
  | nil => cases h
  | cons key path ih =>
    by_cases hpath : path = []
    · subst hpath
      obtain rfl := Except.ok.inj h
      refine ⟨fields.insert key other, rfl, ?_⟩
      rw [writeAt, OrderedMap.insert_insert]
    · obtain ⟨inner, below, hinner, hbelow, rfl⟩ := exists_below_of_writeAt h hpath
      obtain ⟨again, hfirst, hsecond⟩ := ih hbelow
      refine ⟨fields.insert key (.object again), ?_, ?_⟩
      · rw [writeAt_below hinner hpath, hfirst]
        rfl
      · rw [writeAt_below (objectAt?_insert_object fields key below) hpath, hsecond]
        exact congrArg Except.ok (OrderedMap.insert_insert fields key _ _)

/-! ### The result -/

/-- After a write the value is found at its path, also at the path with dots if no key has any. At paths
apart from it everything is as it was. An object on the way keeps its keys in order and gets at most one
more, at the end. Another write at the path gives what it would have given without the first one. -/
theorem writes_are_lawful (h : writeAt fields path value = .ok written) :
    (Value.object written).get? path = some value ∧
    ((∀ key ∈ path, '.' ∉ key.toList) →
      (Value.object written).getDotted? (".".intercalate path) = some value) ∧
    (∀ other, ¬ path <+: other → ¬ other <+: path →
      (Value.object written).get? other = (Value.object fields).get? other) ∧
    (∀ before key behind, path = before ++ key :: behind →
      ∃ inner : OrderedMap Value, (Value.object written).get? before = some (.object inner) ∧
        inner.keys = if key ∈ (fieldsAt fields before).keys then (fieldsAt fields before).keys
          else (fieldsAt fields before).keys ++ [key]) ∧
    ∀ other, ∃ again, writeAt fields path other = .ok again ∧ writeAt written path other = .ok again := by
  have hfound := get?_of_writeAt h
  have hpath : path ≠ [] := by
    rintro rfl
    cases h
  refine ⟨hfound, fun hdots => ?_, fun other hother hpath => ?_, fun before key behind hsplit => ?_,
    writeAt_writeAt h⟩
  · rw [Value.getDotted?_intercalate hpath hdots]
    exact hfound
  · exact get?_of_writeAt_apart h hother hpath
  · rw [hsplit] at h
    exact keys_of_writeAt h

/-- A write at an empty key in an object that has another one: the old key stays in front, and the value is
found at the path that ends with a dot. -/
theorem value_written_at_an_empty_key_is_found :
    writeAt [("a", .object [("b", .integer 1)])] ["a", ""] .null =
      .ok [("a", .object [("b", .integer 1), ("", .null)])] ∧
    (Value.object [("a", .object [("b", .integer 1), ("", .null)])]).getDotted? "a." = some .null := by
  have h : writeAt [("a", .object [("b", .integer 1)])] ["a", ""] .null =
      .ok [("a", .object [("b", .integer 1), ("", .null)])] := rfl
  obtain ⟨-, hdotted, -⟩ := writes_are_lawful h
  exact ⟨h, hdotted (by decide)⟩

end Writes

end ConfigLang

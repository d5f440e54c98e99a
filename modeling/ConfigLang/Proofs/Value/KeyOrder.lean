import ConfigLang.Proofs.Value.Writes

/-!
# The order of keys

Values that are the same but for the order of keys, and computations that both fail or both give such
values. Writes and merges do not look at the order, so they keep the relation, and two writes at paths
apart from each other may be done in either order.

* `Value.EqUpToOrder` - the same value but for the order of keys, in objects at every depth.
* `SameFields` - the same for the fields of two objects.
* `AgreeUpTo` - both computations fail, or both give related values.
* `SameFields.insert`, `SameFields.merge`, `SameFields.writeAt` - what keeps the relation.
* `agree_writeAt_comm` - writes at two paths apart from each other, in either order.
-/

namespace ConfigLang

/-! ### Values -/

/-- The same value but for the order of keys: two objects have the same keys, in some order each, and at
each key values that are the same but for the order of keys. All else is equal. -/
inductive Value.EqUpToOrder : Value → Value → Prop
  | refl (v : Value) : EqUpToOrder v v
  | object {fields fields' : OrderedMap Value} (keys : fields.keys.Perm fields'.keys)
      (values : ∀ key v v', fields.get? key = some v → fields'.get? key = some v' → EqUpToOrder v v') :
      EqUpToOrder (.object fields) (.object fields')

/-- Fields with the same keys in some order each and with values that are the same but for the order of
keys. -/
structure SameFields (fields fields' : OrderedMap Value) : Prop where
  keys : fields.keys.Perm fields'.keys
  values : ∀ key v v', fields.get? key = some v → fields'.get? key = some v' → v.EqUpToOrder v'

section Fields

variable {fields fields' inner : OrderedMap Value} {key : String} {v v' : Value}

theorem SameFields.refl (fields : OrderedMap Value) : SameFields fields fields := by
  refine ⟨.refl _, fun key v v' hv hv' => ?_⟩
  obtain rfl := Option.some.inj (hv.symm.trans hv')
  exact .refl v

theorem Value.eqUpToOrder_object_iff :
    (object fields).EqUpToOrder (object fields') ↔ SameFields fields fields' := by
  constructor
  · intro h
    cases h with
    | refl => exact .refl fields
    | object keys values => exact ⟨keys, values⟩
  · rintro ⟨keys, values⟩
    exact .object keys values

/-- Related values are equal, or they are objects with related fields. -/
theorem Value.EqUpToOrder.eq_or_objects (h : v.EqUpToOrder v') :
    v = v' ∨ ∃ fields fields', v = .object fields ∧ v' = .object fields' ∧ SameFields fields fields' := by
  cases h with
  | refl => exact Or.inl rfl
  | object keys values => exact Or.inr ⟨_, _, rfl, rfl, keys, values⟩

namespace SameFields

/-- At each key there are related values, or none in either. -/
theorem get? (h : SameFields fields fields') (key : String) :
    fields.get? key = none ∧ fields'.get? key = none ∨
      ∃ v v', fields.get? key = some v ∧ fields'.get? key = some v' ∧ v.EqUpToOrder v' := by
  have hmem : (fields.get? key).isSome ↔ (fields'.get? key).isSome := by
    rw [OrderedMap.get?_isSome_iff, OrderedMap.get?_isSome_iff, h.keys.mem_iff]
  cases hv : fields.get? key with
  | none =>
    cases hv' : fields'.get? key with
    | none => exact Or.inl ⟨rfl, rfl⟩
    | some v' => simp [hv, hv'] at hmem
  | some v =>
    cases hv' : fields'.get? key with
    | none => simp [hv, hv'] at hmem
    | some v' => exact Or.inr ⟨v, v', rfl, rfl, h.values key v v' hv hv'⟩

/-- Below each key there are related objects, or none in either. -/
theorem objectAt? (h : SameFields fields fields') (key : String) :
    ConfigLang.objectAt? fields key = none ∧ ConfigLang.objectAt? fields' key = none ∨
      ∃ inner inner', ConfigLang.objectAt? fields key = some inner ∧
        ConfigLang.objectAt? fields' key = some inner' ∧ SameFields inner inner' := by
  unfold ConfigLang.objectAt?
  rcases h.get? key with ⟨hv, hv'⟩ | ⟨v, v', hv, hv', hrel⟩
  · rw [hv, hv']
    exact Or.inr ⟨[], [], rfl, rfl, .refl []⟩
  · rw [hv, hv']
    rcases hrel.eq_or_objects with rfl | ⟨inner, inner', rfl, rfl, hinner⟩
    · cases hfields : v.fields? with
      | none => exact Or.inl ⟨hfields, hfields⟩
      | some inner => exact Or.inr ⟨inner, inner, hfields, hfields, .refl inner⟩
    · exact Or.inr ⟨inner, inner', rfl, rfl, hinner⟩

/-- Related values written at a key. -/
theorem insert (h : SameFields fields fields') (key : String) (hv : v.EqUpToOrder v') :
    SameFields (fields.insert key v) (fields'.insert key v') := by
  refine ⟨?_, fun k w w' hw hw' => ?_⟩
  · rw [OrderedMap.keys_insert, OrderedMap.keys_insert]
    by_cases hkey : key ∈ fields.keys
    · rw [if_pos hkey, if_pos (h.keys.mem_iff.1 hkey)]
      exact h.keys
    · rw [if_neg hkey, if_neg (mt h.keys.mem_iff.2 hkey)]
      exact h.keys.append_right [key]
  · rw [OrderedMap.get?_insert] at hw hw'
    by_cases hk : key = k
    · rw [if_pos hk] at hw hw'
      rw [← Option.some.inj hw, ← Option.some.inj hw']
      exact hv
    · rw [if_neg hk] at hw hw'
      exact h.values k w w' hw hw'

/-- The same fields merged in. -/
theorem merge (h : SameFields fields fields') (others : OrderedMap Value) :
    SameFields (fields.merge others) (fields'.merge others) := by
  induction others generalizing fields fields' with
  | nil => exact h
  | cons entry rest ih =>
    rw [OrderedMap.merge_cons, OrderedMap.merge_cons]
    exact ih (h.insert entry.1 (.refl entry.2))

/-- Values written at two keys, in either order. -/
theorem insert_comm {k : String} (hk : key ≠ k) (fields : OrderedMap Value) (v v' : Value) :
    SameFields ((fields.insert key v).insert k v') ((fields.insert k v').insert key v) := by
  refine ⟨?_, fun other w w' hw hw' => ?_⟩
  · have hne : k ≠ key := Ne.symm hk
    simp only [OrderedMap.keys_insert]
    by_cases hkey : key ∈ fields.keys
    · by_cases hk' : k ∈ fields.keys <;> simp [hkey, hk']
    · by_cases hk' : k ∈ fields.keys
      · simp [hkey, hk']
      · simpa [hkey, hk', hk, hne] using (List.Perm.swap k key []).append_left fields.keys
  · have heq : ((fields.insert key v).insert k v').get? other =
        ((fields.insert k v').insert key v).get? other := by
      simp only [OrderedMap.get?_insert]
      by_cases hother : key = other
      · rw [if_neg fun h => hk (hother.trans h.symm), if_pos hother, if_pos hother]
      · rw [if_neg hother, if_neg hother]
    rw [hw, hw'] at heq
    rw [Option.some.inj heq]
    exact .refl w'

end SameFields

end Fields

/-! ### Computations -/

/-- Both computations fail, or both give values in a relation. -/
inductive AgreeUpTo {ε α : Type} (R : α → α → Prop) : Except ε α → Except ε α → Prop
  | fail (e e' : ε) : AgreeUpTo R (.error e) (.error e')
  | give {a a' : α} (h : R a a') : AgreeUpTo R (.ok a) (.ok a')

namespace AgreeUpTo

variable {ε α β : Type} {R : α → α → Prop} {S : β → β → Prop} {x y : Except ε α}

/-- Going on from related values in ways that agree. -/
theorem bind {f g : α → Except ε β} (h : AgreeUpTo R x y)
    (hfg : ∀ a a', R a a' → AgreeUpTo S (f a) (g a')) : AgreeUpTo S (x >>= f) (y >>= g) := by
  cases h with
  | fail e e' => exact .fail e e'
  | give h => exact hfg _ _ h

theorem map {f g : α → β} (h : AgreeUpTo R x y) (hfg : ∀ a a', R a a' → S (f a) (g a')) :
    AgreeUpTo S (x.map f) (y.map g) := by
  cases h with
  | fail e e' => exact .fail e e'
  | give h => exact .give (hfg _ _ h)

theorem mapError {ε' : Type} (f : ε → ε') (h : AgreeUpTo R x y) :
    AgreeUpTo R (x.mapError f) (y.mapError f) := by
  cases h with
  | fail e e' => exact .fail (f e) (f e')
  | give h => exact .give h

end AgreeUpTo

/-! ### Writes -/

variable {fields fields' : OrderedMap Value} {key k : String} {path path' : List String}

/-- A write does not look at the order of keys. -/
theorem SameFields.writeAt (h : SameFields fields fields') (path : List String) (value : Value) :
    AgreeUpTo SameFields (ConfigLang.writeAt fields path value)
      (ConfigLang.writeAt fields' path value) := by
  induction path generalizing fields fields' with
  | nil => exact .fail PathError.emptyPath PathError.emptyPath
  | cons key path ih =>
    by_cases hpath : path = []
    · subst hpath
      exact .give (h.insert key (.refl value))
    · rcases h.objectAt? key with ⟨hnone, hnone'⟩ | ⟨inner, inner', hinner, hinner', hrel⟩
      · obtain ⟨e, he⟩ := exists_writeAt_eq_error hnone hpath
        obtain ⟨e', he'⟩ := exists_writeAt_eq_error hnone' hpath
        rw [he, he']
        exact .fail e e'
      · rw [writeAt_below hinner hpath, writeAt_below hinner' hpath]
        exact (ih hrel).map fun below below' hbelow =>
          h.insert key (Value.eqUpToOrder_object_iff.2 hbelow)

/-- Writes at two paths that begin with different keys, in either order. -/
theorem agree_writeAt_comm_of_ne (hk : key ≠ k) (fields : OrderedMap Value)
    (path path' : List String) (value value' : Value) :
    AgreeUpTo SameFields
      (writeAt fields (key :: path) value >>= fun written => writeAt written (k :: path') value')
      (writeAt fields (k :: path') value' >>= fun written => writeAt written (key :: path) value) := by
  obtain ⟨x, hx⟩ := exists_writeAt_eq_map fields key path value
  obtain ⟨y, hy⟩ := exists_writeAt_eq_map fields k path' value'
  have hy' : ∀ v, writeAt (fields.insert key v) (k :: path') value' =
      y.map fun v' => (fields.insert key v).insert k v' :=
    fun v => hy _ (by rw [OrderedMap.get?_insert, if_neg hk])
  have hx' : ∀ v', writeAt (fields.insert k v') (key :: path) value =
      x.map fun v => (fields.insert k v').insert key v :=
    fun v' => hx _ (by rw [OrderedMap.get?_insert, if_neg (Ne.symm hk)])
  rw [hx fields rfl, hy fields rfl]
  cases x with
  | error e =>
    cases y with
    | error e' => exact .fail e e'
    | ok v' =>
      show AgreeUpTo SameFields (.error e) (writeAt (fields.insert k v') (key :: path) value)
      rw [hx']
      exact .fail e e
  | ok v =>
    cases y with
    | error e' =>
      show AgreeUpTo SameFields (writeAt (fields.insert key v) (k :: path') value') (.error e')
      rw [hy']
      exact .fail e' e'
    | ok v' =>
      show AgreeUpTo SameFields (writeAt (fields.insert key v) (k :: path') value')
        (writeAt (fields.insert k v') (key :: path) value)
      rw [hx', hy']
      exact .give (.insert_comm hk fields v v')

/-- Writes at two paths of which neither begins with the other, in either order. The order of the keys may
differ: a key that both add comes earlier if its write does. -/
theorem agree_writeAt_comm (hpath : ¬ path <+: path') (hpath' : ¬ path' <+: path)
    (fields : OrderedMap Value) (value value' : Value) :
    AgreeUpTo SameFields
      (writeAt fields path value >>= fun written => writeAt written path' value')
      (writeAt fields path' value' >>= fun written => writeAt written path value) := by
  induction path generalizing fields path' with
  | nil => exact absurd List.nil_prefix hpath
  | cons key path ih =>
    cases path' with
    | nil => exact absurd List.nil_prefix hpath'
    | cons k path' =>
      by_cases hk : key = k
      · -- Both writes go on in the object below the key.
        subst hk
        rw [List.cons_prefix_cons, not_and] at hpath hpath'
        have hne : path ≠ [] := by
          rintro rfl
          exact hpath rfl List.nil_prefix
        have hne' : path' ≠ [] := by
          rintro rfl
          exact hpath' rfl List.nil_prefix
        cases hinner : objectAt? fields key with
        | none =>
          obtain ⟨e, he⟩ := exists_writeAt_eq_error hinner hne
          obtain ⟨e', he'⟩ := exists_writeAt_eq_error hinner hne'
          rw [he, he']
          exact .fail e e'
        | some inner =>
          rw [writeAt_below_twice hinner hne hne', writeAt_below_twice hinner hne' hne]
          exact (ih (hpath rfl) (hpath' rfl) inner).map fun below below' hrel =>
            (SameFields.refl fields).insert key (Value.eqUpToOrder_object_iff.2 hrel)
      · exact agree_writeAt_comm_of_ne hk fields path path' value value'

end ConfigLang

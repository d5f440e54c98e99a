/-!
# Ordered maps

A map from strings that remembers the order in which its keys were first written. Writing an
existing key changes its value in place; writing a new one adds it at the end.

* `OrderedMap.get?`, `OrderedMap.insert`, `OrderedMap.merge` - reading and writing.
* `OrderedMap.getOrInsert` - both in one.
* `OrderedMap.get?_insert` - what a write does to the values.
* `OrderedMap.keys_insert` - what a write does to the keys.
-/

namespace ConfigLang

/-- Entries in the order in which their keys were first written. -/
abbrev OrderedMap (α : Type) := List (String × α)

namespace OrderedMap

variable {α : Type}

/-- The keys in order. -/
def keys (m : OrderedMap α) : List String := m.map (·.1)

/-- The value of a key. -/
def get? : OrderedMap α → String → Option α
  | [], _ => none
  | (k, v) :: rest, key => if k = key then some v else get? rest key

/-- Writes a key: in place if it is there, at the end otherwise. -/
def insert : OrderedMap α → String → α → OrderedMap α
  | [], key, value => [(key, value)]
  | (k, v) :: rest, key, value =>
    if k = key then (k, value) :: rest else (k, v) :: insert rest key value

/-- The value of a key, and the map with a default value written for the key if it had none. -/
def getOrInsert (m : OrderedMap α) (key : String) (default : α) : α × OrderedMap α :=
  match m.get? key with
  | some v => (v, m)
  | none => (default, m.insert key default)

/-- Writes entries one after the other. -/
def merge (m entries : OrderedMap α) : OrderedMap α :=
  entries.foldl (fun m (k, v) => m.insert k v) m

/-- The map of a list of entries: the last value of a key counts, and the place of its first. -/
def ofList (entries : List (String × α)) : OrderedMap α := merge [] entries

/-! ### What a write does -/

@[simp] theorem get?_nil (key : String) : get? ([] : OrderedMap α) key = none := rfl

/-- A write gives its key the new value and leaves the others alone. -/
theorem get?_insert (m : OrderedMap α) (k key : String) (v : α) :
    (m.insert k v).get? key = if k = key then some v else m.get? key := by
  induction m with
  | nil => rfl
  | cons entry rest ih =>
    obtain ⟨k', v'⟩ := entry
    by_cases hk : k' = k
    · by_cases hkey : k = key <;> simp [insert, get?, hk, hkey]
    · by_cases hkey : k' = key
      · have hne : k ≠ key := fun h => hk (hkey.trans h.symm)
        rw [insert, if_neg hk, get?, get?, if_pos hkey, if_pos hkey, if_neg hne]
      · simp [insert, get?, hk, hkey, ih]

/-- A write keeps the keys in order and adds its key at the end if it is new. -/
theorem keys_insert (m : OrderedMap α) (k : String) (v : α) :
    (m.insert k v).keys = if k ∈ m.keys then m.keys else m.keys ++ [k] := by
  induction m with
  | nil => rfl
  | cons entry rest ih =>
    obtain ⟨k', v'⟩ := entry
    by_cases hk : k' = k
    · simp [insert, keys, hk]
    · have hk' : k ≠ k' := fun h => hk h.symm
      simp only [keys] at ih
      simp only [insert, if_neg hk, keys, List.map_cons, List.mem_cons, hk', false_or, ih]
      split <;> simp_all

/-- A new key is written at the end. -/
theorem insert_of_not_mem {m : OrderedMap α} {key : String} (h : key ∉ m.keys) (value : α) :
    m.insert key value = m ++ [(key, value)] := by
  induction m with
  | nil => rfl
  | cons entry rest ih =>
    obtain ⟨k, v⟩ := entry
    have hk : k ≠ key := by
      rintro rfl
      exact h List.mem_cons_self
    have hrest : key ∉ keys rest := fun hmem => h (List.mem_cons_of_mem _ hmem)
    rw [insert, if_neg hk, ih hrest, List.cons_append]

theorem get?_isSome_iff (m : OrderedMap α) (key : String) :
    (m.get? key).isSome ↔ key ∈ m.keys := by
  induction m with
  | nil => simp [keys]
  | cons entry rest ih =>
    obtain ⟨k, v⟩ := entry
    by_cases hk : k = key
    · simp [get?, keys, hk]
    · have hk' : key ≠ k := fun h => hk h.symm
      simp only [get?, if_neg hk, ih, keys, List.map_cons, List.mem_cons, hk', false_or]

end OrderedMap

end ConfigLang

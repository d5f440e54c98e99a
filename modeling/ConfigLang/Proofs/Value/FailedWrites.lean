import ConfigLang.Eval.Error
import ConfigLang.Proofs.Value.Writes

/-!
# Failed writes

When a write at a path fails, and what is left of the fields then. A write in place puts missing objects
there before it knows how the walk ends, and still a failed write leaves no trace: below an object that
was just put there is nothing in the way, so a walk that fails has put nothing there.

* `IsBlockedAt` - a part of a path leads to a value that is not an object, and the path goes on.
* `IsBlockedAt.first_or_below` - all ways in which a path can be blocked.
* `IsBlockedAt.eq_of_isBlockedAt` - a path is blocked at one place at most.
* `writeAt_of_isBlockedAt`, `exists_isBlockedAt_of_writeAt` - writes fail where they are blocked.
* `writeInPlace_of_ok`, `writeInPlace_of_error` - a write in place leaves the fields that `writeAt` gives,
  and the ones from before if that fails.
* `exists_writeInPlace_eq_error_iff` - when it fails.
* `failed_writes_change_nothing` - the result.
-/

namespace ConfigLang

variable {fields written inner : OrderedMap Value} {path before : List String} {key first : String}
  {v value : Value} {e : PathError}

/-! ### Where a path is blocked -/

/-- The keys in front of a key and the key itself lead through objects to a value that is not an object,
and the path goes on behind them. -/
structure IsBlockedAt (fields : OrderedMap Value) (path before : List String) (key : String)
    (v : Value) : Prop where
  goes_on : ∃ behind, behind ≠ [] ∧ path = before ++ key :: behind
  found : (Value.object fields).get? (before ++ [key]) = some v
  not_object : v.kind ≠ .object

/-- Only objects have anything below them. -/
theorem Value.get?_cons_of_not_object (hv : v.kind ≠ .object) (key : String) (path : List String) :
    v.get? (key :: path) = none := by
  cases v with
  | object fields => exact absurd rfl hv
  | _ => rfl

theorem IsBlockedAt.ne_nil (h : IsBlockedAt fields path before key v) : path ≠ [] := by
  obtain ⟨behind, -, rfl⟩ := h.goes_on
  exact List.append_ne_nil_of_right_ne_nil before (List.cons_ne_nil key behind)

theorem Value.get?_object_singleton (fields : OrderedMap Value) (key : String) :
    (object fields).get? [key] = fields.get? key := by
  rw [get?_object_cons]
  cases fields.get? key <;> rfl

/-- A path of several keys is blocked at the first one if that holds a value that is not an object. -/
theorem isBlockedAt_first (hget : fields.get? key = some v) (hv : v.kind ≠ .object) (hpath : path ≠ []) :
    IsBlockedAt fields (key :: path) [] key v :=
  ⟨⟨path, hpath, rfl⟩, (Value.get?_object_singleton fields key).trans hget, hv⟩

/-- It is blocked further down if the rest of it is blocked in the object below the first key. -/
theorem IsBlockedAt.below (h : IsBlockedAt inner path before key v)
    (hinner : objectAt? fields first = some inner) :
    IsBlockedAt fields (first :: path) (first :: before) key v := by
  obtain ⟨⟨behind, hbehind, rfl⟩, hfound, hkind⟩ := h
  refine ⟨⟨behind, hbehind, rfl⟩, ?_, hkind⟩
  rw [List.cons_append, get?_object_of_objectAt? hinner
    (List.append_ne_nil_of_right_ne_nil before (List.cons_ne_nil key [])), hfound]

/-- A path is blocked in no other way. -/
theorem IsBlockedAt.first_or_below (h : IsBlockedAt fields (first :: path) before key v) :
    (key = first ∧ before = [] ∧ path ≠ [] ∧ fields.get? first = some v ∧ v.kind ≠ .object) ∨
      ∃ before' inner, before = first :: before' ∧ objectAt? fields first = some inner ∧
        IsBlockedAt inner path before' key v := by
  obtain ⟨⟨behind, hbehind, hpath⟩, hfound, hkind⟩ := h
  cases before with
  | nil =>
    obtain ⟨rfl, rfl⟩ := List.cons.inj hpath
    rw [List.nil_append, Value.get?_object_singleton] at hfound
    exact Or.inl ⟨rfl, rfl, hbehind, hfound, hkind⟩
  | cons k before =>
    obtain ⟨rfl, rfl⟩ := List.cons.inj hpath
    have hne : before ++ [key] ≠ [] := List.append_ne_nil_of_right_ne_nil before (List.cons_ne_nil key [])
    cases hinner : objectAt? fields first with
    | none =>
      obtain ⟨w, hget, hw⟩ := objectAt?_eq_none_iff.1 hinner
      obtain ⟨next, rest, hnext⟩ := List.exists_cons_of_ne_nil hne
      rw [List.cons_append, Value.get?_object_cons, hget, hnext] at hfound
      cases (Value.get?_cons_of_not_object hw next rest).symm.trans hfound
    | some inner =>
      rw [List.cons_append, get?_object_of_objectAt? hinner hne] at hfound
      exact Or.inr ⟨before, inner, rfl, rfl, ⟨behind, hbehind, rfl⟩, hfound, hkind⟩

/-- Below a key that holds another value there is no object. -/
theorem objectAt?_ne_some (hget : fields.get? key = some v) (hv : v.kind ≠ .object) :
    objectAt? fields key ≠ some inner := by
  intro hsome
  cases (objectAt?_eq_none_iff.2 ⟨v, hget, hv⟩).symm.trans hsome

/-- A path is blocked at one place at most, so that place is the first. -/
theorem IsBlockedAt.eq_of_isBlockedAt {before' : List String} {key' : String} {v' : Value}
    (h : IsBlockedAt fields path before key v) (h' : IsBlockedAt fields path before' key' v') :
    before = before' := by
  induction path generalizing fields before before' with
  | nil => exact absurd rfl h.ne_nil
  | cons first path ih =>
    rcases h.first_or_below with ⟨-, rfl, -, hget, hkind⟩ | ⟨below, inner, rfl, hinner, hbelow⟩
    · rcases h'.first_or_below with ⟨-, rfl, -, -, -⟩ | ⟨below', inner', -, hinner', -⟩
      · rfl
      · exact absurd hinner' (objectAt?_ne_some hget hkind)
    · rcases h'.first_or_below with ⟨-, -, -, hget, hkind⟩ | ⟨below', inner', rfl, hinner', hbelow'⟩
      · exact absurd hinner (objectAt?_ne_some hget hkind)
      · obtain rfl := Option.some.inj (hinner.symm.trans hinner')
        rw [ih hbelow hbelow']

/-! ### When a write fails -/

/-- A write below a key fails as the write to the object there does. -/
theorem writeAt_below_eq_error_iff (h : objectAt? fields first = some inner) (hpath : path ≠ []) :
    writeAt fields (first :: path) value = .error e ↔ writeAt inner path value = .error e := by
  rw [writeAt_below h hpath]
  cases writeAt inner path value with
  | error e' => simp [Except.map]
  | ok below => simp [Except.map]

/-- A write fails where its path is blocked. -/
theorem writeAt_of_isBlockedAt (h : IsBlockedAt fields path before key v) (value : Value) :
    writeAt fields path value = .error (.blocked key v.kind) := by
  induction path generalizing fields before with
  | nil => exact absurd rfl h.ne_nil
  | cons first path ih =>
    rcases h.first_or_below with ⟨rfl, -, hpath, hget, hkind⟩ | ⟨below, inner, -, hinner, hbelow⟩
    · exact writeAt_of_not_object hget hkind hpath value
    · exact (writeAt_below_eq_error_iff hinner hbelow.ne_nil).2 (ih hbelow)

/-- A write that fails at a path that is not empty has found it blocked. -/
theorem exists_isBlockedAt_of_writeAt (h : writeAt fields path value = .error e) (hpath : path ≠ []) :
    ∃ before key v, IsBlockedAt fields path before key v := by
  induction path generalizing fields with
  | nil => exact absurd rfl hpath
  | cons first path ih =>
    by_cases hlast : path = []
    · subst hlast
      cases h
    · cases hinner : objectAt? fields first with
      | none =>
        obtain ⟨v, hget, hkind⟩ := objectAt?_eq_none_iff.1 hinner
        exact ⟨[], first, v, isBlockedAt_first hget hkind hlast⟩
      | some inner =>
        obtain ⟨before, key, v, hblocked⟩ := ih ((writeAt_below_eq_error_iff hinner hlast).1 h) hlast
        exact ⟨first :: before, key, v, hblocked.below hinner⟩

/-- Nothing is in the way below an object without fields. -/
theorem exists_writeAt_nil_eq_ok (hpath : path ≠ []) (value : Value) :
    ∃ written, writeAt [] path value = .ok written := by
  cases hwrite : writeAt [] path value with
  | ok written => exact ⟨written, rfl⟩
  | error e =>
    obtain ⟨before, key, v, -, hfound, -⟩ := exists_isBlockedAt_of_writeAt hwrite hpath
    obtain ⟨next, rest, hnext⟩ := List.exists_cons_of_ne_nil
      (List.append_ne_nil_of_right_ne_nil before (List.cons_ne_nil key []))
    rw [hnext, Value.get?_object_cons] at hfound
    cases hfound

/-! ### Writing in place -/

/-- A walk that goes on below a key changes the object there, and what it leaves of it stays at the key. -/
theorem writeInPlace_below (h : objectAt? fields first = some inner) (hpath : path ≠ [])
    (value : Value) :
    writeInPlace fields (first :: path) value =
      (fields.insert first (.object (writeInPlace inner path value).1),
        (writeInPlace inner path value).2) := by
  obtain ⟨next, rest, rfl⟩ := List.exists_cons_of_ne_nil hpath
  rw [writeInPlace, OrderedMap.getOrInsert]
  rcases objectAt?_eq_some_iff.1 h with ⟨hget, rfl⟩ | hget
  · simp only [hget, OrderedMap.insert_insert]
  · simp only [hget]

/-- A walk that cannot go on below a key ends there. -/
theorem writeInPlace_of_not_object (hget : fields.get? first = some v) (hv : v.kind ≠ .object)
    (hpath : path ≠ []) (value : Value) :
    writeInPlace fields (first :: path) value = (fields, .error (.blocked first v.kind)) := by
  obtain ⟨next, rest, rfl⟩ := List.exists_cons_of_ne_nil hpath
  simp only [writeInPlace, OrderedMap.getOrInsert, hget]
  cases v with
  | object fields => exact absurd rfl hv
  | _ => rfl

/-- A write in place leaves what the write gives. -/
theorem writeInPlace_of_ok (h : writeAt fields path value = .ok written) :
    writeInPlace fields path value = (written, .ok ()) := by
  induction path generalizing fields written with
  | nil => cases h
  | cons first path ih =>
    by_cases hpath : path = []
    · subst hpath
      obtain rfl := Except.ok.inj h
      rfl
    · obtain ⟨inner, below, hinner, hbelow, rfl⟩ := exists_below_of_writeAt h hpath
      rw [writeInPlace_below hinner hpath, ih hbelow]

/-- A write in place that fails leaves the fields as they were. A missing object that the walk puts there
on its way is no exception: below it the walk does not fail. -/
theorem writeInPlace_of_error (h : writeAt fields path value = .error e) :
    writeInPlace fields path value = (fields, .error e) := by
  induction path generalizing fields with
  | nil =>
    obtain rfl := Except.error.inj h
    rfl
  | cons first path ih =>
    by_cases hpath : path = []
    · subst hpath
      cases h
    · cases hinner : objectAt? fields first with
      | none =>
        obtain ⟨v, hget, hkind⟩ := objectAt?_eq_none_iff.1 hinner
        rw [writeAt_of_not_object hget hkind hpath] at h
        rw [writeInPlace_of_not_object hget hkind hpath, Except.error.inj h]
      | some inner =>
        have hwrite := (writeAt_below_eq_error_iff hinner hpath).1 h
        rw [writeInPlace_below hinner hpath, ih hwrite]
        rcases objectAt?_eq_some_iff.1 hinner with ⟨-, rfl⟩ | hget
        · -- The walk has put the object there itself, so it does not fail below it.
          obtain ⟨below, hbelow⟩ := exists_writeAt_nil_eq_ok hpath value
          cases hbelow.symm.trans hwrite
        · rw [OrderedMap.insert_of_get? hget]

/-- A write in place leaves and gives what the write gives. -/
theorem writeAt_eq_writeInPlace (fields : OrderedMap Value) (path : List String) (value : Value) :
    writeAt fields path value =
      (writeInPlace fields path value).2.map fun _ => (writeInPlace fields path value).1 := by
  cases hwrite : writeAt fields path value with
  | ok written =>
    rw [writeInPlace_of_ok hwrite]
    rfl
  | error e =>
    rw [writeInPlace_of_error hwrite]
    rfl

/-- A write in place fails with the error of the write, and then the fields are as they were. -/
theorem writeAt_and_left_of_writeInPlace (h : (writeInPlace fields path value).2 = .error e) :
    writeAt fields path value = .error e ∧ (writeInPlace fields path value).1 = fields := by
  have herror : writeAt fields path value = .error e := by
    rw [writeAt_eq_writeInPlace, h]
    rfl
  exact ⟨herror, by rw [writeInPlace_of_error herror]⟩

/-- A write in place fails at the empty path and at blocked paths, and nowhere else. -/
theorem exists_writeInPlace_eq_error_iff :
    (∃ e, (writeInPlace fields path value).2 = .error e) ↔
      path = [] ∨ ∃ before key v, IsBlockedAt fields path before key v := by
  constructor
  · rintro ⟨e, he⟩
    by_cases hpath : path = []
    · exact Or.inl hpath
    · exact Or.inr (exists_isBlockedAt_of_writeAt (writeAt_and_left_of_writeInPlace he).1 hpath)
  · rintro (rfl | ⟨before, key, v, h⟩)
    · exact ⟨.emptyPath, rfl⟩
    · exact ⟨.blocked key v.kind, by rw [writeInPlace_of_error (writeAt_of_isBlockedAt h value)]⟩

/-! ### The result -/

/-- A write at a path, in place, fails if the path is empty and if it is blocked, and not otherwise. A path
is blocked at one place only, and the error is about that key and the value there. A write that fails leaves
all fields as they were. What it gives otherwise is what `writeAt` gives. -/
theorem failed_writes_change_nothing (fields : OrderedMap Value) (path : List String) (value : Value) :
    ((∃ e, (writeInPlace fields path value).2 = .error e) ↔
      path = [] ∨ ∃ before key v, IsBlockedAt fields path before key v) ∧
    (path = [] →
      (writeInPlace fields path value).2.mapError EvalError.ofPathError =
        .error (EvalError.malformed .emptyPath)) ∧
    (∀ before key v, IsBlockedAt fields path before key v →
      (writeInPlace fields path value).2.mapError EvalError.ofPathError =
        .error (EvalError.keyChaining key v.kind) ∧
      ∀ before' key' v', IsBlockedAt fields path before' key' v' → before' = before) ∧
    (∀ e, (writeInPlace fields path value).2 = .error e → (writeInPlace fields path value).1 = fields) ∧
    writeAt fields path value =
      (writeInPlace fields path value).2.map fun _ => (writeInPlace fields path value).1 := by
  refine ⟨exists_writeInPlace_eq_error_iff, ?_, fun before key v h => ⟨?_, fun _ _ _ h' => ?_⟩,
    fun e he => (writeAt_and_left_of_writeInPlace he).2, writeAt_eq_writeInPlace fields path value⟩
  · rintro rfl
    rfl
  · rw [writeInPlace_of_error (writeAt_of_isBlockedAt h value)]
    rfl
  · exact h'.eq_of_isBlockedAt h

/-- The walk stops at the key in front of the last one, and what it has passed stays as it was. -/
theorem walk_stops_at_a_number :
    let fields : OrderedMap Value := [("a", .object [("b", .integer 1), ("c", .null)])]
    IsBlockedAt fields ["a", "b", "d"] ["a"] "b" (.integer 1) ∧
      (writeInPlace fields ["a", "b", "d"] .null).2.mapError EvalError.ofPathError =
        .error (EvalError.keyChaining "b" .integer) ∧
      (writeInPlace fields ["a", "b", "d"] .null).1 = fields := by
  intro fields
  have hblocked : IsBlockedAt fields ["a", "b", "d"] ["a"] "b" (.integer 1) :=
    ⟨⟨["d"], List.cons_ne_nil "d" [], rfl⟩, rfl, Value.Kind.noConfusion⟩
  obtain ⟨hfails, -, hblocks, hleft, -⟩ :=
    failed_writes_change_nothing fields ["a", "b", "d"] .null
  obtain ⟨e, he⟩ := hfails.2 (Or.inr ⟨["a"], "b", .integer 1, hblocked⟩)
  exact ⟨hblocked, (hblocks ["a"] "b" (.integer 1) hblocked).1, hleft e he⟩

end ConfigLang

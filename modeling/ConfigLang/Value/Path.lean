import ConfigLang.Value

/-!
# Writing at a path

A path of several keys names a place inside nested objects. Objects missing on the way are added,
but a key on the way that holds another value is in the way: the write fails and nothing changes.

* `PathError` - why a write fails.
* `writeAt` - the fields after a write.
* `writeInPlace` - the write as a walk down the path that changes the fields on its way.
-/

namespace ConfigLang

/-- Why there is no place at a path. -/
inductive PathError where
  | emptyPath
  /-- The path goes on below a key whose value is not an object. -/
  | blocked (key : String) (found : Value.Kind)
deriving DecidableEq, Repr

/-- Writes a value at a path of keys. -/
def writeAt (fields : OrderedMap Value) : List String → Value → Except PathError (OrderedMap Value)
  | [], _ => .error .emptyPath
  | [key], value => .ok (fields.insert key value)
  | key :: next :: path, value =>
    match fields.get? key with
    | none => do
      let inner ← writeAt [] (next :: path) value
      .ok (fields.insert key (.object inner))
    | some (.object inner) => do
      let inner ← writeAt inner (next :: path) value
      .ok (fields.insert key (.object inner))
    | some other => .error (.blocked key other.kind)

/-- Writes a value at a path of keys in place: an object that is missing on the way is put there before
the walk goes on in it. The outcome comes with the fields that are left, also if the walk fails. -/
def writeInPlace (fields : OrderedMap Value) :
    List String → Value → OrderedMap Value × Except PathError Unit
  | [], _ => (fields, .error .emptyPath)
  | [key], value => (fields.insert key value, .ok ())
  | key :: next :: path, value =>
    match fields.getOrInsert key (.object []) with
    | (.object inner, fields) =>
      let (inner, outcome) := writeInPlace inner (next :: path) value
      (fields.insert key (.object inner), outcome)
    | (other, fields) => (fields, .error (.blocked key other.kind))

end ConfigLang

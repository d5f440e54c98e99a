import ConfigLang.OrderedMap
import ConfigLang.Text.Split

/-!
# Values

What a document evaluates to: the data of a configuration, with integers apart from floats and with
objects that remember the order of their keys.

* `Value` - a value.
* `Value.Kind` - what sort of value it is, as named in messages.
* `Value.get?` - the value at a path of keys through nested objects.
* `Value.getDotted?` - the same for a path written with dots.
* `Value.induct` - a property of all values follows for each from that of its items or fields.
-/

namespace ConfigLang

/-- A value of an evaluated document. -/
inductive Value where
  | null
  | boolean (value : Bool)
  | integer (value : Int64)
  | float (value : Float)
  | string (value : String)
  | array (items : List Value)
  /-- The fields, as an ordered map. -/
  | object (fields : List (String × Value))
deriving Repr

namespace Value

/-- The sorts of values. -/
inductive Kind where
  | null
  | boolean
  | integer
  | float
  | string
  | array
  | object
deriving DecidableEq, Repr

/-- The name of a sort in messages. -/
def Kind.name : Kind → String
  | null => "null"
  | boolean => "boolean"
  | integer => "integer"
  | float => "float"
  | string => "string"
  | array => "array"
  | object => "object"

/-- The sort of a value. -/
def kind : Value → Kind
  | null => .null
  | boolean _ => .boolean
  | integer _ => .integer
  | float _ => .float
  | string _ => .string
  | array _ => .array
  | object _ => .object

/-! ### Induction -/

/-- A property that each value has if its items or fields have it is a property of all values. -/
@[elab_as_elim]
theorem induct {P : Value → Prop} (scalar : ∀ v : Value, v.kind ≠ .array → v.kind ≠ .object → P v)
    (array : ∀ items, (∀ i ∈ items, P i) → P (array items))
    (object : ∀ fields : OrderedMap Value, (∀ f ∈ fields, P f.2) → P (object fields)) (v : Value) : P v := by
  refine Value.rec (motive_1 := P) (motive_2 := fun items => ∀ i ∈ items, P i)
    (motive_3 := fun fields => ∀ f ∈ fields, P f.2) (motive_4 := fun f => P f.2)
    ?_ ?_ ?_ ?_ ?_ array object ?_ ?_ ?_ ?_ (fun _ _ hvalue => hvalue) v
  · exact scalar _ nofun nofun
  iterate 4
    exact fun _ => scalar _ nofun nofun
  · exact fun i hi => absurd hi List.not_mem_nil
  · exact fun _ _ hfirst hothers => List.forall_mem_cons.2 ⟨hfirst, hothers⟩
  · exact fun f hf => absurd hf List.not_mem_nil
  · exact fun _ _ hfirst hothers => List.forall_mem_cons.2 ⟨hfirst, hothers⟩

/-! ### Parts -/

/-- The text of a string. -/
def string? : Value → Option String
  | string text => some text
  | _ => none

/-- The items of an array. -/
def items? : Value → Option (List Value)
  | array items => some items
  | _ => none

/-- The fields of an object. -/
def fields? : Value → Option (OrderedMap Value)
  | object fields => some fields
  | _ => none

/-- The value at a path of keys. Only objects have anything at a key. -/
def get? (v : Value) : List String → Option Value
  | [] => some v
  | key :: path =>
    match v.fields? >>= fun fields => fields.get? key with
    | some inner => inner.get? path
    | none => none

/-- The value at a path written with dots between the keys. -/
def getDotted? (v : Value) (path : String) : Option Value :=
  v.get? ((Text.splitAt '.' path.toList).map String.ofList)

end Value

end ConfigLang

import ConfigLang.Decimal.Text
import ConfigLang.Value

/-!
# JSON

A value is handed out as a JSON tree, in which infinite floats and those that are no number become
null, and the tree is written on one line or with indentation.

* `Json` - a JSON tree.
* `Value.toJson` - the tree of a value.
* `Json.compact` - its text without any spaces.
* `Json.pretty` - its text with one item on each line.
-/

namespace ConfigLang

/-- A JSON tree whose objects keep the order of their keys. -/
inductive Json where
  | null
  | boolean (value : Bool)
  | integer (value : Int64)
  /-- A finite number. -/
  | float (value : Float)
  | string (value : String)
  | array (items : List Json)
  | object (fields : List (String × Json))
deriving Repr

/-! ### Values as JSON -/

namespace Value

mutual

/-- The JSON tree of a value. -/
def toJson : Value → Json
  | null => .null
  | boolean value => .boolean value
  | integer value => .integer value
  | float value => if value.isFinite then .float value else .null
  | string value => .string value
  | array items => .array (itemsToJson items)
  | object fields => .object (OrderedMap.ofList (fieldsToJson fields))
termination_by structural v => v

/-- The JSON trees of the items of an array. -/
def itemsToJson : List Value → List Json
  | [] => []
  | item :: rest => item.toJson :: itemsToJson rest
termination_by structural items => items

/-- The entries of an object with their JSON trees. -/
def fieldsToJson : List (String × Value) → List (String × Json)
  | [] => []
  | (key, value) :: rest => (key, value.toJson) :: fieldsToJson rest
termination_by structural fields => fields

end

end Value

/-! ### Text -/

namespace Json

/-- Two lower-case hexadecimal digits after `\u00`. -/
def controlEscape (c : Char) : List Char :=
  let digits := Nat.toDigits 16 c.toNat
  ['\\', 'u', '0', '0'] ++ List.replicate (2 - digits.length) '0' ++ digits

/-- The written form of a character in a string: quotes, backslashes and controls are escaped. -/
def escape (c : Char) : List Char :=
  if c = '"' ∨ c = '\\' then ['\\', c]
  else if c = '\x08' then ['\\', 'b']
  else if c = '\x0c' then ['\\', 'f']
  else if c = '\n' then ['\\', 'n']
  else if c = '\r' then ['\\', 'r']
  else if c = '\t' then ['\\', 't']
  else if c.toNat < 0x20 then controlEscape c
  else [c]

/-- A string in double quotes. -/
def quote (s : String) : String :=
  String.ofList ('"' :: s.toList.flatMap escape ++ ['"'])

mutual

/-- The text without any spaces. -/
def compact : Json → String
  | null => "null"
  | boolean true => "true"
  | boolean false => "false"
  | integer value => Decimal.writeInt value.toInt
  | float value => Decimal.write .scientific value
  | string value => quote value
  | array items => "[" ++ ",".intercalate (compactItems items) ++ "]"
  | object fields => "\x7b" ++ ",".intercalate (compactFields fields) ++ "\x7d"
termination_by structural j => j

/-- The texts of the items of an array. -/
def compactItems : List Json → List String
  | [] => []
  | item :: rest => item.compact :: compactItems rest
termination_by structural items => items

/-- The texts of the entries of an object. -/
def compactFields : List (String × Json) → List String
  | [] => []
  | (key, value) :: rest => (quote key ++ ":" ++ value.compact) :: compactFields rest
termination_by structural fields => fields

end

/-- A line break with the indentation of the given depth. -/
def newLine (depth : Nat) : String := "\n" ++ String.ofList (List.replicate (2 * depth) ' ')

/-- Parts between brackets, each on a line of its own one level deeper. -/
def block (opening closing : String) (depth : Nat) : List String → String
  | [] => opening ++ closing
  | parts =>
    let lines := parts.map (newLine (depth + 1) ++ ·)
    opening ++ ",".intercalate lines ++ newLine depth ++ closing

mutual

/-- The text at the given depth, with one item or entry on each line. -/
def prettyAt (depth : Nat) : Json → String
  | array items => block "[" "]" depth (prettyItems (depth + 1) items)
  | object fields => block "\x7b" "\x7d" depth (prettyFields (depth + 1) fields)
  | null => compact .null
  | boolean value => compact (.boolean value)
  | integer value => compact (.integer value)
  | float value => compact (.float value)
  | string value => compact (.string value)
termination_by structural j => j

/-- The texts of the items of an array. -/
def prettyItems (depth : Nat) : List Json → List String
  | [] => []
  | item :: rest => item.prettyAt depth :: prettyItems depth rest
termination_by structural items => items

/-- The texts of the entries of an object. -/
def prettyFields (depth : Nat) : List (String × Json) → List String
  | [] => []
  | (key, value) :: rest =>
    (quote key ++ ": " ++ value.prettyAt depth) :: prettyFields depth rest
termination_by structural fields => fields

end

/-- The text with indentation. -/
def pretty (j : Json) : String := j.prettyAt 0

end Json

end ConfigLang

import ConfigLang.Proofs.Token.Written
import ConfigLang.Value

/-!
# Values as text

A value is written with a space between any two tokens: objects with each key in single quotes, integers in
decimal, and strings in double quotes, with backslashes where a character would not stand for itself. Which
text stands for a float is left open.

* `Value.write` - the text of a value.
* `Value.Writable` - the values that can be written: keys are different from each other and end in no
  backslash, and the texts of the floats are read as these.
-/

namespace ConfigLang

/-! ### Strings -/

/-- The characters that are written between double quotes as they are. -/
def isVerbatim (c : Char) : Bool := c != '\n' && c != '"' && c != '\\' && c != '$'

/-- A character between double quotes: a backslash stands in front of those that would not stand for
themselves, and a line feed is written with a letter. -/
def escapeText (c : Char) : List Char :=
  if isVerbatim c then [c] else if c = '\n' then ['\\', 'n'] else ['\\', c]

/-- A text in double quotes. -/
def stringSpelling (text : List Char) : List Char := '"' :: text.flatMap escapeText ++ ['"']

/-! ### Values -/

namespace Value

variable (floatText : Float → List Char)

mutual

/-- The text of a value, given the texts of floats. -/
def write : Value → List Char
  | null => ['n', 'u', 'l', 'l']
  | boolean true => ['t', 'r', 'u', 'e']
  | boolean false => ['f', 'a', 'l', 's', 'e']
  | integer value => (Decimal.writeInt value.toInt).toList
  | float value => floatText value
  | string text => stringSpelling text.toList
  | array items => '[' :: writeItems items ++ [' ', ']']
  | object fields => '\x7b' :: writeFields fields ++ [' ', '\x7d']
termination_by structural v => v

/-- The items of an array, each behind a space. -/
def writeItems : List Value → List Char
  | [] => []
  | item :: rest => ' ' :: item.write ++ writeItems rest
termination_by structural items => items

/-- The fields of an object, each behind a space. -/
def writeFields : List (String × Value) → List Char
  | [] => []
  | (key, value) :: rest =>
    ' ' :: quotedSpelling key.toList ++ [' ', '=', ' '] ++ value.write ++ writeFields rest
termination_by structural fields => fields

end

theorem writeItems_eq_flatMap (items : List Value) :
    writeItems floatText items = items.flatMap fun i => ' ' :: i.write floatText := by
  induction items with
  | nil => rw [writeItems, List.flatMap_nil]
  | cons i rest ih => rw [writeItems, ih, List.flatMap_cons]

theorem writeFields_eq_flatMap (fields : OrderedMap Value) :
    writeFields floatText fields = fields.flatMap fun f =>
      ' ' :: quotedSpelling f.1.toList ++ [' ', '=', ' '] ++ f.2.write floatText := by
  induction fields with
  | nil => rw [writeFields, List.flatMap_nil]
  | cons f rest ih =>
    obtain ⟨key, value⟩ := f
    rw [writeFields, ih, List.flatMap_cons]

/-- The values that can be written. -/
inductive Writable : Value → Prop
  | null : Writable null
  | boolean (value : Bool) : Writable (boolean value)
  | integer (value : Int64) : Writable (integer value)
  /-- The text of a float is one that is read as this float again. -/
  | float {value : Float} : IsFloatText (floatText value) →
      Decimal.readFloat (floatText value) = some value → Writable (float value)
  | string (text : String) : Writable (string text)
  | array {items : List Value} : (∀ i ∈ items, Writable i) → Writable (array items)
  | object {fields : OrderedMap Value} : fields.keys.Nodup →
      (∀ key ∈ fields.keys, key.toList.getLast? ≠ some '\\') → (∀ f ∈ fields, Writable f.2) →
      Writable (object fields)

end Value

end ConfigLang

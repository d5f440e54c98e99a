import ConfigLang.Decimal.Text
import ConfigLang.Text.Quoted

/-!
# Tokens

The words of a document: fixed symbols, and tokens that carry the name, key, number or text they
were read from.

* `Symbol` - the symbols with one fixed spelling.
* `Token` - a symbol or a token with a payload.
* `Token.Kind` - a token without its payload, as listed in messages.
* `Token.display` - a token as shown in messages.
-/

namespace ConfigLang

/-! ### Symbols -/

/-- The symbols with one fixed spelling. -/
inductive Symbol where
  | braceOpen
  | braceClose
  | bracketOpen
  | bracketClose
  | equals
  | doubleQuote
  /-- Inlines an object or array input; always followed by the name of the input. -/
  | spread
  /-- Stands between the segments of a key path. -/
  | dot
  /-- Begins the input block. -/
  | letWord
  /-- Ends the input block. -/
  | inWord
  | trueWord
  | falseWord
  | nullWord
deriving DecidableEq, Repr

namespace Symbol

/-- The spelling of a symbol. -/
def spelling : Symbol → List Char
  | braceOpen => ['\x7b']
  | braceClose => ['\x7d']
  | bracketOpen => ['[']
  | bracketClose => [']']
  | equals => ['=']
  | doubleQuote => ['"']
  | spread => ['.', '.']
  | dot => ['.']
  | letWord => ['l', 'e', 't']
  | inWord => ['i', 'n']
  | trueWord => ['t', 'r', 'u', 'e']
  | falseWord => ['f', 'a', 'l', 's', 'e']
  | nullWord => ['n', 'u', 'l', 'l']

/-- The spelling of a symbol as a string. -/
def text (s : Symbol) : String := String.ofList s.spelling

/-- All symbols. -/
def all : List Symbol :=
  [braceOpen, braceClose, bracketOpen, bracketClose, equals, doubleQuote, spread, dot, letWord,
    inWord, trueWord, falseWord, nullWord]

theorem mem_all (s : Symbol) : s ∈ all := by
  cases s <;> decide

theorem spelling_ne_nil (s : Symbol) : s.spelling ≠ [] := by
  cases s <;> simp [spelling]

end Symbol

/-! ### Tokens -/

/-- A token of a document. -/
inductive Token where
  | symbol (symbol : Symbol)
  /-- One key of a path, bare or quoted in the source. -/
  | segment (key : String)
  | float (value : Float)
  | integer (value : Int64)
  /-- A character that a string literal spells by an escape. -/
  | escape (char : Char)
  /-- A run of characters of a string literal that stand for themselves. -/
  | characters (text : String)
  /-- A reference to an input, with the `$` in front. -/
  | input (name : String)
deriving DecidableEq, Repr

namespace Token

/-- A token without its payload. -/
inductive Kind where
  | symbol (symbol : Symbol)
  | segment
  | float
  | integer
  | escape
  | characters
  | input
deriving DecidableEq, Repr

/-- The kind of a token. -/
def kind : Token → Kind
  | symbol s => .symbol s
  | segment _ => .segment
  | float _ => .float
  | integer _ => .integer
  | escape _ => .escape
  | characters _ => .characters
  | input _ => .input

/-- The name of a kind in messages. -/
def Kind.name : Kind → String
  | symbol s => s.text
  | segment => "path_seg"
  | float => "float"
  | integer => "int"
  | escape => "char_escape"
  | characters => "char_seq"
  | input => "input"

/-- A kind as shown in messages. -/
def Kind.display (k : Kind) : String := "`" ++ k.name ++ "`"

/-- The payload of a token as shown in messages. -/
def payload : Token → Option String
  | symbol _ => none
  | segment key => some (Text.quoteString key)
  | float value => some (Decimal.write .plain value)
  | integer value => some (Decimal.writeInt value.toInt)
  | escape char => some (Text.quoteChar char)
  | characters text => some (Text.quoteString text)
  | input name => some (Text.quoteString name)

/-- A token as shown in messages: its kind with the payload in parentheses. -/
def display (t : Token) : String :=
  match t.payload with
  | none => t.kind.display
  | some payload => "`" ++ t.kind.name ++ "(" ++ payload ++ ")`"

end Token

end ConfigLang
